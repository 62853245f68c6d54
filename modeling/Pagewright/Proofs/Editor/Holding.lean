import Pagewright.Proofs.Editor.Requests

/-!
# What a history keeps in store

The steps of a history hold whole trees: tags that were added or taken off, and pages that were
replaced. They come back with `undo` and `redo`. This file carries a property of trees through
them.

* `Forest.Durable` -- a property that an edit keeps, where what it brings has it, and that is there
  in whatever its inverse brings; one of the ids that goes to the parts of a page is of this kind
  (`Severable.durable`);
* `Draft.Holds` -- **the invariant**: the page has the property, and so has every tree in the steps
  behind, in those ahead, and in the open batch; `Draft.Holds.serve` keeps it over one request;
* `Session.holds_trail` -- **along every run of a session** the invariant holds, where it holds of
  the page at first and of what operations bring.
-/

namespace Pagewright

open Forest

variable {P : Forest → Prop}

/-! ## 1. Properties that edits keep -/

/-- A property of pages that an edit keeps, where what it brings has it, and that what the inverse
    of an edit brings has. -/
structure Forest.Durable (P : Forest → Prop) : Prop where
  perform : ∀ {page page' : Forest} {e : Edit} {policy : Bool}, P page → e.Brings P →
    e.check page policy = .ok () → e.perform page = .ok page' → P page'
  inverse : ∀ {page : Forest} {e inv : Edit}, P page → e.inverse page = .ok inv → inv.Brings P

namespace Forest.Durable

variable {page page' : Forest} {e : Edit}

theorem restore (hP : Durable P) (hpage : P page) (he : e.Brings P)
    (h : e.restore page = .ok page') : P page' := by
  obtain ⟨hcheck, hperform⟩ := (Edit.restore_eq_ok_iff e page page').mp h
  exact hP.perform hpage he hcheck hperform

/-- **Replaying keeps the property.** -/
theorem replay (hP : Durable P) {es : List Edit} (hpage : P page) (hes : ∀ e ∈ es, e.Brings P)
    (h : Edit.replay page es = .ok page') : P page' := by
  induction es generalizing page with
  | nil =>
      cases h
      exact hpage
  | cons e es ih =>
      rw [Edit.replay] at h
      cases hr : e.restore page with
      | error fault => rw [hr] at h; cases h
      | ok between =>
          rw [hr] at h
          have hbetween := hP.restore hpage (hes e List.mem_cons_self) hr
          exact ih hbetween (fun e' he' => hes e' (List.mem_cons_of_mem e he')) h

end Forest.Durable

/-- **A property of the ids that the parts of a page have with it lasts.** The one tree that an
    inverse takes from the page is the tag that is put in again. -/
theorem Forest.Severable.durable (hP : Severable P) : Durable P where
  perform hpage he hcheck h := Edit.perform_of_severable hP hpage he hcheck h
  inverse {page e inv} hpage h := by
    cases e with
    | insert parent k tag =>
        obtain ⟨id, _, rfl⟩ := Edit.inverse_insert h
        trivial
    | move id parent k =>
        obtain ⟨found, old, _, _, rfl⟩ := Edit.inverse_move h
        trivial
    | remove id =>
        obtain ⟨found, parent, hf, _, rfl⟩ := Edit.inverse_remove h
        exact hP.of_find hpage hf
    | setAttribute id name value =>
        obtain ⟨found, _, rfl⟩ := Edit.inverse_setAttribute h
        trivial
    | setText id text =>
        obtain ⟨found, _, rfl⟩ := Edit.inverse_setText h
        trivial
    | replacePage nodes =>
        cases h
        exact hpage

/-! ## 2. Steps and histories -/

/-- Every tree that the step would bring has the property. -/
structure Step.Holds (P : Forest → Prop) (s : Step) : Prop where
  edits : ∀ e ∈ s.edits, e.Brings P
  inverses : ∀ e ∈ s.inverses, e.Brings P

/-- Every tree in the history has the property. -/
structure History.Holds (P : Forest → Prop) (h : History) : Prop where
  past : ∀ s ∈ h.past, s.Holds P
  future : ∀ s ∈ h.future, s.Holds P
  batch : ∀ s, h.batch = some s → s.Holds P

/-- **The invariant**: the page has the property, and every tree in the history. -/
structure Draft.Holds (P : Forest → Prop) (d : Draft) : Prop where
  page : P d.page
  history : d.history.Holds P

theorem Step.Holds.described (description : String) : (Step.described description).Holds P :=
  ⟨fun _ he => (by cases he), fun _ he => (by cases he)⟩

theorem Step.Holds.add {s : Step} (h : s.Holds P) {e inv : Edit} (he : e.Brings P)
    (hinv : inv.Brings P) : (s.add e inv).Holds P where
  edits e' he' := by
    rcases List.mem_append.mp he' with hmem | hmem
    · exact h.edits e' hmem
    · rw [List.mem_singleton.mp hmem]
      exact he
  inverses e' he' := by
    rcases List.mem_cons.mp he' with rfl | hmem
    · exact hinv
    · exact h.inverses e' hmem

namespace History.Holds

variable {h : History} {s : Step}

theorem empty (limit : Nat) : (History.empty limit).Holds P :=
  ⟨fun _ hs => (by cases hs), fun _ hs => (by cases hs), fun _ hs => (by cases hs)⟩

theorem push (hh : h.Holds P) (hs : s.Holds P) : (h.push s).Holds P where
  past s' hs' := by
    have hmem : s' ∈ s :: h.past := by
      simp only [History.push] at hs'
      split at hs'
      · exact (List.dropLast_sublist _).subset hs'
      · exact hs'
    rcases List.mem_cons.mp hmem with rfl | hmem
    · exact hs
    · exact hh.past s' hmem
  future s' hs' := by cases hs'
  batch := hh.batch

theorem pushUnlessEmpty (hh : h.Holds P) (hs : s.Holds P) : (h.pushUnlessEmpty s).Holds P := by
  rw [History.pushUnlessEmpty]
  split
  · exact hh
  · exact hh.push hs

/-- Without its open batch, a history holds no more than before. -/
theorem unbatched (hh : h.Holds P) : ({ h with batch := none } : History).Holds P :=
  ⟨hh.past, hh.future, fun _ hs => by cases hs⟩

theorem openBatch (hh : h.Holds P) (description : String) : (h.openBatch description).Holds P where
  past := hh.past
  future := hh.future
  batch s hs := by
    cases hs
    exact .described description

theorem closeBatch (hh : h.Holds P) : h.closeBatch.Holds P := by
  rw [History.closeBatch]
  cases hb : h.batch with
  | none => exact hh
  | some s => exact hh.unbatched.pushUnlessEmpty (hh.batch s hb)

/-- An edit is recorded with its inverse, in the open batch or as a step of its own. -/
theorem note (hh : h.Holds P) {e inv : Edit} (he : e.Brings P) (hinv : inv.Brings P) :
    (h.note e inv).Holds P := by
  rw [History.note]
  cases hb : h.batch with
  | none =>
      have hempty : Step.Holds P ⟨[], [], none⟩ := ⟨fun _ h => (by cases h), fun _ h => (by cases h)⟩
      exact hh.push (hempty.add he hinv)
  | some s =>
      refine ⟨hh.past, hh.future, fun s' hs' => ?_⟩
      cases hs'
      exact (hh.batch s hb).add he hinv

end History.Holds

/-! ## 3. Requests -/

namespace Draft.Holds

variable {d : Draft}

theorem edit (hP : Durable P) (h : d.Holds P) {e : Edit} (he : e.Brings P) :
    (d.serve (.edit e)).2.Holds P := by
  simp only [Draft.serve]
  cases ha : d.history.apply e d.page with
  | error fault => exact h
  | ok made =>
      obtain ⟨history, page⟩ := made
      obtain ⟨inv, hinv, hp, rfl⟩ := History.apply_eq_ok ha
      obtain ⟨hcheck, hperform⟩ := (Edit.apply_eq_ok_iff e d.page page).mp hp
      exact ⟨hP.perform h.page he hcheck hperform, h.history.note he (hP.inverse h.page hinv)⟩

theorem abort (hP : Durable P) (h : d.Holds P) : (d.serve .abort).2.Holds P := by
  simp only [Draft.serve, History.abort]
  cases hb : d.history.batch with
  | none => exact h
  | some s =>
      have hs := h.history.batch s hb
      simp only
      cases hr : Edit.replay d.page s.inverses with
      | error fault => exact ⟨h.page, h.history.unbatched.pushUnlessEmpty hs⟩
      | ok page => exact ⟨hP.replay h.page hs.inverses hr, h.history.unbatched⟩

theorem undo (hP : Durable P) (h : d.Holds P) : (d.serve .undo).2.Holds P := by
  simp only [Draft.serve, History.undo]
  cases hp : d.history.past with
  | nil => exact h
  | cons s past =>
      have hpast : ∀ s' ∈ s :: past, s'.Holds P := hp ▸ h.history.past
      have hs := hpast s List.mem_cons_self
      simp only
      cases hr : Edit.replay d.page s.inverses with
      | error fault => exact h
      | ok page =>
          refine ⟨hP.replay h.page hs.inverses hr, fun s' hs' => ?_, ?_, h.history.batch⟩
          · exact hpast s' (List.mem_cons_of_mem s hs')
          · exact List.forall_mem_cons.mpr ⟨hs, h.history.future⟩

theorem redo (hP : Durable P) (h : d.Holds P) : (d.serve .redo).2.Holds P := by
  simp only [Draft.serve, History.redo]
  cases hf : d.history.future with
  | nil => exact h
  | cons s future =>
      have hfuture : ∀ s' ∈ s :: future, s'.Holds P := hf ▸ h.history.future
      have hs := hfuture s List.mem_cons_self
      simp only
      cases hr : Edit.replay d.page s.edits with
      | error fault => exact h
      | ok page =>
          refine ⟨hP.replay h.page hs.edits hr, ?_, fun s' hs' => ?_, h.history.batch⟩
          · exact List.forall_mem_cons.mpr ⟨hs, h.history.past⟩
          · exact hfuture s' (List.mem_cons_of_mem s hs')

/-- **A request keeps the invariant**, where what it brings has the property. -/
theorem serve (hP : Durable P) (h : d.Holds P) {r : Request} (hr : r.Brings P) :
    (d.serve r).2.Holds P := by
  cases r with
  | edit e => exact h.edit hP hr
  | openBatch description => exact ⟨h.page, h.history.openBatch description⟩
  | closeBatch => exact ⟨h.page, h.history.closeBatch⟩
  | abort => exact h.abort hP
  | undo => exact h.undo hP
  | redo => exact h.redo hP

/-- Requests in turn keep it. -/
theorem after (hP : Durable P) (h : d.Holds P) {rs : List Request} (hrs : ∀ r ∈ rs, r.Brings P) :
    (d.after rs).Holds P := by
  induction rs generalizing d with
  | nil => exact h
  | cons r rs ih =>
      rw [List.forall_mem_cons] at hrs
      exact ih (h.serve hP hrs.1) hrs.2

end Draft.Holds

/-! ## 4. Sessions -/

namespace Session

variable {σ : Type} [IdSource σ]

/-- **A step**: an operation keeps the invariant, where what it brings has the property. -/
theorem holds_perform {s : Session σ} (hP : Durable P) (h : s.draft.Holds P) {op : Operation}
    (hop : s.Brings P op) : (s.perform op).2.draft.Holds P := by
  obtain ⟨rs, hasks, hexplains⟩ := s.perform_asks op
  rw [hexplains.draft]
  exact h.after hP (hasks.brings hop)

/-- **A run**: along all operations, where each brings what has the property whenever it is done in
    a state that has it. -/
theorem holds_trail {s : Session σ} (hP : Durable P) (h : s.draft.Holds P) (ops : List Operation)
    (hops : ∀ s' : Session σ, s'.draft.Holds P → ∀ op ∈ ops, s'.Brings P op) :
    ∀ s' ∈ s.trail ops, s'.draft.Holds P := by
  induction ops generalizing s with
  | nil =>
      intro s' hs'
      rw [trail, List.mem_singleton] at hs'
      rw [hs']
      exact h
  | cons op ops ih =>
      intro s' hs'
      rw [trail, List.mem_cons] at hs'
      rcases hs' with rfl | hs'
      · exact h
      · have hnext := holds_perform hP h (hops s h op List.mem_cons_self)
        exact ih hnext (fun s'' h'' op' hop' => hops s'' h'' op' (List.mem_cons_of_mem op hop'))
          s' hs'

end Session

end Pagewright
