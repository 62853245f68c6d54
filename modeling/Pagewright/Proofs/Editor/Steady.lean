import Pagewright.Proofs.Editor.Requests

/-!
# What replaying cannot undo

An edit is checked in full when it is made, and only in part when it is replayed. A property that
the full check secures may therefore fail after an edit on some page that is replayed on another.
It does not fail along a run, since replaying leads to pages that were there before.

* `Forest.Steady` -- a property that likeness does not touch, and that an edit with the full check
  keeps;
* `Draft.Keeps` -- **the invariant**: the draft is where its timeline says, and the page and every
  end of a span on the timeline has the property; `Draft.Keeps.serve` keeps it over one request,
  replaying or not;
* `Session.steady_trail` -- **along every run of a session** whose pages have distinct ids, the
  property stays.
-/

namespace Pagewright

open Forest

variable {P : Forest → Prop}

/-- A property that a page shares with the pages like it, and that an edit keeps which passes the
    full check, where what it brings has the property. -/
structure Forest.Steady (P : Forest → Prop) : Prop where
  alike : ∀ {ns ms : Forest}, Alike ms ns → P ns → P ms
  apply : ∀ {page page' : Forest} {e : Edit}, page.Identified → P page → e.Brings P →
    e.apply page = .ok page' → P page'

/-! ## 1. Timelines -/

/-- The ends of every span, and the page at the opening of a batch, have the property. -/
structure Timeline.Keeps (P : Forest → Prop) (t : Timeline) : Prop where
  past : ∀ span ∈ t.past, P span.before ∧ P span.after
  future : ∀ span ∈ t.future, P span.before ∧ P span.after
  opened : ∀ opening edited, t.opened = some (opening, edited) → P opening

namespace Timeline.Keeps

variable {t : Timeline} {page page' : Forest}

theorem empty : Timeline.empty.Keeps P :=
  ⟨fun _ hs => (by cases hs), fun _ hs => (by cases hs), fun _ _ ho => (by cases ho)⟩

theorem record (h : t.Keeps P) {span : Span} (hspan : P span.before ∧ P span.after)
    (limit : Nat) : (t.record limit span).Keeps P where
  past span' hs' := by
    have hmem : span' ∈ span :: t.past := by
      simp only [Timeline.record] at hs'
      split at hs'
      · exact (List.dropLast_sublist _).subset hs'
      · exact hs'
    rcases List.mem_cons.mp hmem with rfl | hmem
    · exact hspan
    · exact h.past span' hmem
  future span' hs' := by cases hs'
  opened := h.opened

theorem back (h : t.Keeps P) : t.back.Keeps P := by
  rw [Timeline.back]
  cases hp : t.past with
  | nil => exact h
  | cons span past =>
      have hpast := h.past
      rw [hp, List.forall_mem_cons] at hpast
      exact ⟨hpast.2, List.forall_mem_cons.mpr ⟨hpast.1, h.future⟩, h.opened⟩

theorem forth (h : t.Keeps P) : t.forth.Keeps P := by
  rw [Timeline.forth]
  cases hf : t.future with
  | nil => exact h
  | cons span future =>
      have hfuture := h.future
      rw [hf, List.forall_mem_cons] at hfuture
      exact ⟨List.forall_mem_cons.mpr ⟨hfuture.1, h.past⟩, hfuture.2, h.opened⟩

/-- Without its open batch, a timeline keeps what it kept. -/
theorem unopened (h : t.Keeps P) : ({ t with opened := none } : Timeline).Keeps P :=
  ⟨h.past, h.future, fun _ _ ho => by cases ho⟩

/-- The page where the cursor stands. -/
theorem cursor (h : t.Keeps P) (hpage : P page) : P (t.cursor page) := by
  rw [Timeline.cursor]
  split
  · exact hpage
  · rename_i opening edited hopened
    exact h.opened opening edited hopened

/-- **What a reply does to the timeline**, where the pages before and after have the property. -/
theorem note (h : t.Keeps P) (hpage : P page) (hpage' : P page') (limit : Nat) (r : Request)
    (reply : Reply) : (t.note limit page page' r reply).Keeps P := by
  unfold Timeline.note
  split
  · split
    · exact h.record ⟨hpage, hpage'⟩ limit
    · rename_i opening edited hopened
      refine ⟨h.past, h.future, fun opening' edited' ho => ?_⟩
      cases ho
      exact h.opened opening edited hopened
  · refine ⟨h.past, h.future, fun opening' edited' ho => ?_⟩
    cases ho
    exact hpage
  · split
    · rename_i opening hopened
      exact h.unopened.record ⟨h.opened opening true hopened, hpage⟩ limit
    · exact h.unopened
  · exact h.unopened
  · exact h.back
  · exact h.forth
  · exact h

end Timeline.Keeps

/-! ## 2. Requests -/

/-- **The invariant**: the draft is where its timeline says, and the page and all pages on the
    timeline have the property. -/
structure Draft.Keeps (P : Forest → Prop) (limit : Nat) (d : Draft) (t : Timeline) : Prop where
  agrees : Agrees limit d t
  page : P d.page
  timeline : t.Keeps P

namespace Draft.Keeps

variable {limit : Nat} {d : Draft} {t : Timeline}

theorem fresh (limit : Nat) {start : Forest} (hid : start.Identified) (hstart : P start) :
    Draft.Keeps P limit (.fresh limit start) .empty :=
  ⟨.fresh limit hid, hstart, .empty⟩

/-- **The page after a request has the property.** An edit was checked in full; every other request
    leads to a page like one on the timeline. -/
theorem page_serve (hP : Steady P) (h : d.Keeps P limit t) {r : Request} (allowed : r.Allowed d)
    (hr : r.Brings P) : P (d.serve r).2.page := by
  cases r with
  | edit e =>
      simp only [Draft.serve]
      cases ha : d.history.apply e d.page with
      | error fault => exact h.page
      | ok made =>
          obtain ⟨inv, _, hp, _⟩ := History.apply_eq_ok ha
          exact hP.apply h.agrees.identified h.page hr hp
  | openBatch description => exact h.page
  | closeBatch => exact h.page
  | abort =>
      obtain ⟨page, hs, hlike, _⟩ := h.agrees.abort_served
      rw [hs]
      exact hP.alike hlike (h.timeline.cursor h.page)
  | undo =>
      rcases h.agrees.undo_served allowed with ⟨_, hs⟩ | ⟨span, spans, hpast, _, hlike, _⟩
      · rw [hs]
        exact h.page
      · have hspan := h.timeline.past span (by rw [hpast]; exact List.mem_cons_self)
        exact hP.alike hlike hspan.1
  | redo =>
      rcases h.agrees.redo_served allowed with ⟨_, hs⟩ | ⟨span, spans, hfuture, _, hlike, _⟩
      · rw [hs]
        exact h.page
      · have hspan := h.timeline.future span (by rw [hfuture]; exact List.mem_cons_self)
        exact hP.alike hlike hspan.2

/-- **An allowed request keeps the invariant**, where what it brings has the property. -/
theorem serve (hP : Steady P) (h : d.Keeps P limit t) {r : Request} (allowed : r.Allowed d)
    (hr : r.Brings P) :
    (d.serve r).2.Keeps P limit (t.note limit d.page (d.serve r).2.page r (d.serve r).1) where
  agrees := h.agrees.serve r allowed
  page := h.page_serve hP allowed hr
  timeline := h.timeline.note h.page (h.page_serve hP allowed hr) limit r _

end Draft.Keeps

/-- What an edit brings in that was made is on the page: it has distinct ids where the page has. -/
theorem Edit.fresh_of_perform {e : Edit} {page page' : Forest} (h : e.perform page = .ok page')
    (hid : page'.Identified) : e.Fresh := by
  cases e with
  | insert parent k tag => exact ((identified_iff_of_perm (labels_attach h)).mp hid).1
  | replacePage nodes => cases h; exact hid
  | _ => trivial

/-- An edit leads on, where the page after it has distinct ids: it is refused, or what it brings in
    has distinct ids. -/
theorem Draft.Keeps.edit (hP : Steady P) {limit : Nat} {d : Draft} {t : Timeline}
    (h : d.Keeps P limit t) {e : Edit} (he : e.Brings P)
    (hid : (d.serve (.edit e)).2.page.Identified) :
    ∃ t', (d.serve (.edit e)).2.Keeps P limit t' := by
  cases ha : d.history.apply e d.page with
  | error fault =>
      have hs : d.serve (.edit e) = (.failed fault, d) := by simp only [Draft.serve, ha]
      rw [hs]
      exact ⟨t, h⟩
  | ok made =>
      obtain ⟨inv, _, hp, _⟩ := History.apply_eq_ok ha
      have hpage : (d.serve (.edit e)).2.page = made.2 := by simp only [Draft.serve, ha]
      obtain ⟨_, hperform⟩ := (Edit.apply_eq_ok_iff e d.page made.2).mp hp
      exact ⟨_, h.serve hP (Edit.fresh_of_perform hperform (hpage ▸ hid)) he⟩

/-- Removals in turn lead on. -/
theorem Draft.Keeps.removals (hP : Steady P) {limit : Nat} (gone : List String) :
    ∀ {d : Draft} {t : Timeline}, d.Keeps P limit t →
      ∃ t', (d.after (gone.map fun id => .edit (.remove id))).Keeps P limit t' := by
  induction gone with
  | nil => exact fun {d t} h => ⟨t, h⟩
  | cons id gone ih =>
      intro d t h
      exact ih (h.serve hP (r := .edit (.remove id)) trivial trivial)

/-! ## 3. Sessions -/

namespace Session

variable {σ : Type} [IdSource σ]

/-- **A step**: an operation leads from a draft of this kind to one of this kind, where no batch is
    open, what it brings has the property, and the page after it has distinct ids. -/
theorem keeps_perform (hP : Steady P) {limit : Nat} {s : Session σ} {t : Timeline}
    (h : s.draft.Keeps P limit t) (hb : s.history.batch = none) {op : Operation}
    (hop : s.Brings P op) (hid : (s.perform op).2.page.Identified) :
    ∃ t', (s.perform op).2.draft.Keeps P limit t' := by
  obtain ⟨rs, hasks, hexplains⟩ := s.perform_asks op
  have hdraft := hexplains.draft
  rw [hdraft]
  have hafter : (s.draft.after rs).page.Identified := by rw [← hdraft]; exact hid
  cases hasks with
  | nothing => exact ⟨t, h⟩
  | edit _ plain => exact h.edit hP (plain.brings P) hafter
  | tag coming parent k => exact h.edit hP (hop.tag _ _ coming) hafter
  | page rows => exact h.edit hP (hop.page rows rfl) hafter
  | undo => exact ⟨_, h.serve hP (r := .undo) hb trivial⟩
  | redo => exact ⟨_, h.serve hP (r := .redo) hb trivial⟩
  | @removals ids description gone last ends =>
      have hopen := h.serve hP (r := .openBatch description) hb trivial
      obtain ⟨t', hgone⟩ := hopen.removals hP gone
      rw [Draft.after_append]
      rcases ends with rfl | rfl
      · exact ⟨_, hgone.serve hP (r := .closeBatch) trivial trivial⟩
      · exact ⟨_, hgone.serve hP (r := .abort) trivial trivial⟩

/-- **A run**: the property stays along all operations, where it stays with what each of them
    brings, and all pages on the way have distinct ids. -/
theorem steady_trail (hP : Steady P) {limit : Nat} {s : Session σ} {t : Timeline}
    (h : s.draft.Keeps P limit t) (hb : s.history.batch = none) (ops : List Operation)
    (hops : ∀ op ∈ ops, ∀ s' : Session σ, P s'.page → s'.Brings P op)
    (hid : ∀ s' ∈ s.trail ops, s'.page.Identified) : ∀ s' ∈ s.trail ops, P s'.page := by
  induction ops generalizing s t with
  | nil =>
      intro s' hs'
      rw [trail, List.mem_singleton] at hs'
      rw [hs']
      exact h.page
  | cons op ops ih =>
      rw [List.forall_mem_cons] at hops
      rw [trail, List.forall_mem_cons] at hid
      obtain ⟨t', hnext⟩ := keeps_perform hP h hb (hops.1 s h.page)
        (hid.2 _ (mem_trail_self _ ops))
      rw [trail, List.forall_mem_cons]
      exact ⟨h.page, ih hnext (batch_perform hb op) hops.2 hid.2⟩

end Session

end Pagewright
