import Pagewright.Proofs.Editor.Failure
import Pagewright.Proofs.Editor.Timeline

/-!
# What a session asks of its history

An operation changes the page of a session through its history alone. This file says by which
requests:

* `Draft.after`, `Draft.replies` -- requests that are served in turn;
* `Session.Asks` -- what an operation asks for: nothing; one edit; a step back or forth; or removals
  between the opening of a batch and its end;
* `Session.perform_asks` -- **an operation is the requests that it asks for**: they lead to the page
  and the history after it, and it reports no fault of an edit that none of them was answered with;
* `Session.Brings` -- what comes on the page with them: a tag that is added, as it enters, or the
  page that an outline stands for.

What holds of every draft along requests so holds of every session along operations.
-/

namespace Pagewright

/-! ## 1. Requests in turn -/

namespace Draft

/-- The draft after requests in turn. -/
def after (d : Draft) : List Request → Draft
  | [] => d
  | r :: rs => after (d.serve r).2 rs

/-- The answers to requests in turn. -/
def replies (d : Draft) : List Request → List Reply
  | [] => []
  | r :: rs => (d.serve r).1 :: replies (d.serve r).2 rs

theorem after_append (d : Draft) (rs rs' : List Request) :
    d.after (rs ++ rs') = (d.after rs).after rs' := by
  induction rs generalizing d with
  | nil => rfl
  | cons r rs ih => exact ih (d.serve r).2

theorem replies_append (d : Draft) (rs rs' : List Request) :
    d.replies (rs ++ rs') = d.replies rs ++ (d.after rs).replies rs' := by
  induction rs generalizing d with
  | nil => rfl
  | cons r rs ih =>
      rw [List.cons_append, replies, replies, ih, List.cons_append]
      rfl

theorem after_singleton (d : Draft) (r : Request) : d.after [r] = (d.serve r).2 := rfl

theorem replies_singleton (d : Draft) (r : Request) : d.replies [r] = [(d.serve r).1] := rfl

end Draft

/-- What a request brings on the page has the property. -/
def Request.Brings (P : Forest → Prop) : Request → Prop
  | .edit e => e.Brings P
  | _ => True

theorem Edit.Brings.mono {P Q : Forest → Prop} {e : Edit} (h : e.Brings P)
    (hPQ : ∀ ns, P ns → Q ns) : e.Brings Q := by
  cases e with
  | insert parent k tag => exact hPQ [tag] h
  | replacePage nodes => exact hPQ nodes h
  | _ => trivial

/-- The edit brings nothing on the page. -/
def Edit.Plain (e : Edit) : Prop := e.Brings fun _ => False

theorem Edit.Plain.brings {e : Edit} (h : e.Plain) (P : Forest → Prop) : e.Brings P :=
  Edit.Brings.mono h fun _ => False.elim

/-! ## 2. What an operation asks for -/

namespace Session

variable {σ : Type}

/-- The history and the page of a session. -/
def draft (s : Session σ) : Draft := ⟨s.history, s.page⟩

@[simp] theorem draft_syncSelection (s : Session σ) : s.syncSelection.draft = s.draft := by
  rw [draft, page_syncSelection, history_syncSelection, draft]

section Asks

variable [IdSource σ]

/-- The tag that an operation is about to add, and the source of ids then. -/
def incoming (s : Session σ) : Operation → Option (Node × σ)
  | .addTag tag _ _ => some (tag, s.ids)
  | .addSample tag text _ _ => (Element.ofTag? tag).map fun e => e.sample text s.ids
  | .addStarter name _ _ => (Starter.ofName? name).map fun t => t.instantiate s.ids
  | .copyTag id _ _ => (s.page.find id).map fun found => found.node.assignIds true s.ids
  | _ => none

/-- The page that an outline stands for, with the ids that it lacks. -/
def rebuilt (s : Session σ) (rows : List Outline) : Forest :=
  (Forest.assignIds false (Outline.forest rows) s.ids).1

/-- **What an operation asks for.** Where it fails before it comes to an edit, and where it is not
    about the page, it asks for nothing. -/
inductive Asks (s : Session σ) : Operation → List Request → Prop
  | nothing (op : Operation) : Asks s op []
  | edit (op : Operation) {e : Edit} (plain : e.Plain) : Asks s op [.edit e]
  | tag {op : Operation} {tag : Node} {ids : σ} (coming : s.incoming op = some (tag, ids))
      (parent : Option String) (k : Nat) :
      Asks s op [.edit (.insert parent k (({ s with ids := ids } : Session σ).entering tag).1)]
  | page (rows : List Outline) :
      Asks s (.applyOutline rows) [.edit (.replacePage (s.rebuilt rows))]
  | undo : Asks s .undo [.undo]
  | redo : Asks s .redo [.redo]
  | removals (ids : List String) (description : String) (gone : List String) {last : Request}
      (ends : last = .closeBatch ∨ last = .abort) :
      Asks s (.removeTags ids)
        (.openBatch description :: (gone.map fun id => .edit (.remove id)) ++ [last])

/-- **What an operation brings on the page** has the property: a tag that it adds, as the tag enters,
    or the page that an outline stands for. -/
structure Brings (P : Forest → Prop) (s : Session σ) (op : Operation) : Prop where
  tag : ∀ tag ids, s.incoming op = some (tag, ids) →
    P [(({ s with ids := ids } : Session σ).entering tag).1]
  page : ∀ rows, op = .applyOutline rows → P (s.rebuilt rows)

/-- Nothing else comes on the page with what is asked for. -/
theorem Asks.brings {s : Session σ} {op : Operation} {rs : List Request} {P : Forest → Prop}
    (h : s.Asks op rs) (hop : s.Brings P op) : ∀ r ∈ rs, r.Brings P := by
  cases h with
  | nothing => intro r hr; cases hr
  | edit _ plain => intro r hr; rw [List.mem_singleton.mp hr]; exact plain.brings P
  | tag coming => intro r hr; rw [List.mem_singleton.mp hr]; exact hop.tag _ _ coming
  | page rows => intro r hr; rw [List.mem_singleton.mp hr]; exact hop.page rows rfl
  | undo => intro r hr; rw [List.mem_singleton.mp hr]; trivial
  | redo => intro r hr; rw [List.mem_singleton.mp hr]; trivial
  | removals ids description gone ends =>
      intro r hr
      rw [List.cons_append, List.mem_cons, List.mem_append, List.mem_singleton] at hr
      rcases hr with rfl | hr | rfl
      · trivial
      · obtain ⟨id, _, rfl⟩ := List.mem_map.mp hr
        trivial
      · rcases ends with rfl | rfl <;> trivial

end Asks

/-! ## 3. An operation is the requests that it asks for -/

/-- The requests lead to the page and the history of the outcome, and a fault of an edit that it
    reports is one that a request was answered with. -/
structure Explains (d : Draft) (rs : List Request) {α : Type} (o : Outcome σ α) : Prop where
  draft : o.2.draft = d.after rs
  fault : ∀ fault, o.1 = .error (.edit fault) → .failed fault ∈ d.replies rs

theorem explains_make (s : Session σ) (e : Edit) :
    Explains s.draft [.edit e] (s.make e) := by
  rcases s.history.applyTo_cases e s.page with ⟨fault, h⟩ | ⟨inv, page, _, _, h⟩
  · have hserve : s.draft.serve (.edit e) = (.failed fault, s.draft) := by
      simp only [Draft.serve, draft, History.apply, h]
    have hmake : s.make e = (.error (.edit fault), s) := by rw [make, h]
    refine ⟨?_, fun fault' h' => ?_⟩
    · rw [hmake, Draft.after_singleton, hserve]
    · rw [hmake] at h'
      cases h'
      rw [Draft.replies_singleton, hserve]
      exact List.mem_singleton_self _
  · have hserve : s.draft.serve (.edit e) = (.done, ⟨s.history.note e inv, page⟩) := by
      simp only [Draft.serve, draft, History.apply, h]
    have hmake : s.make e =
        (.ok (), { s with history := s.history.note e inv, page := page }) := by rw [make, h]
    refine ⟨?_, fun fault' h' => ?_⟩
    · rw [hmake, Draft.after_singleton, hserve]
      rfl
    · rw [hmake] at h'
      cases h'

namespace Explains

variable {d : Draft} {rs rs' : List Request} {α : Type} {o : Outcome σ α}

theorem plain (h : Explains d rs o) : Explains d rs (Outcome.plain o) where
  draft := h.draft
  fault fault hf := by
    obtain ⟨result, s⟩ := o
    cases result with
    | error e =>
        cases hf
        exact h.fault fault rfl
    | ok a => cases hf

/-- An operation that fails before it comes to an edit. -/
theorem early {s : Session σ} {e : SessionError} (he : ∀ fault, e ≠ .edit fault) :
    Explains s.draft [] ((.error e, s) : Outcome σ α) :=
  ⟨rfl, fun fault hf => absurd (Except.error.inj hf) (he fault)⟩

/-- A success that leaves the page and the history. -/
theorem still (hdraft : o.2.draft = d) {a : α} (hdone : o.1 = .ok a) : Explains d [] o :=
  ⟨hdraft, fun _ hf => by rw [hdone] at hf; cases hf⟩

/-- Requests that are served after others. -/
theorem append {s : Session σ} (hs : s.draft = d.after rs) (h : Explains s.draft rs' o) :
    Explains d (rs ++ rs') o where
  draft := by rw [h.draft, hs, Draft.after_append]
  fault fault hf := by
    rw [Draft.replies_append, ← hs]
    exact List.mem_append_right _ (h.fault fault hf)

end Explains

/-- An edit, after which what is selected may have left the page. -/
theorem explains_make_sync (s : Session σ) (e : Edit) :
    Explains s.draft [.edit e] (match s.make e with
      | (.error fault, s') => (.error fault, s')
      | (.ok (), s') => (.ok (), s'.syncSelection)) := by
  have h := s.explains_make e
  cases hm : s.make e with
  | mk result s' =>
      rw [hm] at h
      cases result with
      | error fault => exact h
      | ok u => exact ⟨s'.draft_syncSelection.trans h.draft, fun _ hf => by cases hf⟩

theorem placement_error {s : Session σ} {destination : Option String} {spot : Spot}
    {e : SessionError} (h : s.placement destination spot = .error e) (fault : EditFault) :
    e ≠ .edit fault := by
  rintro rfl
  cases destination with
  | none => cases h
  | some id =>
      simp only [placement] at h
      cases hf : s.page.find id with
      | none => rw [hf] at h; cases h
      | some found =>
          rw [hf] at h
          cases spot <;> cases h

theorem explains_putIn (s : Session σ) (n : Node) (destination : Option String) (spot : Spot) :
    Explains s.draft [] (s.putIn n destination spot) ∨
      ∃ parent k, Explains s.draft [.edit (.insert parent k n)] (s.putIn n destination spot) := by
  rw [putIn]
  cases hplace : s.placement destination spot with
  | error e => exact Or.inl (.early (placement_error hplace))
  | ok place =>
      obtain ⟨parent, k⟩ := place
      have h := s.explains_make (.insert parent k n)
      refine Or.inr ⟨parent, k, ?_⟩
      simp only
      cases hm : s.make (.insert parent k n) with
      | mk result s' =>
          rw [hm] at h
          cases result with
          | error fault => exact ⟨h.draft, fun fault' hf => h.fault fault' (by cases hf; rfl)⟩
          | ok u => exact ⟨h.draft, fun _ hf => by cases hf⟩

/-- A step back or forth, after which what is selected may have left the page. -/
theorem explains_revert {s : Session σ} {r : Request}
    {stepped : Except EditFault (Option (History × Forest))}
    (h : s.draft.serve r = s.draft.stepped stepped) : Explains s.draft [r] (s.revert stepped) := by
  rcases stepped with fault | _ | ⟨history, page⟩
  · refine ⟨?_, fun fault' hf => ?_⟩
    · rw [Draft.after_singleton, h]
      rfl
    · cases hf
      rw [Draft.replies_singleton, h]
      exact List.mem_singleton_self _
  · refine ⟨?_, fun _ hf => by cases hf⟩
    rw [Draft.after_singleton, h]
    exact s.draft_syncSelection
  · refine ⟨?_, fun _ hf => by cases hf⟩
    rw [Draft.after_singleton, h]
    exact draft_syncSelection _

/-- The removals in turn, up to the first that fails. -/
theorem explains_removeEach (s : Session σ) (ids : List String) :
    ∃ gone : List String,
      Explains s.draft (gone.map fun id => .edit (.remove id)) (s.removeEach ids) := by
  induction ids generalizing s with
  | nil => exact ⟨[], .still rfl rfl⟩
  | cons id ids ih =>
      have h := s.explains_make (.remove id)
      rw [removeEach]
      cases hm : s.make (.remove id) with
      | mk result s' =>
          rw [hm] at h
          cases result with
          | error fault => exact ⟨[id], h⟩
          | ok u =>
              obtain ⟨gone, hgone⟩ := ih s'
              exact ⟨id :: gone, hgone.append h.draft⟩

/-- To give a batch up is to ask for it; the error that was the reason may be reported too. -/
theorem explains_giveUp (s : Session σ) (reason : SessionError) {d : Draft} {rs : List Request}
    (h : Explains d rs ((.error reason, s) : Outcome σ Unit)) :
    Explains d (rs ++ [.abort]) (s.giveUp reason) := by
  have hdraft : s.draft = d.after rs := h.draft
  refine ⟨?_, ?_⟩
  · rw [Draft.after_append, ← hdraft, Draft.after_singleton, Draft.serve, giveUp]
    simp only [draft]
    rcases s.history.abort s.page with ⟨history, fault | page⟩
    · rfl
    · rfl
  · intro fault hf
    rw [Draft.replies_append, ← hdraft, Draft.replies_singleton, Draft.serve, List.mem_append,
      List.mem_singleton]
    simp only [draft]
    rw [giveUp] at hf
    rcases ha : s.history.abort s.page with ⟨history, fault' | page⟩
    · rw [ha] at hf
      cases hf
      exact Or.inr rfl
    · rw [ha] at hf
      exact Or.inl (h.fault fault hf)

theorem explains_removeTags (s : Session σ) (ids : List String) :
    ∃ (description : String) (gone : List String) (last : Request),
      (last = .closeBatch ∨ last = .abort) ∧ Explains s.draft
        (.openBatch description :: (gone.map fun id => .edit (.remove id)) ++ [last])
        (s.removeTags ids) := by
  rw [removeTags]
  generalize "remove " ++ Nat.repr ids.length ++ " tags" = description
  obtain ⟨gone, hgone⟩ :=
    ({ s with history := s.history.openBatch description } : Session σ).explains_removeEach ids
  have hopened : ({ s with history := s.history.openBatch description } : Session σ).draft =
      s.draft.after [.openBatch description] := rfl
  have hremoved : Explains s.draft
      (.openBatch description :: (gone.map fun id => .edit (.remove id)))
      (({ s with history := s.history.openBatch description } : Session σ).removeEach ids) :=
    hgone.append hopened
  cases heach : ({ s with history := s.history.openBatch description } : Session σ).removeEach
      ids with
  | mk result s' =>
      rw [heach] at hremoved
      cases result with
      | error e =>
          exact ⟨description, gone, .abort, Or.inr rfl, s'.explains_giveUp e hremoved⟩
      | ok u =>
          refine ⟨description, gone, .closeBatch, Or.inl rfl, ?_, fun _ hf => by cases hf⟩
          have hdraft : s'.draft = _ := hremoved.draft
          rw [Draft.after_append, ← hdraft]
          exact draft_syncSelection _

variable [IdSource σ]

theorem explains_addTag (s : Session σ) (tag : Node) (destination : Option String) (spot : Spot) :
    Explains s.draft [] (s.addTag tag destination spot) ∨
      ∃ parent k, Explains s.draft [.edit (.insert parent k (s.entering tag).1)]
        (s.addTag tag destination spot) :=
  explains_putIn ({ s with ids := (s.entering tag).2 } : Session σ) (s.entering tag).1
    destination spot

/-- An edit that brings nothing on the page. -/
theorem asks_make (s : Session σ) (op : Operation) {e : Edit} (plain : e.Plain) :
    ∃ rs, s.Asks op rs ∧ Explains s.draft rs (s.make e) :=
  ⟨_, .edit op plain, s.explains_make e⟩

/-- A tag that is added, whatever it is that is about to come. -/
theorem asks_incoming {s : Session σ} {op : Operation} {tag : Node} {ids : σ}
    (coming : s.incoming op = some (tag, ids)) (destination : Option String) (spot : Spot) :
    ∃ rs, s.Asks op rs ∧ Explains s.draft rs
      (Outcome.plain (({ s with ids := ids } : Session σ).addTag tag destination spot)) := by
  rcases ({ s with ids := ids } : Session σ).explains_addTag tag destination spot with
    h | ⟨parent, k, h⟩
  · exact ⟨[], .nothing op, h.plain⟩
  · exact ⟨_, .tag coming parent k, h.plain⟩

/-- **An operation is the requests that it asks for.** -/
theorem perform_asks (s : Session σ) (op : Operation) :
    ∃ rs, s.Asks op rs ∧ Explains s.draft rs (s.perform op) := by
  cases op with
  | select id =>
      refine ⟨[], .nothing _, ?_⟩
      rw [perform, select]
      cases s.page.find id with
      | none => exact .early fun _ h => by cases h
      | some found => exact .still rfl rfl
  | clearSelection => exact ⟨[], .nothing _, .still rfl rfl⟩
  | addTag tag destination spot => exact asks_incoming rfl destination spot
  | addSample tag text destination spot =>
      rw [perform, addSample]
      cases he : Element.ofTag? tag with
      | none => exact ⟨[], .nothing _, .plain (.early fun _ h => by cases h)⟩
      | some e => exact asks_incoming (by rw [incoming, he]; rfl) destination spot
  | addStarter name destination spot =>
      rw [perform, addStarter]
      cases ht : Starter.ofName? name with
      | none => exact ⟨[], .nothing _, .plain (.early fun _ h => by cases h)⟩
      | some t => exact asks_incoming (by rw [incoming, ht]; rfl) destination spot
  | moveTag id destination spot =>
      rw [perform, moveTag]
      cases s.page.find id with
      | none => exact ⟨[], .nothing _, .early fun _ h => by cases h⟩
      | some source =>
          simp only
          cases hplace : s.placement (some destination) spot with
          | error e => exact ⟨[], .nothing _, .early (placement_error hplace)⟩
          | ok place => exact s.asks_make _ trivial
  | copyTag id destination spot =>
      rw [perform, copyTag]
      cases hf : s.page.find id with
      | none => exact ⟨[], .nothing _, .plain (.early fun _ h => by cases h)⟩
      | some source => exact asks_incoming (by rw [incoming, hf]; rfl) (some destination) spot
  | removeTag id => exact ⟨_, .edit (e := .remove id) _ trivial, s.explains_make_sync _⟩
  | removeTags ids =>
      obtain ⟨description, gone, last, ends, h⟩ := s.explains_removeTags ids
      exact ⟨_, .removals ids description gone ends, h⟩
  | setAttribute id name value => exact s.asks_make _ trivial
  | setStyle id style value =>
      rw [perform, setStyle]
      cases s.page.find id with
      | none => exact ⟨[], .nothing _, .early fun _ h => by cases h⟩
      | some found => exact s.asks_make _ trivial
  | setText id text => exact s.asks_make _ trivial
  | applyOutline rows =>
      exact ⟨_, .page rows, explains_make_sync ({ s with
        ids := (Forest.assignIds false (Outline.forest rows) s.ids).2 } : Session σ) _⟩
  | undo => exact ⟨_, .undo, (explains_revert rfl).plain⟩
  | redo => exact ⟨_, .redo, (explains_revert rfl).plain⟩
  | beginDrag source => exact ⟨[], .nothing _, .still rfl rfl⟩
  | hover now pointer hovered tag =>
      refine ⟨[], .nothing _, ?_⟩
      rw [perform, hover]
      cases s.drag with
      | none => exact .still rfl rfl
      | some drag => exact .still rfl rfl
  | endDrag => exact ⟨[], .nothing _, .still rfl rfl⟩

end Session

end Pagewright
