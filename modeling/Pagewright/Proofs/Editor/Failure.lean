import Pagewright.Proofs.Editor.Operation

/-!
# Operations that fail

An operation works on the page and the history in place, and has many points at which it can fail.
This file says what is left when it does: the session as it was, but for ids that were drawn.

* `Session.Ways` -- all that an operation can come to, with the session after it;
  `Session.perform_ways`: **every operation but the removal of several tags comes to one of these**.
  An edit that has passed its check cannot fail half-way (`History.applyTo_cases`);
* `Session.Steps` -- the same for the page and the history: a failure that leaves all else as it
  was, a success that leaves the page alone, one edit that was made and recorded, or one step of the
  history back or forth;
* `Session.batch_trail` -- **along every run no batch is open**, also not after the removal of
  several tags;
* `Session.perform_error` -- what both say of the sessions that operations lead to.
-/

namespace Pagewright

/-! ## 1. Batches -/

namespace History

variable {h h' : History} {page page' : Forest}

theorem batch_pushUnlessEmpty (h : History) (s : Step) :
    (h.pushUnlessEmpty s).batch = h.batch := by
  rw [pushUnlessEmpty]
  split
  · rfl
  · rfl

theorem batch_apply (hb : h.batch = none) {e : Edit} (ha : h.apply e page = .ok (h', page')) :
    h'.batch = none := by
  obtain ⟨inv, _, _, rfl⟩ := apply_eq_ok ha
  rw [note, hb]
  exact hb

theorem batch_undo (hu : h.undo page = .ok (some (h', page'))) : h'.batch = h.batch := by
  rw [undo] at hu
  cases hp : h.past with
  | nil => rw [hp] at hu; cases hu
  | cons s past =>
      rw [hp] at hu
      simp only at hu
      cases hr : Edit.replay page s.inverses with
      | error fault => rw [hr] at hu; cases hu
      | ok back => rw [hr] at hu; cases hu; rfl

theorem batch_redo (hr : h.redo page = .ok (some (h', page'))) : h'.batch = h.batch := by
  rw [redo] at hr
  cases hf : h.future with
  | nil => rw [hf] at hr; cases hr
  | cons s future =>
      rw [hf] at hr
      simp only at hr
      cases he : Edit.replay page s.edits with
      | error fault => rw [he] at hr; cases hr
      | ok forth => rw [he] at hr; cases hr; rfl

theorem batch_closeBatch (h : History) : h.closeBatch.batch = none := by
  rw [closeBatch]
  cases hb : h.batch with
  | none => exact hb
  | some s => exact batch_pushUnlessEmpty _ s

theorem batch_abort (h : History) (page : Forest) : (h.abort page).1.batch = none := by
  rw [abort]
  cases hb : h.batch with
  | none => exact hb
  | some s =>
      simp only
      cases Edit.replay page s.inverses with
      | ok page' => rfl
      | error fault => exact batch_pushUnlessEmpty _ s

end History

namespace Session

variable {σ : Type} {s : Session σ}

/-! ## 2. What an operation can come to -/

/-- All that an operation can come to, and the session after it. -/
inductive Ways (s : Session σ) (op : Operation) : Outcome σ Unit → Prop
  | fails (e : SessionError) (ids : σ) : Ways s op (.error e, { s with ids := ids })
  | selects {id : String} (asked : op = .select id) (there : id ∈ Forest.ids s.page) :
      Ways s op (.ok (), { s with selected := some id })
  | clears (asked : op = .clearSelection) : Ways s op (.ok (), s.clearSelection)
  | drags (asked : op.drags = true) (drag : Option Drag) : Ways s op (.ok (), { s with drag := drag })
  | edits {e : Edit} (ids : σ) {history : History} {page : Forest} (keeps : e.sheds = false)
      (made : s.history.apply e s.page = .ok (history, page)) :
      Ways s op (.ok (), { s with ids := ids, history := history, page := page })
  | cuts (e : Edit) (ids : σ) {history : History} {page : Forest}
      (made : s.history.apply e s.page = .ok (history, page)) :
      Ways s op (.ok (), ({ s with ids := ids, history := history, page := page } :
        Session σ).syncSelection)
  | rests : Ways s op (.ok (), s.syncSelection)
  | back {history : History} {page : Forest}
      (undone : s.history.undo s.page = .ok (some (history, page))) :
      Ways s op (.ok (), ({ s with history := history, page := page } : Session σ).syncSelection)
  | forth {history : History} {page : Forest}
      (redone : s.history.redo s.page = .ok (some (history, page))) :
      Ways s op (.ok (), ({ s with history := history, page := page } : Session σ).syncSelection)

/-- What an operation can come to: a failure after which only ids may have been drawn; a success
    that leaves the page and the history; an edit; or a step back or forth. -/
inductive Steps (s : Session σ) : Outcome σ Unit → Prop
  | fails (e : SessionError) (ids : σ) : Steps s (.error e, { s with ids := ids })
  | stays {s' : Session σ} (page : s'.page = s.page) (history : s'.history = s.history) :
      Steps s (.ok (), s')
  | edits {s' : Session σ} (e : Edit)
      (made : s.history.apply e s.page = .ok (s'.history, s'.page)) : Steps s (.ok (), s')
  | back {s' : Session σ}
      (undone : s.history.undo s.page = .ok (some (s'.history, s'.page))) : Steps s (.ok (), s')
  | forth {s' : Session σ}
      (redone : s.history.redo s.page = .ok (some (s'.history, s'.page))) : Steps s (.ok (), s')

namespace Steps

variable {o : Outcome σ Unit}

/-- Where the page and the history are what counts. -/
theorem of_ways {op : Operation} (h : s.Ways op o) : s.Steps o := by
  cases h with
  | fails e ids => exact .fails e ids
  | selects asked there => exact .stays rfl rfl
  | clears asked => exact .stays rfl rfl
  | drags asked drag => exact .stays rfl rfl
  | edits ids keeps made => exact .edits _ made
  | cuts e ids made => exact .edits e (by rw [page_syncSelection, history_syncSelection]; exact made)
  | rests => exact .stays s.page_syncSelection s.history_syncSelection
  | back undone => exact .back (by rw [page_syncSelection, history_syncSelection]; exact undone)
  | forth redone => exact .forth (by rw [page_syncSelection, history_syncSelection]; exact redone)

/-- **A failure leaves no trace.** -/
theorem eq_of_error (h : s.Steps o) {e : SessionError} (he : o.1 = .error e) :
    o.2 = { s with ids := o.2.ids } := by
  cases h with
  | fails e' ids => rfl
  | stays page history => cases he
  | edits e' made => cases he
  | back undone => cases he
  | forth redone => cases he

/-- No batch is opened. -/
theorem batch_eq_none (h : s.Steps o) (hb : s.history.batch = none) :
    o.2.history.batch = none := by
  cases h with
  | fails e ids => exact hb
  | stays page history => exact history ▸ hb
  | edits e made => exact History.batch_apply hb made
  | back undone => exact (History.batch_undo undone).trans hb
  | forth redone => exact (History.batch_redo redone).trans hb

end Steps

/-- An edit that takes no id off the page. -/
theorem ways_make (s : Session σ) (op : Operation) {e : Edit} (keeps : e.sheds = false) :
    s.Ways op (s.make e) := by
  rcases s.make_cases e with ⟨fault, h⟩ | ⟨history, page, ha, h⟩
  · rw [h]
    exact .fails _ s.ids
  · rw [h]
    exact .edits s.ids keeps ha

/-- An edit, after which what is selected may have left the page; ids may be drawn before. -/
theorem ways_make_sync (s : Session σ) (op : Operation) (e : Edit) (ids : σ) :
    s.Ways op (match ({ s with ids := ids } : Session σ).make e with
      | (.error fault, s') => (.error fault, s')
      | (.ok (), s') => (.ok (), s'.syncSelection)) := by
  rcases make_cases ({ s with ids := ids } : Session σ) e with
    ⟨fault, h⟩ | ⟨history, page, ha, h⟩
  · rw [h]
    exact .fails _ ids
  · rw [h]
    exact .cuts e ids ha

variable [IdSource σ]

/-- A tag that is put on the page, after ids were drawn for it. -/
theorem ways_addTag (s : Session σ) (op : Operation) (ids : σ) (tag : Node)
    (destination : Option String) (spot : Spot) :
    s.Ways op (Outcome.plain
      (({ s with ids := ids } : Session σ).addTag tag destination spot)) := by
  rcases addTag_cases ({ s with ids := ids } : Session σ) tag destination spot with
    ⟨e, h⟩ | ⟨parent, index, history, page, ha, h⟩
  · rw [h]
    exact .fails e _
  · rw [h]
    exact .edits _ rfl ha

/-- **What an operation comes to**, unless it is the removal of several tags. -/
theorem perform_ways (s : Session σ) {op : Operation} (hop : ∀ ids, op ≠ .removeTags ids) :
    s.Ways op (s.perform op) := by
  cases op with
  | select id =>
      rw [perform, select]
      cases hf : s.page.find id with
      | none => exact .fails _ s.ids
      | some found => exact .selects rfl (Forest.mem_ids_of_find hf)
  | clearSelection => exact .clears rfl
  | addTag tag destination spot => exact s.ways_addTag _ s.ids tag destination spot
  | addSample tag text destination spot =>
      rw [perform, addSample]
      cases Element.ofTag? tag with
      | none => exact .fails _ s.ids
      | some e => exact s.ways_addTag _ _ _ destination spot
  | addStarter name destination spot =>
      rw [perform, addStarter]
      cases Starter.ofName? name with
      | none => exact .fails _ s.ids
      | some t => exact s.ways_addTag _ _ _ destination spot
  | moveTag id destination spot =>
      rw [perform, moveTag]
      cases s.page.find id with
      | none => exact .fails _ s.ids
      | some source =>
          simp only
          cases s.placement (some destination) spot with
          | error e => exact .fails e s.ids
          | ok place => exact s.ways_make _ rfl
  | copyTag id destination spot =>
      rw [perform, copyTag]
      cases s.page.find id with
      | none => exact .fails _ s.ids
      | some source => exact s.ways_addTag _ _ _ (some destination) spot
  | removeTag id => exact s.ways_make_sync _ (.remove id) s.ids
  | removeTags ids => exact absurd rfl (hop ids)
  | setAttribute id name value => exact s.ways_make _ rfl
  | setStyle id style value =>
      rw [perform, setStyle]
      cases s.page.find id with
      | none => exact .fails _ s.ids
      | some found => exact s.ways_make _ rfl
  | setText id text => exact s.ways_make _ rfl
  | applyOutline rows => exact s.ways_make_sync _ _ _
  | undo =>
      rw [perform, undo]
      rcases hr : s.history.undo s.page with fault | _ | ⟨history, page⟩
      · exact .fails _ s.ids
      · exact .rests
      · exact .back hr
  | redo =>
      rw [perform, redo]
      rcases hr : s.history.redo s.page with fault | _ | ⟨history, page⟩
      · exact .fails _ s.ids
      · exact .rests
      · exact .forth hr
  | beginDrag source => exact .drags rfl _
  | hover now pointer hovered tag =>
      rw [perform, hover]
      cases s.drag with
      | none => exact .drags rfl s.drag
      | some drag => exact .drags rfl _
  | endDrag => exact .drags rfl none

theorem perform_steps (s : Session σ) {op : Operation} (hop : ∀ ids, op ≠ .removeTags ids) :
    s.Steps (s.perform op) :=
  .of_ways (s.perform_ways hop)

/-! ## 3. No batch stays open -/

omit [IdSource σ] in
/-- The removal of several tags closes the batch that it opens, or gives it up. -/
theorem batch_removeTags (s : Session σ) (ids : List String) :
    (s.removeTags ids).2.history.batch = none := by
  rw [removeTags]
  split
  · rename_i e s' _
    have hgiven := s'.history.batch_abort s'.page
    rw [giveUp]
    split
    · rename_i history fault ha
      rw [ha] at hgiven
      exact hgiven
    · rename_i history page ha
      rw [ha] at hgiven
      exact hgiven
  · rename_i s' _
    rw [history_syncSelection]
    exact s'.history.batch_closeBatch

theorem batch_perform (h : s.history.batch = none) (op : Operation) :
    (s.perform op).2.history.batch = none := by
  by_cases hop : ∃ ids, op = .removeTags ids
  · obtain ⟨ids, rfl⟩ := hop
    exact s.batch_removeTags ids
  · exact (s.perform_steps fun ids e => hop ⟨ids, e⟩).batch_eq_none h

/-- **Along every run no batch is open.** -/
theorem batch_trail (h : s.history.batch = none) (ops : List Operation) :
    ∀ s' ∈ s.trail ops, s'.history.batch = none := by
  induction ops generalizing s with
  | nil =>
      intro s' hs'
      rw [trail, List.mem_singleton] at hs'
      rw [hs']
      exact h
  | cons op ops ih =>
      intro s' hs'
      rw [trail, List.mem_cons] at hs'
      rcases hs' with rfl | hs'
      · exact h
      · exact ih (batch_perform h op) s' hs'

/-! ## 4. Sessions that operations lead to -/

/-- **An operation that fails leaves no trace.** Wherever operations lead from a page, which may
    hold an id twice, no batch is open; and every operation but the removal of several tags, if it
    fails, leaves the page, the selection, both directions of the history, the drag and the options
    as they were. Only ids may have been drawn. -/
theorem perform_error (page : Forest) (options : EditorOptions) (source : σ)
    (ops : List Operation) :
    ∀ s ∈ (ofPage page options source).trail ops, s.history.batch = none ∧
      ∀ (op : Operation) (e : SessionError), (∀ ids, op ≠ .removeTags ids) →
        (s.perform op).1 = .error e → (s.perform op).2 = { s with ids := (s.perform op).2.ids } :=
  fun s hs => ⟨batch_trail (s := ofPage page options source) rfl ops s hs,
    fun _ _ hop he => (s.perform_steps hop).eq_of_error he⟩

/-- Two paragraphs with one id. -/
def twins : Forest :=
  [⟨{ Label.ofTag "p" with id := some "x" }, none⟩, ⟨{ Label.ofTag "p" with id := some "x" }, none⟩]

/-- A paragraph cannot be moved into itself. -/
def inward : Operation := .moveTag "x" "x" .inside

theorem perform_inward (options : EditorOptions) :
    ((ofPage twins options Numbering.fresh).perform inward).1 = .error (.edit .cycle) := rfl

/-- On two paragraphs with one id, a move of the first into itself fails and leaves no trace. -/
theorem perform_error_inward :
    let s := ofPage twins .standard Numbering.fresh
    s ∈ s.trail [inward] ∧ (∀ ids, inward ≠ .removeTags ids) ∧
      (s.perform inward).1 = .error (.edit .cycle) ∧
      (s.perform inward).2 = { s with ids := (s.perform inward).2.ids } := by
  intro s
  have hmem : s ∈ s.trail [inward] := by
    rw [trail]
    exact List.mem_cons_self
  have hop : ∀ ids, inward ≠ .removeTags ids := fun ids h => Operation.noConfusion h
  have hfails := perform_inward .standard
  exact ⟨hmem, hop, hfails,
    (perform_error twins .standard Numbering.fresh [inward] s hmem).2 inward _ hop hfails⟩

end Session

end Pagewright
