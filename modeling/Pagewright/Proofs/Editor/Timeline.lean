import Pagewright.Proofs.Editor.Reversal

/-!
# The history is a line with a cursor

A history and the page it belongs to (`Draft`) serve requests. Beside them runs a *timeline*, which
sees the replies and the pages alone: the spans of page before and page after, those behind the
cursor and those ahead of it, and where a batch is open, the page at its opening.

* `Timeline.note` -- what a reply does to the timeline;
* `Step.Joins` -- what is recorded leads from one end of its span to the other, both ways;
* `Agrees` -- **the invariant**: behind the cursor and ahead of it the spans follow one another, and
  each is joined by the step at its place in the history; `Agrees.serve` keeps it;
* `serve_of_run` -- **no step fails to go back or forth**, and each leads to the end of its span.

Pages count up to likeness (`Forest.Alike`).
-/

namespace Pagewright

open Forest

/-! ## 1. Requests -/

/-- What a history is asked for. -/
inductive Request where
  | edit (e : Edit)
  | openBatch (description : String)
  | closeBatch
  | abort
  | undo
  | redo

/-- What it answers: that it is done, whether there was a step, or why not. -/
inductive Reply where
  | done
  | moved (found : Bool)
  | failed (fault : EditFault)
  deriving DecidableEq

/-- A history and the page it belongs to. -/
structure Draft where
  history : History
  page : Forest

namespace Draft

/-- A page with nothing done to it. -/
def fresh (limit : Nat) (page : Forest) : Draft := ⟨.empty limit, page⟩

/-- The draft after a step back or forth. -/
def stepped (d : Draft) : Except EditFault (Option (History × Forest)) → Reply × Draft
  | .error fault => (.failed fault, d)
  | .ok none => (.moved false, d)
  | .ok (some (h, page)) => (.moved true, ⟨h, page⟩)

/-- The answer to a request, and the draft after it. -/
def serve (d : Draft) : Request → Reply × Draft
  | .edit e =>
      match d.history.apply e d.page with
      | .error fault => (.failed fault, d)
      | .ok (h, page) => (.done, ⟨h, page⟩)
  | .openBatch description => (.done, { d with history := d.history.openBatch description })
  | .closeBatch => (.done, { d with history := d.history.closeBatch })
  | .abort =>
      match d.history.abort d.page with
      | (h, .error fault) => (.failed fault, { d with history := h })
      | (h, .ok page) => (.done, ⟨h, page⟩)
  | .undo => d.stepped (d.history.undo d.page)
  | .redo => d.stepped (d.history.redo d.page)

end Draft

/-- Which requests are made: a batch is opened, and a step goes back or forth, only while no batch
    is open; what an edit brings in has distinct ids of its own. -/
def Request.Allowed (d : Draft) : Request → Prop
  | .edit e => e.Fresh
  | .openBatch _ => d.history.batch = none
  | .undo => d.history.batch = none
  | .redo => d.history.batch = none
  | .closeBatch => True
  | .abort => True

/-! ## 2. The timeline -/

/-- The page before a step and the page after it. -/
structure Span where
  before : Forest
  after : Forest

/-- The spans behind the cursor and ahead of it, the nearest first; while a batch is open, the page
    at its opening and whether an edit was made since. -/
structure Timeline where
  past : List Span
  future : List Span
  opened : Option (Forest × Bool)

namespace Timeline

/-- Before the first request. -/
def empty : Timeline := ⟨[], [], none⟩

/-- A new span: nothing is ahead of it, and beyond the limit the farthest one behind is gone. -/
def record (limit : Nat) (t : Timeline) (s : Span) : Timeline :=
  let past := s :: t.past
  { t with
    past := if 0 < limit ∧ limit < past.length then past.dropLast else past
    future := [] }

/-- The cursor one span back. -/
def back (t : Timeline) : Timeline :=
  match t.past with
  | [] => t
  | s :: past => { t with past := past, future := s :: t.future }

/-- The cursor one span forth. -/
def forth (t : Timeline) : Timeline :=
  match t.future with
  | [] => t
  | s :: future => { t with past := s :: t.past, future := future }

/-- The page where the cursor stands, the page being given: the one at the opening of the batch,
    where one is open. -/
def cursor (t : Timeline) (page : Forest) : Forest :=
  match t.opened with
  | none => page
  | some (opening, _) => opening

/-- The timeline after a request, from its reply and the pages before and after it. -/
def note (limit : Nat) (t : Timeline) (page page' : Forest) : Request → Reply → Timeline
  | .edit _, .done =>
      match t.opened with
      | none => t.record limit ⟨page, page'⟩
      | some (opening, _) => { t with opened := some (opening, true) }
  | .openBatch _, _ => { t with opened := some (page, false) }
  | .closeBatch, _ =>
      match t.opened with
      | some (opening, true) => { t with opened := none }.record limit ⟨opening, page⟩
      | _ => { t with opened := none }
  | .abort, _ => { t with opened := none }
  | .undo, .moved true => t.back
  | .redo, .moved true => t.forth
  | _, _ => t

end Timeline

/-- The drafts that allowed requests lead to from a page, each with its timeline. -/
inductive Run (limit : Nat) (start : Forest) : Draft → Timeline → Prop where
  | start : Run limit start (.fresh limit start) .empty
  | serve {d : Draft} {t : Timeline} (r : Request) (h : Run limit start d t)
      (allowed : r.Allowed d) :
      Run limit start (d.serve r).2 (t.note limit d.page (d.serve r).2.page r (d.serve r).1)

/-! ## 3. What a step leads to -/

/-- A step that leads from one page to another, and back. -/
structure Step.Joins (s : Step) (before after : Forest) : Prop where
  back : ∃ page, Edit.replay after s.inverses = .ok page ∧ Alike page before
  forth : ∃ page, Edit.replay before s.edits = .ok page ∧ Alike page after

namespace Step.Joins

variable {s : Step} {before after page : Forest}

/-- A step goes back from every page like the one after it. -/
theorem back_of_alike (h : s.Joins before after) (ha : Alike page after) :
    ∃ page', Edit.replay page s.inverses = .ok page' ∧ Alike page' before := by
  obtain ⟨q, hq, hlike⟩ := h.back
  obtain ⟨q', hq', hlike'⟩ := Edit.replay_congr ha.symm hq
  exact ⟨q', hq', hlike'.symm.trans hlike⟩

/-- A step goes forth from every page like the one before it. -/
theorem forth_of_alike (h : s.Joins before after) (ha : Alike page before) :
    ∃ page', Edit.replay page s.edits = .ok page' ∧ Alike page' after := by
  obtain ⟨q, hq, hlike⟩ := h.forth
  obtain ⟨q', hq', hlike'⟩ := Edit.replay_congr ha.symm hq
  exact ⟨q', hq', hlike'.symm.trans hlike⟩

theorem described (description : String) (page : Forest) :
    (Step.described description).Joins page page :=
  ⟨⟨page, rfl, .refl page⟩, ⟨page, rfl, .refl page⟩⟩

/-- **A step goes on with one more edit**, when the inverse takes the edit back. -/
theorem add (h : s.Joins before after) {e inv : Edit} {back : Forest}
    (he : e.restore after = .ok page) (hinv : inv.restore page = .ok back)
    (hback : Alike back after) : (s.add e inv).Joins before page := by
  obtain ⟨q, hq, hlike⟩ := h.back_of_alike hback
  obtain ⟨q', hq', hlike'⟩ := h.forth
  refine ⟨⟨q, ?_, hlike⟩, ?_⟩
  · show Edit.replay page (inv :: s.inverses) = .ok q
    rw [Edit.replay, hinv]
    exact hq
  · obtain ⟨page', hpage', hlike''⟩ := Edit.restore_congr hlike'.symm he
    refine ⟨page', ?_, hlike''.symm⟩
    show Edit.replay before (s.edits ++ [e]) = .ok page'
    rw [Edit.replay_append hq', Edit.replay, hpage']
    rfl

theorem single {e inv : Edit} {back : Forest} (he : e.restore before = .ok after)
    (hinv : inv.restore after = .ok back) (hback : Alike back before) :
    (Step.single e inv).Joins before after :=
  add (s := ⟨[], [], none⟩) ⟨⟨before, rfl, .refl before⟩, ⟨before, rfl, .refl before⟩⟩ he hinv hback

end Step.Joins

/-! ## 4. The invariant -/

/-- The steps behind a page: each is joined to its span, and the spans end where the next begins. -/
inductive Past : Forest → List Step → List Span → Prop where
  | nil (here : Forest) : Past here [] []
  | cons {here : Forest} {s : Step} {span : Span} {steps : List Step} {spans : List Span}
      (ends : Alike here span.after) (joins : s.Joins span.before span.after)
      (identified : span.before.Identified) (rest : Past span.before steps spans) :
      Past here (s :: steps) (span :: spans)

/-- The steps ahead of a page: each is joined to its span, and the spans begin where the one before
    ends. -/
inductive Future : Forest → List Step → List Span → Prop where
  | nil (here : Forest) : Future here [] []
  | cons {here : Forest} {s : Step} {span : Span} {steps : List Step} {spans : List Span}
      (begins : Alike here span.before) (joins : s.Joins span.before span.after)
      (identified : span.after.Identified) (rest : Future span.after steps spans) :
      Future here (s :: steps) (span :: spans)

/-- The open batch of a history and the one of a timeline: none at all, or one that is joined to the
    page at its opening and the page now. -/
inductive OpenBatch (page : Forest) : Option Step → Option (Forest × Bool) → Prop where
  | none : OpenBatch page none none
  | some {s : Step} {opening : Forest} {edited : Bool} (joins : s.Joins opening page)
      (identified : opening.Identified) (edits : s.edits.isEmpty = !edited) :
      OpenBatch page (some s) (some (opening, edited))

/-- **The invariant**: a draft is where its timeline says. -/
structure Agrees (limit : Nat) (d : Draft) (t : Timeline) : Prop where
  limit : d.history.limit = limit
  identified : d.page.Identified
  past : Past (t.cursor d.page) d.history.past t.past
  future : Future (t.cursor d.page) d.history.future t.future
  batch : OpenBatch d.page d.history.batch t.opened

variable {here page : Forest} {steps : List Step} {spans : List Span}

theorem Past.congr (h : Past here steps spans) (ha : Alike page here) : Past page steps spans := by
  cases h with
  | nil => exact .nil page
  | cons ends joins identified rest => exact .cons (ha.trans ends) joins identified rest

theorem Future.congr (h : Future here steps spans) (ha : Alike page here) :
    Future page steps spans := by
  cases h with
  | nil => exact .nil page
  | cons begins joins identified rest => exact .cons (ha.trans begins) joins identified rest

theorem Past.length_eq (h : Past here steps spans) : steps.length = spans.length := by
  induction h with
  | nil => rfl
  | cons _ _ _ _ ih => rw [List.length_cons, List.length_cons, ih]

/-- Past the farthest step, nothing changes. -/
theorem Past.dropLast (h : Past here steps spans) : Past here steps.dropLast spans.dropLast := by
  induction h with
  | nil here => exact .nil here
  | @cons here s span steps spans ends joins identified rest ih =>
      cases rest with
      | nil => exact .nil here
      | cons ends' joins' identified' rest' =>
          rw [List.dropLast_cons_cons, List.dropLast_cons_cons]
          exact .cons ends joins identified ih

/-- A new step and its span: the history and the timeline keep as many. -/
theorem Past.push {h : History} {t : Timeline} {s : Step} {span : Span}
    (hpast : Past page (s :: h.past) (span :: t.past)) :
    Past page (h.push s).past (t.record h.limit span).past := by
  have hlen := hpast.length_eq
  simp only [History.push, Timeline.record, hlen]
  by_cases hover : 0 < h.limit ∧ h.limit < (span :: t.past).length
  · rw [if_pos hover, if_pos hover]
    exact hpast.dropLast
  · rw [if_neg hover, if_neg hover]
    exact hpast

namespace Agrees

variable {limit : Nat} {d : Draft} {t : Timeline}

theorem fresh (limit : Nat) {start : Forest} (h : start.Identified) :
    Agrees limit (.fresh limit start) .empty :=
  ⟨rfl, h, .nil start, .nil start, .none⟩

/-- No batch is open, here and there; or one is, and it leads from the page at its opening to the
    page now. -/
theorem batch_cases (h : Agrees limit d t) :
    (d.history.batch = none ∧ t.opened = none) ∨
      ∃ s opening edited, d.history.batch = some s ∧ t.opened = some (opening, edited) ∧
        s.Joins opening d.page ∧ opening.Identified ∧ s.edits.isEmpty = !edited := by
  have hb := h.batch
  generalize d.history.batch = batch at hb
  generalize t.opened = opened at hb
  cases hb with
  | none => exact Or.inl ⟨rfl, rfl⟩
  | some joins identified edits =>
      exact Or.inr ⟨_, _, _, rfl, rfl, joins, identified, edits⟩

theorem opened_eq_none (h : Agrees limit d t) (hbatch : d.history.batch = none) :
    t.opened = none := by
  rcases h.batch_cases with ⟨_, hopened⟩ | ⟨s, _, _, hsome, _⟩
  · exact hopened
  · rw [hbatch] at hsome
    cases hsome

/-- While a batch is open, the cursor is at the page at its opening. -/
theorem cursor_opened {opening : Forest} {edited : Bool}
    (hopened : t.opened = some (opening, edited)) (page : Forest) : t.cursor page = opening := by
  rw [Timeline.cursor, hopened]

/-- Without an open batch it is at the page itself. -/
theorem cursor_eq (hopened : t.opened = none) (page : Forest) : t.cursor page = page := by
  rw [Timeline.cursor, hopened]

/-- A new step in place of what was ahead. -/
theorem push (h : Agrees limit d t) {s : Step} {page : Forest}
    (hpage : page.Identified) (hcursor : (t.cursor d.page).Identified)
    (hjoins : s.Joins (t.cursor d.page) page) :
    Agrees limit ⟨({ d.history with batch := none } : History).push s, page⟩
      ({ t with opened := none }.record limit ⟨t.cursor d.page, page⟩) where
  limit := h.limit
  identified := hpage
  past := by
    have hpast : Past page (s :: d.history.past) (⟨t.cursor d.page, page⟩ :: t.past) :=
      .cons (.refl page) hjoins hcursor h.past
    rw [← h.limit]
    exact Past.push (h := { d.history with batch := none }) (t := { t with opened := none }) hpast
  future := .nil page
  batch := .none

/-- What an edit that was made is: it is made again on the same page, and its inverse takes it
    back. -/
theorem edit_made {h h' : History} {e : Edit} {page page' : Forest} (hpage : page.Identified)
    (hfresh : e.Fresh) (ha : h.apply e page = .ok (h', page')) :
    ∃ inv back, e.restore page = .ok page' ∧ inv.restore page' = .ok back ∧ Alike back page ∧
      page'.Identified ∧ h' = h.note e inv := by
  obtain ⟨inv, hi, hp, hh⟩ := History.apply_eq_ok ha
  have hr := Edit.restore_of_apply hp
  obtain ⟨inv', back, hi', hback, halike⟩ := Edit.restore_inverse hpage hfresh hr
  obtain rfl := Except.ok.inj (hi.symm.trans hi')
  obtain ⟨hcheck, hperform⟩ := (Edit.apply_eq_ok_iff e page page').mp hp
  exact ⟨inv, back, hr, hback, halike, Edit.identified_perform hpage hfresh hcheck hperform, hh⟩

/-! ## 5. Every request keeps it -/

theorem edit (h : Agrees limit d t) {e : Edit} (hfresh : e.Fresh) :
    Agrees limit (d.serve (.edit e)).2
      (t.note limit d.page (d.serve (.edit e)).2.page (.edit e) (d.serve (.edit e)).1) := by
  cases ha : d.history.apply e d.page with
  | error fault =>
      have hs : d.serve (.edit e) = (.failed fault, d) := by simp only [Draft.serve, ha]
      rw [hs]
      exact h
  | ok made =>
      obtain ⟨h', page'⟩ := made
      have hs : d.serve (.edit e) = (.done, ⟨h', page'⟩) := by simp only [Draft.serve, ha]
      obtain ⟨inv, back, he, hinv, hback, hpage', rfl⟩ := edit_made h.identified hfresh ha
      rw [hs]
      rcases h.batch_cases with
        ⟨hbatch, hopened⟩ | ⟨s, opening, edited, hbatch, hopened, joins, identified, _⟩
      · have hcursor := cursor_eq hopened d.page
        have hpush := h.push (s := .single e inv) hpage' (by rw [hcursor]; exact h.identified)
          (by rw [hcursor]; exact .single he hinv hback)
        have hhistory : ({ d.history with batch := none } : History) = d.history := by
          rw [← hbatch]
        have htimeline : ({ t with opened := none } : Timeline) = t := by rw [← hopened]
        rw [hhistory, htimeline, hcursor] at hpush
        simp only [Timeline.note, hopened, History.note, hbatch]
        exact hpush
      · have hpast := h.past
        have hfuture := h.future
        rw [cursor_opened hopened] at hpast hfuture
        simp only [Timeline.note, hopened, History.note, hbatch]
        refine ⟨h.limit, hpage', hpast, hfuture, .some (joins.add he hinv hback) identified ?_⟩
        rw [Step.add, Bool.not_true, List.isEmpty_eq_false_iff]
        exact List.append_ne_nil_of_right_ne_nil _ (List.cons_ne_nil _ _)

theorem openBatch (h : Agrees limit d t) {description : String}
    (hbatch : d.history.batch = none) :
    Agrees limit (d.serve (.openBatch description)).2
      { t with opened := some (d.page, false) } := by
  have hcursor := cursor_eq (h.opened_eq_none hbatch) d.page
  have hpast := h.past
  have hfuture := h.future
  rw [hcursor] at hpast hfuture
  exact ⟨h.limit, h.identified, hpast, hfuture,
    .some (.described description d.page) h.identified rfl⟩

/-- The page may go on as any page like the one at the cursor, when the batch is given up. -/
theorem closed (h : Agrees limit d t) {page : Forest} (hpage : page.Identified)
    (ha : Alike page (t.cursor d.page)) :
    Agrees limit ⟨{ d.history with batch := none }, page⟩ { t with opened := none } :=
  ⟨h.limit, hpage, h.past.congr ha, h.future.congr ha, .none⟩

theorem closeBatch (h : Agrees limit d t) :
    Agrees limit (d.serve .closeBatch).2
      (t.note limit d.page (d.serve .closeBatch).2.page .closeBatch (d.serve .closeBatch).1) := by
  simp only [Draft.serve, History.closeBatch, Timeline.note]
  rcases h.batch_cases with
    ⟨hbatch, hopened⟩ | ⟨s, opening, edited, hbatch, hopened, joins, identified, edits⟩
  · have hlike : Alike d.page (t.cursor d.page) := by
      rw [cursor_eq hopened]
      exact .refl d.page
    have hclosed := h.closed h.identified hlike
    have hhistory : ({ d.history with batch := none } : History) = d.history := by rw [← hbatch]
    rw [hhistory] at hclosed
    simp only [hbatch, hopened]
    exact hclosed
  · have hcursor := cursor_opened hopened d.page
    simp only [hbatch, hopened]
    cases edited with
    | true =>
        have hpush := h.push (s := s) h.identified (hcursor ▸ identified) (hcursor ▸ joins)
        rw [hcursor] at hpush
        rw [Bool.not_true] at edits
        simp only [History.pushUnlessEmpty, edits]
        exact hpush
    | false =>
        -- a batch without edits leads nowhere
        rw [Bool.not_false] at edits
        have hlike : Alike d.page opening := by
          obtain ⟨q, hq, hlike⟩ := joins.forth
          rw [List.isEmpty_iff.mp edits] at hq
          cases hq
          exact hlike.symm
        simp only [History.pushUnlessEmpty, edits, if_true]
        exact h.closed h.identified (hcursor ▸ hlike)

/-- **Giving a batch up never fails**, and leads to a page like the one at its opening. -/
theorem abort_served (h : Agrees limit d t) :
    ∃ page, d.serve .abort = (.done, ⟨{ d.history with batch := none }, page⟩) ∧
      Alike page (t.cursor d.page) ∧ page.Identified := by
  simp only [Draft.serve, History.abort]
  rcases h.batch_cases with
    ⟨hbatch, hopened⟩ | ⟨s, opening, edited, hbatch, hopened, joins, identified, _⟩
  · have hhistory : ({ d.history with batch := none } : History) = d.history := by rw [← hbatch]
    rw [hhistory, cursor_eq hopened]
    refine ⟨d.page, ?_, .refl d.page, h.identified⟩
    simp only [hbatch]
  · obtain ⟨page, hpage, hlike⟩ := joins.back
    refine ⟨page, ?_, ?_, identified.of_alike hlike⟩
    · simp only [hbatch, hpage]
    · rw [cursor_opened hopened]
      exact hlike

/-- **A step back never fails**: there is none, or it leads to a page like the one before it. -/
theorem undo_served (h : Agrees limit d t) (hbatch : d.history.batch = none) :
    (t.past = [] ∧ d.serve .undo = (.moved false, d)) ∨
      ∃ span spans, t.past = span :: spans ∧ (d.serve .undo).1 = .moved true ∧
        Alike (d.serve .undo).2.page span.before ∧ Agrees limit (d.serve .undo).2 t.back := by
  have hopened := h.opened_eq_none hbatch
  have hpast := h.past
  have hfuture := h.future
  rw [cursor_eq hopened] at hpast hfuture
  simp only [Draft.serve, History.undo]
  cases hsteps : d.history.past with
  | nil =>
      rw [hsteps] at hpast
      cases hspans : t.past with
      | nil => exact Or.inl ⟨rfl, rfl⟩
      | cons span spans => rw [hspans] at hpast; cases hpast
  | cons s steps =>
      rw [hsteps] at hpast
      cases hspans : t.past with
      | nil => rw [hspans] at hpast; cases hpast
      | cons span spans =>
          rw [hspans] at hpast
          cases hpast with
          | cons ends joins identified rest =>
              obtain ⟨page, hpage, hlike⟩ := joins.back_of_alike ends
              have hcursor : t.back.cursor page = page := by
                rw [Timeline.back, hspans]
                exact cursor_eq (t := ⟨spans, span :: t.future, t.opened⟩) hopened page
              refine Or.inr ⟨span, spans, rfl, ?_⟩
              simp only [hpage, Draft.stepped]
              refine ⟨trivial, hlike, h.limit, identified.of_alike hlike, ?_, ?_, ?_⟩
              · rw [hcursor, Timeline.back, hspans]
                exact rest.congr hlike
              · rw [hcursor, Timeline.back, hspans]
                exact .cons hlike joins (h.identified.of_alike ends.symm) (hfuture.congr ends.symm)
              · rw [Timeline.back, hspans, hopened]
                rw [hbatch]
                exact .none

/-- **A step forth never fails**: there is none, or it leads to a page like the one after it. -/
theorem redo_served (h : Agrees limit d t) (hbatch : d.history.batch = none) :
    (t.future = [] ∧ d.serve .redo = (.moved false, d)) ∨
      ∃ span spans, t.future = span :: spans ∧ (d.serve .redo).1 = .moved true ∧
        Alike (d.serve .redo).2.page span.after ∧ Agrees limit (d.serve .redo).2 t.forth := by
  have hopened := h.opened_eq_none hbatch
  have hpast := h.past
  have hfuture := h.future
  rw [cursor_eq hopened] at hpast hfuture
  simp only [Draft.serve, History.redo]
  cases hsteps : d.history.future with
  | nil =>
      rw [hsteps] at hfuture
      cases hspans : t.future with
      | nil => exact Or.inl ⟨rfl, rfl⟩
      | cons span spans => rw [hspans] at hfuture; cases hfuture
  | cons s steps =>
      rw [hsteps] at hfuture
      cases hspans : t.future with
      | nil => rw [hspans] at hfuture; cases hfuture
      | cons span spans =>
          rw [hspans] at hfuture
          cases hfuture with
          | cons begins joins identified rest =>
              obtain ⟨page, hpage, hlike⟩ := joins.forth_of_alike begins
              have hcursor : t.forth.cursor page = page := by
                rw [Timeline.forth, hspans]
                exact cursor_eq (t := ⟨span :: t.past, spans, t.opened⟩) hopened page
              refine Or.inr ⟨span, spans, rfl, ?_⟩
              simp only [hpage, Draft.stepped]
              refine ⟨trivial, hlike, h.limit, identified.of_alike hlike, ?_, ?_, ?_⟩
              · rw [hcursor, Timeline.forth, hspans]
                exact .cons hlike joins (h.identified.of_alike begins.symm)
                  (hpast.congr begins.symm)
              · rw [hcursor, Timeline.forth, hspans]
                exact rest.congr hlike
              · rw [Timeline.forth, hspans, hopened]
                rw [hbatch]
                exact .none

/-- **Every allowed request keeps the draft where its timeline says.** -/
theorem serve (h : Agrees limit d t) (r : Request) (allowed : r.Allowed d) :
    Agrees limit (d.serve r).2
      (t.note limit d.page (d.serve r).2.page r (d.serve r).1) := by
  cases r with
  | edit e => exact h.edit allowed
  | openBatch description => exact h.openBatch allowed
  | closeBatch => exact h.closeBatch
  | abort =>
      obtain ⟨page, hs, hlike, hpage⟩ := h.abort_served
      rw [hs]
      exact h.closed hpage hlike
  | undo =>
      rcases h.undo_served allowed with ⟨_, hs⟩ | ⟨span, spans, _, hs, _, hagrees⟩
      · rw [hs]
        exact h
      · rw [hs]
        exact hagrees
  | redo =>
      rcases h.redo_served allowed with ⟨_, hs⟩ | ⟨span, spans, _, hs, _, hagrees⟩
      · rw [hs]
        exact h
      · rw [hs]
        exact hagrees

/-- **Along every run the draft is where its timeline says.** -/
theorem of_run {start : Forest} (hstart : start.Identified) (hrun : Run limit start d t) :
    Agrees limit d t := by
  induction hrun with
  | start => exact .fresh limit hstart
  | serve r _ allowed ih => exact ih.serve r allowed

end Agrees

/-! ## 6. What a run may rely on -/

/-- Spans behind a page, each ending where the one before it in the list begins. -/
def Behind : Forest → List Span → Prop
  | _, [] => True
  | here, span :: spans => Alike here span.after ∧ Behind span.before spans

/-- Spans ahead of a page, each beginning where the one before it in the list ends. -/
def Ahead : Forest → List Span → Prop
  | _, [] => True
  | here, span :: spans => Alike here span.before ∧ Ahead span.after spans

theorem Past.behind (h : Past here steps spans) : Behind here spans := by
  induction h with
  | nil here => trivial
  | cons ends _ _ _ ih => exact ⟨ends, ih⟩

theorem Future.ahead (h : Future here steps spans) : Ahead here spans := by
  induction h with
  | nil here => trivial
  | cons begins _ _ _ ih => exact ⟨begins, ih⟩

/-- What an edit that is made leaves ahead: nothing, unless it joins a batch. -/
theorem Draft.future_edit {d : Draft} {e : Edit} (h : (d.serve (.edit e)).1 = .done) :
    (d.history.batch = none → (d.serve (.edit e)).2.history.future = []) ∧
      (d.history.batch ≠ none → (d.serve (.edit e)).2.history.future = d.history.future) := by
  simp only [serve] at h ⊢
  cases ha : d.history.apply e d.page with
  | error fault => rw [ha] at h; cases h
  | ok made =>
      obtain ⟨h', page'⟩ := made
      obtain ⟨inv, _, _, rfl⟩ := History.apply_eq_ok ha
      simp only [History.note]
      cases hb : d.history.batch with
      | none => exact ⟨fun _ => rfl, fun hne => absurd rfl hne⟩
      | some s => exact ⟨fun hno => absurd hno (Option.some_ne_none s), fun _ => rfl⟩

/-- **The history is a line with a cursor.** Wherever allowed requests lead from a page with
    distinct ids:

    * the spans behind the cursor and ahead of it follow one another;
    * `undo` finds nothing only where nothing is behind, and otherwise brings the page back to where
      the nearest span begins; `redo` likewise, to where the nearest span ahead ends;
    * `abort` is always done, brings the page back to what it was at the opening of the batch, and
      keeps what is ahead;
    * an edit that is made outside a batch, and the closing of a batch with edits, leave nothing
      ahead; an edit within a batch does not touch it. -/
theorem serve_of_run {limit : Nat} {start : Forest} (hstart : start.Identified) {d : Draft}
    {t : Timeline} (hrun : Run limit start d t) :
    (Behind (t.cursor d.page) t.past ∧ Ahead (t.cursor d.page) t.future) ∧
    (d.history.batch = none →
      ((t.past = [] ∧ d.serve .undo = (.moved false, d)) ∨
        ∃ span spans, t.past = span :: spans ∧ (d.serve .undo).1 = .moved true ∧
          Alike (d.serve .undo).2.page span.before) ∧
      ((t.future = [] ∧ d.serve .redo = (.moved false, d)) ∨
        ∃ span spans, t.future = span :: spans ∧ (d.serve .redo).1 = .moved true ∧
          Alike (d.serve .redo).2.page span.after)) ∧
    ((d.serve .abort).1 = .done ∧ Alike (d.serve .abort).2.page (t.cursor d.page) ∧
      (d.serve .abort).2.history.future = d.history.future) ∧
    (∀ e, (d.serve (.edit e)).1 = .done →
      (d.history.batch = none → (d.serve (.edit e)).2.history.future = []) ∧
      (d.history.batch ≠ none → (d.serve (.edit e)).2.history.future = d.history.future)) ∧
    (∀ opening, t.opened = some (opening, true) →
      (d.serve .closeBatch).2.history.future = []) := by
  have h := Agrees.of_run hstart hrun
  refine ⟨⟨h.past.behind, h.future.ahead⟩, fun hbatch => ⟨?_, ?_⟩, ?_, fun e => Draft.future_edit,
    ?_⟩
  · exact (h.undo_served hbatch).imp_right fun ⟨span, spans, hpast, hs, hlike, _⟩ =>
      ⟨span, spans, hpast, hs, hlike⟩
  · exact (h.redo_served hbatch).imp_right fun ⟨span, spans, hfuture, hs, hlike, _⟩ =>
      ⟨span, spans, hfuture, hs, hlike⟩
  · obtain ⟨page, hs, hlike, _⟩ := h.abort_served
    rw [hs]
    exact ⟨rfl, hlike, rfl⟩
  · intro opening hopened
    rcases h.batch_cases with ⟨_, hnone⟩ | ⟨s, _, edited, hbatch, hsome, _, _, edits⟩
    · rw [hopened] at hnone
      cases hnone
    · rw [hopened] at hsome
      cases hsome
      rw [Bool.not_true] at edits
      simp only [Draft.serve, History.closeBatch, hbatch, History.pushUnlessEmpty, edits]
      rfl

/-- A page of one heading, and a change of its class. -/
def heading : Forest := [⟨{ Label.ofTag "h1" with id := some "title" }, none⟩]

/-- The change. -/
def colour (name : String) : Edit := .setAttribute "title" "class" (some (.str name))

theorem heading_identified : heading.Identified where
  named l hl := by
    rw [heading, labels_cons, Node.children_mk, Option.getD_none, labels_nil, List.append_nil,
      List.mem_singleton] at hl
    rw [hl]
    decide
  distinct := by decide

/-- After a change of the heading, `undo` brings the heading back. -/
theorem undo_heading :
    heading.Identified ∧ Alike
      (((Draft.fresh 100 heading).serve (.edit (colour "red"))).2.serve .undo).2.page heading := by
  have hrun : Run 100 heading ((Draft.fresh 100 heading).serve (.edit (colour "red"))).2 _ :=
    .serve (.edit (colour "red")) .start trivial
  refine ⟨heading_identified, ?_⟩
  have h := (serve_of_run heading_identified hrun).2.1 rfl
  rcases h.1 with ⟨hnone, _⟩ | ⟨span, spans, hspan, _, hlike⟩
  · exact absurd hnone (List.cons_ne_nil _ _)
  · obtain ⟨rfl, _⟩ := List.cons.inj hspan
    exact hlike

/-- **An edit within a batch keeps what can be made again**, and giving the batch up leaves it: not
    every edit that is made discards what is ahead. -/
theorem redo_after_batched_edit :
    ¬ ∀ (limit : Nat) (start : Forest) (d : Draft) (t : Timeline) (e : Edit),
      start.Identified → Run limit start d t → e.Fresh → (d.serve (.edit e)).1 = .done →
      (d.serve (.edit e)).2.history.canRedo = false := by
  intro h
  have hrun : Run 100 heading _ _ :=
    .serve (.openBatch "colours") (.serve .undo (.serve (.edit (colour "red")) .start trivial) rfl)
      rfl
  have hno := h 100 heading _ _ (colour "blue") heading_identified hrun trivial rfl
  cases hno

end Pagewright
