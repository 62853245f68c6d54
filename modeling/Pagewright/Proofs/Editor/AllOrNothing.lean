import Pagewright.Proofs.Editor.Failure
import Pagewright.Proofs.Editor.Reversal

/-!
# All tags or none

Several tags are removed in one batch, in turn. Where one of them is not there, the batch is given
up, which puts back those that are gone already.

* `Removal` -- **the invariant** of the removals: the batch holds them and leads from the page as it
  was to the page as it is; if ids were distinct, it leads back as well, and the tags are gone.
  `Removal.add` keeps it for one more tag;
* `Session.removeEach_cases` -- the removals in turn: all of them, or those before one that fails,
  and the invariant in both cases; `Session.removeTags_run` says what a call comes to then;
* `Session.removeTags_cases` -- **all tags are removed in one step; or the call fails, and on a page
  with distinct ids nothing is changed**.

Where an id is on the page twice, this is not so: a tag that is gone cannot be put back while the
other one with its id is there (`Session.removeTags_x_missing`).
-/

namespace Pagewright

open Forest

/-! ## 1. The invariant -/

/-- Tags were removed from a page, and the step holds their removals. If the ids of the page were
    distinct, its inverses take the page back to what it was, and the tags are gone. -/
structure Removal (origin : Forest) (gone : List String) (step : Step) (page : Forest) : Prop where
  edits : step.edits = gone.map Edit.remove
  forth : Edit.replay origin step.edits = .ok page
  back : (ids origin).Nodup → Edit.replay page step.inverses = .ok origin
  distinct : (ids origin).Nodup → (ids page).Nodup
  absent : (ids origin).Nodup → ∀ id ∈ gone, id ∉ ids page

namespace Removal

variable {origin page page' : Forest} {gone : List String} {step : Step} {id : String} {inv : Edit}

theorem none (origin : Forest) (description : String) :
    Removal origin [] (.described description) origin where
  edits := rfl
  forth := rfl
  back _ := rfl
  distinct hd := hd
  absent _ _ h := by cases h

/-- **One more tag.** -/
theorem add (h : Removal origin gone step page) (hinv : (Edit.remove id).inverse page = .ok inv)
    (happly : (Edit.remove id).apply page = .ok page') :
    Removal origin (gone ++ [id]) (step.add (.remove id) inv) page' := by
  have hmade := Edit.restore_of_apply happly
  have hrestored := fun hd => Edit.restore_of_remove (h.distinct hd) hinv hmade
  refine ⟨?_, ?_, fun hd => ?_, fun hd => (hrestored hd).2.1, fun hd other hother => ?_⟩
  · rw [Step.add, h.edits, List.map_append, List.map_singleton]
  · show Edit.replay origin (step.edits ++ [Edit.remove id]) = .ok page'
    rw [Edit.replay_append h.forth, Edit.replay, hmade]
    rfl
  · show Edit.replay page' (inv :: step.inverses) = .ok origin
    rw [Edit.replay, (hrestored hd).1]
    exact h.back hd
  · obtain ⟨_, _, hid, hfewer⟩ := hrestored hd
    rcases List.mem_append.mp hother with hgone | hlast
    · exact fun hmem => h.absent hd other hgone (hfewer other hmem)
    · rw [List.mem_singleton.mp hlast]
      exact hid

end Removal

/-! ## 2. The removals in turn -/

/-- Without an open batch there is nothing to close. -/
theorem History.eq_of_batch_eq_none {h : History} (hb : h.batch = none) :
    { h with batch := none } = h := by
  cases h
  cases hb
  rfl

namespace Session

variable {σ : Type}

/-- The session with this page, and this step as the open batch. -/
def within (s : Session σ) (step : Step) (page : Forest) : Session σ :=
  { s with page := page, history := { s.history with batch := some step } }

theorem removeEach_cases (s : Session σ) {origin : Forest} (ids : List String) :
    ∀ {gone : List String} {step : Step} {page : Forest}, Removal origin gone step page →
      (∃ step' page', Removal origin (gone ++ ids) step' page' ∧
        (s.within step page).removeEach ids = (.ok (), s.within step' page')) ∨
      ∃ earlier id later e step' page', ids = earlier ++ id :: later ∧
        Removal origin (gone ++ earlier) step' page' ∧
        (s.within step' page').make (.remove id) = (.error e, s.within step' page') ∧
        (s.within step page).removeEach ids = (.error e, s.within step' page') := by
  induction ids with
  | nil =>
      intro gone step page h
      rw [List.append_nil]
      exact Or.inl ⟨step, page, h, rfl⟩
  | cons id ids ih =>
      intro gone step page h
      rw [removeEach]
      rcases (s.within step page).make_cases (.remove id) with
        ⟨fault, hm⟩ | ⟨history, page', ha, hm⟩
      · rw [hm]
        refine Or.inr ⟨[], id, ids, .edit fault, step, page, rfl, ?_, hm, rfl⟩
        rw [List.append_nil]
        exact h
      · obtain ⟨inv, hinv, happly, rfl⟩ := History.apply_eq_ok ha
        rw [hm]
        rcases ih (h.add hinv happly) with
          ⟨step', after, hall, heach⟩ | ⟨earlier, other, later, e, step', after, rfl, hall, hfails⟩
        · rw [List.append_assoc, List.singleton_append] at hall
          exact Or.inl ⟨step', after, hall, heach⟩
        · rw [List.append_assoc, List.singleton_append] at hall
          exact Or.inr ⟨id :: earlier, other, later, e, step', after, rfl, hall, hfails⟩

/-- To give the removals up is, on a page with distinct ids, to have done nothing. -/
theorem giveUp_within {s : Session σ} (hb : s.history.batch = none) {gone : List String}
    {step : Step} {page : Forest} (h : Removal s.page gone step page)
    (hd : (Forest.ids s.page).Nodup) (reason : SessionError) :
    (s.within step page).giveUp reason = (.error reason, s) := by
  have hclosed := History.eq_of_batch_eq_none hb
  have hback := h.back hd
  have habort : (s.within step page).history.abort (s.within step page).page =
      (s.history, .ok s.page) := by
    simp only [History.abort, within, hback, hclosed]
  simp only [giveUp, habort]
  rfl

/-- To give up is to fail, also where nothing can be put back. -/
theorem error_giveUp (s : Session σ) (reason : SessionError) :
    ∃ e, (s.giveUp reason).1 = .error e := by
  rw [giveUp]
  split
  · exact ⟨_, rfl⟩
  · exact ⟨_, rfl⟩

/-- To close the batch of the removals is to record their step. -/
theorem closeBatch_within {s : Session σ} (hb : s.history.batch = none) (step : Step)
    (page : Forest) :
    (s.within step page).history.closeBatch = s.history.pushUnlessEmpty step := by
  simp only [within, History.closeBatch, History.eq_of_batch_eq_none hb]

/-- **All tags are removed in one step; or the removal of one of them fails**, and those before it are
    given up. -/
theorem removeTags_run {s : Session σ} (hb : s.history.batch = none) (ids : List String) :
    (∃ step page, Removal s.page ids step page ∧ s.removeTags ids = (.ok (),
        ({ s with page := page, history := s.history.pushUnlessEmpty step } :
          Session σ).syncSelection)) ∨
      ∃ earlier id later e step page, ids = earlier ++ id :: later ∧
        Removal s.page earlier step page ∧
        (s.within step page).make (.remove id) = (.error e, s.within step page) ∧
        s.removeTags ids = (s.within step page).giveUp e := by
  have hopened := Removal.none s.page ("remove " ++ Nat.repr ids.length ++ " tags")
  rcases s.removeEach_cases ids hopened with
    ⟨step, page, h, heach⟩ | ⟨earlier, id, later, e, step, page, hids, h, hm, heach⟩
  · refine Or.inl ⟨step, page, h, ?_⟩
    have hremoved : ({ s with history := s.history.openBatch _ } : Session σ).removeEach ids =
        (.ok (), s.within step page) := heach
    simp only [removeTags, hremoved, closeBatch_within hb]
    rfl
  · refine Or.inr ⟨earlier, id, later, e, step, page, hids, h, hm, ?_⟩
    have hfailed : ({ s with history := s.history.openBatch _ } : Session σ).removeEach ids =
        (.error e, s.within step page) := heach
    simp only [removeTags, hfailed]

/-- **All tags are removed in one step; or the call fails, and on a page with distinct ids nothing
    is changed.** -/
theorem removeTags_cases {s : Session σ} (hb : s.history.batch = none) (ids : List String) :
    (∃ e, (s.removeTags ids).1 = .error e ∧
        ((Forest.ids s.page).Nodup → (s.removeTags ids).2 = s)) ∨
      ∃ step page, Removal s.page ids step page ∧ s.removeTags ids = (.ok (),
        ({ s with page := page, history := s.history.pushUnlessEmpty step } :
          Session σ).syncSelection) := by
  rcases removeTags_run hb ids with hdone | ⟨_, _, _, e, step, page, _, h, _, hgiven⟩
  · exact Or.inr hdone
  · obtain ⟨fault, hfault⟩ := (s.within step page).error_giveUp e
    rw [hgiven]
    refine Or.inl ⟨fault, hfault, fun hd => ?_⟩
    rw [giveUp_within hb h hd]

/-- To remove no tags is to record nothing. -/
theorem removeTags_nil {s : Session σ} (hb : s.history.batch = none) :
    s.removeTags [] = (.ok (), s.syncSelection) := by
  have hclosed : (s.history.openBatch ("remove " ++ Nat.repr 0 ++ " tags")).closeBatch =
      s.history := closeBatch_within hb _ s.page
  simp only [removeTags, removeEach, List.length_nil, hclosed]

/-! ## 3. Sessions that operations lead to -/

/-- **All tags or none.** Wherever operations lead from a page, the removal of several tags

    * leaves everything as it was where it fails, if the page has no id twice;
    * where it is done on an empty list, has changed and recorded nothing;
    * where it is done on any other list, has recorded one step, which holds a removal for each tag
      of the list in turn and leads from the page before to the page after; if the page had no id
      twice, the step leads back as well;
    * where it is done on a page that had no id twice, has left none of the tags on it. -/
theorem removeTags_all_or_none [IdSource σ] (page : Forest) (options : EditorOptions) (source : σ)
    (ops : List Operation) :
    ∀ s ∈ (ofPage page options source).trail ops, ∀ ids : List String,
      ((Forest.ids s.page).Nodup →
        ∀ e, (s.removeTags ids).1 = .error e → (s.removeTags ids).2 = s) ∧
      ((s.removeTags ids).1 = .ok () →
        (ids = [] → (s.removeTags ids).2.page = s.page ∧
          (s.removeTags ids).2.history = s.history) ∧
        (ids ≠ [] → ∃ step : Step, step.edits = ids.map Edit.remove ∧
          Edit.replay s.page step.edits = .ok (s.removeTags ids).2.page ∧
          ((Forest.ids s.page).Nodup →
            Edit.replay (s.removeTags ids).2.page step.inverses = .ok s.page) ∧
          (s.removeTags ids).2.history = s.history.push step) ∧
        ((Forest.ids s.page).Nodup →
          ∀ id ∈ ids, id ∉ Forest.ids (s.removeTags ids).2.page)) := by
  intro s hs ids
  have hb := batch_trail (s := ofPage page options source) rfl ops s hs
  rcases removeTags_cases hb ids with ⟨e, hfails, hsame⟩ | ⟨step, after, hremoval, h⟩
  · refine ⟨fun hd _ _ => hsame hd, fun hok => ?_⟩
    rw [hfails] at hok
    cases hok
  · have hpage : (s.removeTags ids).2.page = after := by
      rw [h]
      exact page_syncSelection _
    have hhistory : (s.removeTags ids).2.history = s.history.pushUnlessEmpty step := by
      rw [h]
      exact history_syncSelection _
    refine ⟨fun _ e he => ?_, fun _ => ⟨?_, fun hne => ?_, fun hd => ?_⟩⟩
    · rw [h] at he
      cases he
    · rintro rfl
      rw [removeTags_nil hb]
      exact ⟨s.page_syncSelection, s.history_syncSelection⟩
    · have hedits : ¬ step.edits.isEmpty = true := by
        rw [hremoval.edits, List.isEmpty_map, List.isEmpty_iff]
        exact hne
      rw [hpage, hhistory, History.pushUnlessEmpty, if_neg hedits]
      exact ⟨step, hremoval.edits, hremoval.forth, hremoval.back, rfl⟩
    · rw [hpage]
      exact hremoval.absent hd

/-- A page with two tags, one below the other. -/
def nested : Forest :=
  [⟨{ Label.ofTag "div" with id := some "box" },
    some [⟨{ Label.ofTag "p" with id := some "note" }, none⟩]⟩]

/-- Once the outer tag is gone, the inner one is missing. -/
theorem removeTags_box_note (options : EditorOptions) :
    ((ofPage nested options Numbering.fresh).removeTags ["box", "note"]).1 =
      .error (.edit (.tagNotFound "note")) := rfl

/-- To remove a tag and then one below it fails, and leaves both. -/
theorem removeTags_nested :
    let s := ofPage nested .standard Numbering.fresh
    s ∈ s.trail [] ∧ (Forest.ids s.page).Nodup ∧
      (s.removeTags ["box", "note"]).1 = .error (.edit (.tagNotFound "note")) ∧
      (s.removeTags ["box", "note"]).2 = s := by
  intro s
  have hmem : s ∈ s.trail [] := List.mem_singleton_self s
  have hd : (Forest.ids s.page).Nodup := by decide
  have hfails := removeTags_box_note .standard
  exact ⟨hmem, hd, hfails,
    (removeTags_all_or_none nested .standard Numbering.fresh [] s hmem _).1 hd _ hfails⟩

/-- Of two paragraphs with one id, the first is removed and cannot be put back, because its id is on
    the page still. -/
theorem removeTags_x_missing (options : EditorOptions) :
    ((ofPage twins options Numbering.fresh).removeTags ["x", "missing"]).1 =
        .error (.edit (.duplicateId "x")) ∧
      ((ofPage twins options Numbering.fresh).removeTags ["x", "missing"]).2.page.length = 1 :=
  ⟨rfl, rfl⟩

/-- **Where an id is on the page twice, a removal that fails may have removed a tag.** -/
theorem removeTags_twins :
    ¬ ∀ (page : Forest) (options : EditorOptions) (source : Numbering) (ops : List Operation),
      ∀ s ∈ (ofPage page options source).trail ops, ∀ ids e,
        (s.removeTags ids).1 = .error e →
          (s.removeTags ids).2.page = s.page ∧ (s.removeTags ids).2.history = s.history := by
  intro h
  have hmem : ofPage twins .standard Numbering.fresh ∈
      (ofPage twins .standard Numbering.fresh).trail [] := List.mem_singleton_self _
  obtain ⟨hfails, hone⟩ := removeTags_x_missing .standard
  have hpage := (h twins .standard .fresh [] _ hmem ["x", "missing"] _ hfails).1
  rw [hpage] at hone
  have htwo : (ofPage twins .standard Numbering.fresh).page.length = 2 := rfl
  rw [htwo] at hone
  cases hone

end Session

end Pagewright
