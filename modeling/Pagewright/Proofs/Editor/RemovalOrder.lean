import Pagewright.Proofs.Editor.AllOrNothing
import Pagewright.Proofs.Editor.Checking
import Pagewright.Proofs.Page.Pruning

/-!
# The order in which tags are removed

Several tags are removed in turn, and each takes with it all that lies below it. So a tag that is
removed after one above it is missing when its turn comes, and all are kept. This file says that the
order counts for nothing else.

* `Edit.replay_removals` -- a run of removals leaves the page without the tags, and passes only in
  an order in which no tag comes after one above it;
* `Session.make_remove_error` -- a removal fails only where the tag is missing;
* `Session.removeTags_order` -- **the orders that pass, and the page that each of them leaves**.
-/

namespace Pagewright

open Forest

/-! ## 1. Removals on a page -/

namespace Forest

variable {ns rest : Forest} {id : String} {t : Node}

theorem eq_prune_of_detach (hd : (ids ns).Nodup) (h : ns.detach id = .ok (t, rest)) :
    id ∈ ids ns ∧ rest = prune [id] ns := by
  obtain ⟨p, hp, ht⟩ := exists_of_detach h
  obtain ⟨n, hn, hident⟩ := nodeAt_of_pathOf hp
  obtain rfl := Option.some.inj (hn.symm.trans (nodeAt_of_takeAt ht))
  exact ⟨mem_ids_of_nodeAt hn hident, eq_prune_of_takeAt hd ht hident⟩

theorem nodup_ids_prune (hd : (ids ns).Nodup) (gone : List String) :
    (ids (prune gone ns)).Nodup :=
  ((labels_prune_sublist gone ns).filterMap _).nodup hd

theorem Identified.prune (h : ns.Identified) (gone : List String) :
    Identified (prune gone ns) where
  named l hl := h.named l ((labels_prune_sublist gone ns).subset hl)
  distinct := nodup_ids_prune h.distinct gone

end Forest

namespace Edit

/-- **A run of removals**, after others: it leaves the page without the tags, and none of them comes
    after one above it. -/
theorem replay_removals {origin : Forest} (hd : (ids origin).Nodup) (later : List String) :
    ∀ {gone : List String} {page : Forest},
      replay (prune gone origin) (later.map remove) = .ok page →
        page = prune (gone ++ later) origin ∧
        (∀ b ∈ later, ∀ a ∈ gone, origin.Outside b a) ∧
        later.Pairwise fun a b => origin.Outside b a := by
  induction later with
  | nil =>
      intro gone page h
      cases h
      rw [List.append_nil]
      exact ⟨rfl, fun b hb => absurd hb List.not_mem_nil, .nil⟩
  | cons id later ih =>
      intro gone page h
      rw [List.map_cons, replay] at h
      cases hmade : (remove id).restore (prune gone origin) with
      | error fault => rw [hmade] at h; cases h
      | ok between =>
          rw [hmade] at h
          obtain ⟨t, hdetach⟩ := perform_remove ((restore_eq_ok_iff _ _ _).mp hmade).2
          obtain ⟨hthere, rfl⟩ := eq_prune_of_detach (nodup_ids_prune hd gone) hdetach
          have hfirst := ((mem_ids_prune hd).mp hthere).2
          rw [prune_prune] at h
          obtain ⟨hpage, hlater, hpairs⟩ := ih h
          rw [List.append_assoc, List.singleton_append] at hpage
          refine ⟨hpage, List.forall_mem_cons.mpr ⟨hfirst, fun b hb a ha => ?_⟩,
            List.pairwise_cons.mpr ⟨fun b hb => ?_, hpairs⟩⟩
          · exact hlater b hb a (List.mem_append_left _ ha)
          · exact hlater b hb id (List.mem_append_right _ (List.mem_singleton_self id))

end Edit

/-- **What is left once tags are removed** is the page without them, and none of them came after one
    above it. -/
theorem Removal.eq_prune {origin page : Forest} {gone : List String} {step : Step}
    (h : Removal origin gone step page) (hd : (ids origin).Nodup) :
    page = prune gone origin ∧ gone.Pairwise fun a b => origin.Outside b a := by
  have hself : prune [] origin = origin := prune_eq_self fun id hid => absurd hid List.not_mem_nil
  have hforth := h.forth
  rw [h.edits, ← hself] at hforth
  obtain ⟨hpage, _, hpairs⟩ := Edit.replay_removals hd gone hforth
  exact ⟨hpage, hpairs⟩

/-! ## 2. Removals in a session -/

namespace Session

variable {σ : Type} {s : Session σ} {id : String}

/-- **A removal fails only where the tag is missing**, on a page whose nodes all have ids. -/
theorem make_remove_error {s' : Session σ} {e : SessionError} (hs : s.page.Identified)
    (h : s.make (.remove id) = (.error e, s')) :
    id ∉ Forest.ids s.page ∧ e = .edit (.tagNotFound id) := by
  cases hf : s.page.find id with
  | none =>
      have hcheck : (Edit.remove id).check s.page true = .error (.tagNotFound id) := by
        simp only [Edit.check, Edit.target, hf]
        rfl
      rw [make_of_check_error hcheck] at h
      cases h
      exact ⟨(find_eq_none_iff s.page id).mp hf, rfl⟩
  | some found =>
      -- the check passes, and there is an inverse: the edit is made
      exfalso
      obtain ⟨parent, hparent⟩ := exists_parentId hs hf
      have htarget : Edit.target s.page id = .ok found := by simp only [Edit.target, hf]
      have hcheck : (Edit.remove id).check s.page true = .ok () := by
        simp only [Edit.check, htarget]
        rfl
      have hinverse : (Edit.remove id).inverse s.page =
          .ok (.insert parent found.position found.node) := by
        simp only [Edit.inverse, htarget, hparent, bind, Except.bind]
      obtain ⟨page', hdone, _⟩ := Edit.exists_carryOut hcheck
      have hmade : (Edit.remove id).applyTo s.page = (.ok (), page') := by
        rw [Edit.applyTo_eq_checked, Edit.checked, hcheck]
        exact hdone
      simp only [make, History.applyTo, Edit.validate, hcheck, hinverse, hmade] at h
      cases hb : s.history.batch with
      | none => simp only [hb] at h; cases h
      | some step => simp only [hb] at h; cases h

/-- An open batch counts for nothing: the removals open their own. -/
theorem removeTags_unbatched (s : Session σ) (ids : List String) :
    s.removeTags ids =
      ({ s with history := { s.history with batch := none } } : Session σ).removeTags ids := rfl

/-- **The removal of several tags**, all of which are on the page: it passes where no tag comes after
    one above it, and leaves the page without them; or it stops at the first that does, and leaves
    the page as it is. -/
theorem removeTags_dichotomy (hs : s.page.Identified) {order : List String}
    (hthere : ∀ id ∈ order, id ∈ Forest.ids s.page) :
    ((order.Pairwise fun a b => s.page.Outside b a) ∧ (s.removeTags order).1 = .ok () ∧
        (s.removeTags order).2.page = prune order s.page) ∨
      ∃ earlier id later, order = earlier ++ id :: later ∧ (∃ a ∈ earlier, ¬ s.page.Outside id a) ∧
        (s.removeTags order).1 = .error (.edit (.tagNotFound id)) ∧
        (s.removeTags order).2.page = s.page := by
  rw [removeTags_unbatched]
  generalize hfree : ({ s with history := { s.history with batch := none } } : Session σ) = free
  have hb : free.history.batch = none := by rw [← hfree]
  have hpage : free.page = s.page := by rw [← hfree]
  rw [← hpage] at hs hthere ⊢
  rcases removeTags_run hb order with
    ⟨step, page, hremoval, hdone⟩ | ⟨earlier, id, later, e, step, page, rfl, hremoval, hm, hgiven⟩
  · obtain ⟨rfl, hpairs⟩ := hremoval.eq_prune hs.distinct
    rw [hdone]
    exact Or.inl ⟨hpairs, rfl, page_syncSelection _⟩
  · obtain ⟨rfl, _⟩ := hremoval.eq_prune hs.distinct
    obtain ⟨hmissing, rfl⟩ := make_remove_error (s := free.within step (prune earlier free.page))
      (hs.prune earlier) hm
    rw [hgiven, giveUp_within hb hremoval hs.distinct]
    refine Or.inr ⟨earlier, id, later, rfl, ?_, rfl, rfl⟩
    -- it was on the page at first, so one of the tags before it took it away
    by_contra hno
    refine hmissing ((mem_ids_prune hs.distinct).mpr ⟨hthere id (by simp), fun a ha => ?_⟩)
    by_contra hwithin
    exact hno ⟨a, ha, hwithin⟩

/-- **The order in which tags are removed.** On a page whose nodes all have ids, all different, a
    list of tags that are all on the page is removed in any order of the list:

    * this passes exactly where no tag comes after one above it;
    * in every order that passes it leaves the same page, the one without the tags and all that lies
      below them;
    * in any other it stops at a tag that comes after one above it, which is reported as missing, and
      leaves the page as it is;
    * where none of the tags is below another, it passes in every order. -/
theorem removeTags_order (s : Session σ) (hs : s.page.Identified) (ids : List String)
    (hd : ids.Nodup) (hthere : ∀ id ∈ ids, id ∈ Forest.ids s.page) :
    ∀ order, order.Perm ids →
      ((s.removeTags order).1 = .ok () ↔ order.Pairwise fun a b => s.page.Outside b a) ∧
      ((s.removeTags order).1 = .ok () → (s.removeTags order).2.page = prune ids s.page) ∧
      ((s.removeTags order).1 ≠ .ok () → ∃ earlier id later, order = earlier ++ id :: later ∧
        (∃ a ∈ earlier, ¬ s.page.Outside id a) ∧
        (s.removeTags order).1 = .error (.edit (.tagNotFound id)) ∧
        (s.removeTags order).2.page = s.page) ∧
      ((∀ a ∈ ids, ∀ b ∈ ids, a ≠ b → s.page.Outside b a) → (s.removeTags order).1 = .ok ()) := by
  intro order horder
  have hon : ∀ id ∈ order, id ∈ Forest.ids s.page := fun id hid =>
    hthere id (horder.mem_iff.mp hid)
  have hsame : prune order s.page = prune ids s.page :=
    prune_congr (fun id => horder.mem_iff) s.page
  have happly : (∀ a ∈ ids, ∀ b ∈ ids, a ≠ b → s.page.Outside b a) →
      order.Pairwise fun a b => s.page.Outside b a := fun hapart =>
    (horder.nodup_iff.mpr hd).pairwise_of_forall_ne fun a ha b hb hne =>
      hapart a (horder.mem_iff.mp ha) b (horder.mem_iff.mp hb) hne
  rcases removeTags_dichotomy hs hon with
    ⟨hpairs, hdone, hpage⟩ | ⟨earlier, id, later, rfl, hwithin, hfails, hpage⟩
  · exact ⟨iff_of_true hdone hpairs, fun _ => hpage.trans hsame, fun hno => absurd hdone hno,
      fun _ => hdone⟩
  · have hno : (s.removeTags (earlier ++ id :: later)).1 ≠ .ok () := by
      rw [hfails]
      exact fun e => by cases e
    have hpairs : ¬ (earlier ++ id :: later).Pairwise fun a b => s.page.Outside b a := by
      obtain ⟨a, ha, hin⟩ := hwithin
      exact fun h => hin ((List.pairwise_append.mp h).2.2 a ha id List.mem_cons_self)
    exact ⟨iff_of_false hno hpairs, fun h => absurd h hno,
      fun _ => ⟨earlier, id, later, rfl, hwithin, hfails, hpage⟩,
      fun hapart => absurd (happly hapart) hpairs⟩

/-- The inner tag first, both are removed; the outer one first, both are kept. -/
theorem removeTags_order_nested :
    let s := ofPage nested .standard Numbering.fresh
    s.page.Identified ∧ (∀ id ∈ ["box", "note"], id ∈ Forest.ids s.page) ∧
      (s.removeTags ["note", "box"]).1 = .ok () ∧ (s.removeTags ["note", "box"]).2.page = [] ∧
      (s.removeTags ["box", "note"]).1 ≠ .ok () ∧ (s.removeTags ["box", "note"]).2.page = s.page := by
  intro s
  have hs : s.page.Identified := by decide
  have hd : ["box", "note"].Nodup := by decide
  have hthere : ∀ id ∈ ["box", "note"], id ∈ Forest.ids s.page := by decide
  have hinner : (s.removeTags ["note", "box"]).1 = .ok () := rfl
  have houter : (s.removeTags ["box", "note"]).1 ≠ .ok () := by
    rw [removeTags_box_note .standard]
    exact fun e => by cases e
  have hleaves := (removeTags_order s hs _ hd hthere _ (.swap "box" "note" [])).2.1 hinner
  obtain ⟨_, _, _, _, _, _, hkeeps⟩ :=
    (removeTags_order s hs _ hd hthere _ (.refl _)).2.2.1 houter
  exact ⟨hs, hthere, hinner, hleaves, houter, hkeeps⟩

/-- **The order counts**, also where all tags are on the page: one order of a list may pass, and
    another not. -/
theorem removeTags_order_counts :
    ¬ ∀ (s : Session Numbering), s.page.Identified → ∀ ids : List String, ids.Nodup →
      (∀ id ∈ ids, id ∈ Forest.ids s.page) → ∀ order, order.Perm ids →
        (s.removeTags ids).1 = .ok () → (s.removeTags order).1 = .ok () := by
  intro h
  have hinner : ((ofPage nested .standard Numbering.fresh).removeTags ["note", "box"]).1 =
    .ok () := rfl
  have houter := h (ofPage nested .standard Numbering.fresh) (by decide) ["note", "box"] (by decide)
    (by decide) ["box", "note"] (.swap "note" "box" []) hinner
  rw [removeTags_box_note .standard] at houter
  cases houter

end Session

end Pagewright
