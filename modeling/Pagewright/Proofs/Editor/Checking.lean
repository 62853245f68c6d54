import Pagewright.Proofs.Editor.Effect

/-!
# What the check promises

An edit is checked once, and then done with no look back at the check: every place is searched anew,
and a move searches its parent on a page that lacks the tag already. This file says that nothing is
missed on the way, whatever ids the page has.

* `Forest.TakesFrom`, `Forest.PutsAt`, `Forest.Relabels` -- one change at a place that the search
  gives, with the number in the list that it is made at;
* `Edit.Done` -- an edit that was done in full, told by its changes;
* `Edit.applyTo_eq_ok_iff`, `Edit.restoreTo_eq_ok_iff` -- so an edit on the page in place gives the
  page that the edit makes of it, where either succeeds;
* `Edit.check_complete` -- **what passes the check is done in full**, and what does not leaves the
  page as it is.
-/

namespace Pagewright

/-! ## 1. One change -/

namespace Forest

/-- The first node with the id stands in a list of the page, and is taken out there. -/
def TakesFrom (ns rest : Forest) (id : String) (t : Node) : Prop :=
  ∃ q before after, ns.pathOf id = some (q ++ [before.length]) ∧
    ns.listAt q = some (before ++ t :: after) ∧ rest.listAt q = some (before ++ after)

/-- The children of the first node with the parent's id, or the top level, take a node in at a
    number, or at their end. -/
def PutsAt (ns ms : Forest) (parent : Option String) (k : Nat) (t : Node) : Prop :=
  ∃ q before after, ns.listPath parent = some q ∧ ns.listAt q = some (before ++ after) ∧
    before.length = min k (before ++ after).length ∧ ms.listAt q = some (before ++ t :: after)

/-- The first node with the id stands at a path, and has its label changed there. -/
def Relabels (ns ms : Forest) (id : String) (f : Label → Label) : Prop :=
  ∃ p n, ns.pathOf id = some p ∧ ns.nodeAt p = some n ∧
    ms.nodeAt p = some ⟨f n.label, n.list⟩

variable {ns ms rest : Forest} {id : String} {t : Node}

theorem takesFrom_of_detach (h : ns.detach id = .ok (t, rest)) : ns.TakesFrom rest id t := by
  obtain ⟨p, hp, ht⟩ := exists_of_detach h
  obtain ⟨q, k, l, rfl, hl, hk⟩ := exists_concat_of_nodeAt (nodeAt_of_takeAt ht)
  obtain ⟨rest', ht', hrest⟩ := takeAt_of_listAt hl hk
  rw [ht] at ht'
  cases ht'
  obtain ⟨before, after, rfl, rfl, hleft, _⟩ := exists_parts hk
  rw [hleft] at hrest
  exact ⟨q, before, after, hp, hl, hrest⟩

theorem putsAt_of_attach {parent : Option String} {k : Nat} (h : ns.attach parent k t = .ok ms) :
    ns.PutsAt ms parent k t := by
  obtain ⟨q, hq, hm⟩ := exists_of_attach h
  obtain ⟨l, hl⟩ := listAt_of_listPath hq
  obtain ⟨ms', hm', hms⟩ := modifyChildrenAt_of_listAt (insertAt k t) hl
  rw [hm] at hm'
  cases hm'
  obtain ⟨before, after, rfl, hlength, hinsert⟩ := insertAt_parts k t l
  rw [hinsert] at hms
  exact ⟨q, before, after, hq, hl, hlength, hms⟩

theorem relabels_of_modifyLabel {f : Label → Label} (h : ns.modifyLabel id f = .ok ms) :
    ns.Relabels ms id f := by
  obtain ⟨p, hp, hm⟩ := exists_of_modifyLabel h
  obtain ⟨n, hn, _⟩ := nodeAt_of_pathOf hp
  obtain ⟨ms', hm', hms⟩ := modifyAt_of_nodeAt (fun n => ⟨f n.label, n.list⟩) hn
  rw [hm] at hm'
  cases hm'
  exact ⟨p, n, hp, hn, hms⟩

end Forest

/-! ## 2. Edits -/

namespace Edit

open Forest

/-- The edit was done in full, from one page to the other. A move is two changes, and the second is
    made on the page that the first leaves. -/
inductive Done (page page' : Forest) : Edit → Prop where
  | insert {parent : Option String} {k : Nat} {tag : Node} (puts : page.PutsAt page' parent k tag) :
      Done page page' (.insert parent k tag)
  | move {id : String} {parent : Option String} {k : Nat} {t : Node} {rest : Forest}
      (takes : page.TakesFrom rest id t) (puts : rest.PutsAt page' parent k t) :
      Done page page' (.move id parent k)
  | remove {id : String} {t : Node} (takes : page.TakesFrom page' id t) :
      Done page page' (.remove id)
  | setAttribute {id name : String} {value : Option Json}
      (relabels : page.Relabels page' id (·.setAttribute name value)) :
      Done page page' (.setAttribute id name value)
  | setText {id text : String}
      (relabels : page.Relabels page' id fun l => { l with text := some text }) :
      Done page page' (.setText id text)
  | replacePage : Done page page' (.replacePage page')

variable {page page' : Forest} {e : Edit} {policy : Bool}

theorem done_of_perform (h : perform page e = .ok page') : e.Done page page' := by
  cases e with
  | insert parent k tag => exact .insert (putsAt_of_attach h)
  | move id parent k =>
      obtain ⟨t, rest, hd, ha⟩ := perform_move h
      exact .move (takesFrom_of_detach hd) (putsAt_of_attach ha)
  | remove id =>
      obtain ⟨t, hd⟩ := perform_remove h
      exact .remove (takesFrom_of_detach hd)
  | setAttribute id name value => exact .setAttribute (relabels_of_modifyLabel h)
  | setText id text => exact .setText (relabels_of_modifyLabel h)
  | replacePage nodes =>
      cases h
      exact .replacePage

/-- An edit that passes its check is carried out in full. -/
theorem exists_carryOut (h : check page policy e = .ok ()) :
    ∃ page', carryOut page e = (.ok (), page') ∧ e.Done page page' := by
  obtain ⟨page', hp⟩ := exists_perform h
  exact ⟨page', carryOut_of_perform hp, done_of_perform hp⟩

/-! ## 3. In place -/

/-- An edit carried out on the page in place once it is checked, with or without the policy. -/
def checked (policy : Bool) (e : Edit) (page : Forest) : Except EditFault Unit × Forest :=
  match e.check page policy with
  | .error fault => (.error fault, page)
  | .ok () => carryOut page e

theorem applyTo_eq_checked (e : Edit) (page : Forest) : e.applyTo page = checked true e page := rfl

theorem restoreTo_eq_checked (e : Edit) (page : Forest) :
    e.restoreTo page = checked false e page := rfl

/-- **An edit in place comes to what its check gives.** -/
theorem fst_checked (policy : Bool) (e : Edit) (page : Forest) :
    (checked policy e page).1 = e.check page policy := by
  unfold checked
  cases hc : e.check page policy with
  | error fault => rfl
  | ok u =>
      obtain ⟨page', h, _⟩ := exists_carryOut hc
      simp only [h]

theorem snd_checked_of_error {fault : EditFault} (h : e.check page policy = .error fault) :
    (checked policy e page).2 = page := by
  rw [checked, h]

theorem checked_eq_ok_iff :
    checked policy e page = (.ok (), page') ↔
      e.check page policy = .ok () ∧ perform page e = .ok page' := by
  unfold checked
  cases hc : e.check page policy with
  | error fault => simp
  | ok u =>
      obtain ⟨made, hp⟩ := exists_perform hc
      simp [carryOut_of_perform hp, hp]

/-- To apply in place is to apply, where it succeeds. -/
theorem applyTo_eq_ok_iff : e.applyTo page = (.ok (), page') ↔ e.apply page = .ok page' := by
  rw [applyTo_eq_checked, checked_eq_ok_iff, apply_eq_ok_iff]

/-- To restore in place is to restore, where it succeeds. -/
theorem restoreTo_eq_ok_iff : e.restoreTo page = (.ok (), page') ↔ e.restore page = .ok page' := by
  rw [restoreTo_eq_checked, checked_eq_ok_iff, restore_eq_ok_iff]

/-- **What passes the check is done in full.** On every page, whatever ids it has, and for every
    edit,

    * an edit that passes the check, with or without the policy, is carried out in full: each of its
      changes is made at a place that is there;
    * to apply an edit gives what its validation gives, and to restore it what its check without
      the policy gives; where that is a fault, the page stays as it is. -/
theorem check_complete (page : Forest) (e : Edit) :
    (∀ policy, e.check page policy = .ok () →
      ∃ page', carryOut page e = (.ok (), page') ∧ e.Done page page') ∧
    ((e.applyTo page).1 = e.validate page ∧
      ∀ fault, e.validate page = .error fault → (e.applyTo page).2 = page) ∧
    (e.restoreTo page).1 = e.check page false ∧
      ∀ fault, e.check page false = .error fault → (e.restoreTo page).2 = page := by
  refine ⟨fun policy => exists_carryOut, ⟨?_, fun fault => ?_⟩, ?_, fun fault => ?_⟩
  · exact fst_checked true e page
  · exact snd_checked_of_error
  · exact fst_checked false e page
  · exact snd_checked_of_error

/-- Two tags share an id, one has the empty id, and one has none. -/
def crowded : Forest :=
  [⟨{ Label.ofTag "div" with id := some "twin" },
      some [⟨{ Label.ofTag "p" with id := some "note" }, none⟩]⟩,
    ⟨{ Label.ofTag "p" with id := some "" }, some [⟨Label.ofTag "span", none⟩]⟩,
    ⟨{ Label.ofTag "div" with id := some "twin" }, none⟩]

/-- The note goes out of the first twin, whose list is then gone, and in again. What is missing
    cannot be removed, and no tag goes below itself. -/
theorem check_complete_crowded :
    (move "note" (some "twin") 9).check crowded true = .ok () ∧
      (∃ page', carryOut crowded (move "note" (some "twin") 9) = (.ok (), page') ∧
        (move "note" (some "twin") 9).Done crowded page') ∧
      (remove "").validate crowded = .error (.tagNotFound "") ∧
      ((remove "").applyTo crowded).2 = crowded ∧
      (move "twin" (some "note") 0).check crowded false = .error .cycle ∧
      ((move "twin" (some "note") 0).restoreTo crowded).2 = crowded := by
  have hpasses : (move "note" (some "twin") 9).check crowded true = .ok () := by rfl
  have hmissing : (remove "").validate crowded = .error (.tagNotFound "") := by rfl
  have hcycle : (move "twin" (some "note") 0).check crowded false = .error .cycle := by rfl
  exact ⟨hpasses, (check_complete crowded _).1 true hpasses,
    hmissing, (check_complete crowded _).2.1.2 _ hmissing,
    hcycle, (check_complete crowded _).2.2.2 _ hcycle⟩

end Edit

end Pagewright
