import Pagewright.Proofs.Editor.Effect

/-!
# Taking edits back

The inverse of an edit is worked out on the page before it. This file says that it takes the edit
back: on a page whose nodes all have ids, all different,

* a tag that was put in is taken out again, from where the search now finds it (`takeAt_attach`,
  `detach_attach`);
* a tag that was taken out goes back to its parent, which the search still finds
  (`attach_detach`); for this it is enough that ids are distinct and the parent has one
  (`attach_detach_of_parentId`);
* an attribute or a text is set back to what it was (`modifyLabel_modifyLabel`);
* `Edit.restore_inverse` -- **the inverse brings back a page like the one before**.
-/

namespace Pagewright

/-! ## 1. The three changes -/

namespace Forest

variable {ns ms rest : Forest} {id : String} {parent : Option String} {k : Nat} {t : Node}

/-- The parent, where there is one, has no list of children that is there and empty. -/
def Solid (ns : Forest) (parent : Option String) : Prop :=
  ∀ pid found, parent = some pid → ns.find pid = some found → found.node.list ≠ some []

/-- **What was put in can be taken out** from where the search finds it, where no other node has its
    id. It leaves the page as it was, but that the parent may have lost a list of children that was
    empty. -/
theorem takeAt_attach (hid : t.ident = some id) (hnew : id ∉ ids ns)
    (h : ns.attach parent k t = .ok ms) :
    ∃ p ns', ms.pathOf id = some p ∧ ms.takeAt p = some (t, ns') ∧ Sheds ns ns' ∧
      (ns.Solid parent → ns' = ns) := by
  obtain ⟨q, hq, hm⟩ := exists_of_attach h
  obtain ⟨l, hl⟩ := listAt_of_listPath hq
  obtain ⟨ns', ht, hsheds, hsame⟩ := takeAt_modifyChildrenAt hl hm
  have hp := pathOf_modifyChildrenAt hid hnew hl hm
  refine ⟨_, ns', hp, ht, hsheds, fun hsolid => hsame fun n hn => ?_⟩
  cases parent with
  | none =>
      cases hq
      rw [nodeAt_nil] at hn
      cases hn
  | some pid =>
      obtain ⟨m, _, _, _, hm, _, hfind⟩ := find_of_pathOf hq
      obtain rfl := Option.some.inj (hm.symm.trans hn)
      exact hsolid pid _ rfl hfind

/-- On a page with distinct ids no other node has the id of what was put in. -/
theorem detach_attach (hid : t.ident = some id) (hd : (ids ms).Nodup)
    (h : ns.attach parent k t = .ok ms) :
    ∃ ns', ms.detach id = .ok (t, ns') ∧ Sheds ns ns' ∧ (ns.Solid parent → ns' = ns) := by
  obtain ⟨_, _, hapart⟩ := (nodup_ids_iff_of_perm (labels_attach h)).mp hd
  have hown : id ∈ ids [t] := mem_ids_of_ident (List.mem_singleton_self t) hid
  obtain ⟨p, ns', hp, ht, hsheds, hsame⟩ := takeAt_attach hid (hapart id hown) h
  exact ⟨ns', detach_of_takeAt hp ht, hsheds, hsame⟩

/-- No list becomes empty when a tag is taken out. -/
theorem Solid.of_detach (hns : (ids ns).Nodup) (h : ns.Solid parent)
    (hd : ns.detach id = .ok (t, rest)) : rest.Solid parent := by
  intro pid found hparent hfound hempty
  obtain ⟨_, _, ht⟩ := exists_of_detach hd
  obtain ⟨_, _, hn, hid, _⟩ := pathOf_of_find hfound
  -- a parent with an empty list is on the page as it was, and is found there
  obtain ⟨q, _, hq, _, _, hsame⟩ := exists_nodeAt_of_takeAt ht hn
  obtain rfl := hsame hempty
  obtain ⟨_, hfind⟩ := find_of_nodeAt hns hq hid
  exact h pid _ hparent hfind hempty

/-- **What was taken out goes back**, below the parent and at the number where it was found: where
    ids are distinct and the parent has one. -/
theorem attach_detach_of_parentId (hns : (ids ns).Nodup) {found : Match}
    (hf : ns.find id = some found) (hparent : Edit.parentId found = .ok parent)
    (hd : ns.detach id = .ok (t, rest)) :
    (∀ pid, parent = some pid → pid ∈ ids rest) ∧
      rest.attach parent found.position t = .ok ns := by
  obtain ⟨q, hp, hn, _, hnode⟩ := pathOf_of_find hf
  obtain ⟨p, hp', ht⟩ := exists_of_detach hd
  obtain rfl := Option.some.inj (hp.symm.trans hp')
  have hback := modifyChildrenAt_takeAt ht
  cases q with
  | nil =>
      rw [Edit.parentId, hnode, nodeAt_nil] at hparent
      obtain rfl := Except.ok.inj hparent
      exact ⟨fun pid hpid => (by cases hpid), attach_of_modifyChildrenAt rfl hback⟩
  | cons i q =>
      -- the node above keeps its id, and so is found where it was
      rw [nodeAt_concat] at hn
      obtain ⟨l, hl, _⟩ := Option.bind_eq_some_iff.mp hn
      obtain ⟨above, habove, _⟩ := nodeAt_of_listAt hl
      obtain ⟨above', habove', hlabel⟩ := label_of_takeAt ht habove
      have hrest := ((nodup_ids_iff_of_perm (labels_detach hd)).mp hns).2.1
      rw [Edit.parentId, hnode, habove] at hparent
      cases hpid : above.ident with
      | none => simp only [hpid] at hparent; cases hparent
      | some pid =>
          simp only [hpid] at hparent
          obtain rfl := Except.ok.inj hparent
          have hpid' : above'.ident = some pid := by
            rw [Node.ident, hlabel]
            exact hpid
          refine ⟨?_, attach_of_modifyChildrenAt (pathOf_of_nodeAt hrest habove' hpid') hback⟩
          rintro _ ⟨rfl⟩
          exact mem_ids_of_nodeAt habove' hpid'

/-- Where every node has an id, so has the parent of a node that is found. -/
theorem exists_parentId (hns : ns.Identified) {found : Match} (hf : ns.find id = some found) :
    ∃ parent, Edit.parentId found = .ok parent := by
  obtain ⟨q, _, _, _, hparent⟩ := pathOf_of_find hf
  rw [Edit.parentId, hparent]
  cases habove : ns.nodeAt q with
  | none => exact ⟨none, rfl⟩
  | some above =>
      obtain ⟨pid, hpid⟩ := hns.exists_ident habove
      exact ⟨some pid, by simp only [hpid]⟩

/-- On a page with an id for every node, what was taken out always goes back. -/
theorem attach_detach (hns : ns.Identified) {found : Match} (hf : ns.find id = some found)
    (hd : ns.detach id = .ok (t, rest)) :
    found.node = t ∧ ∃ parent, Edit.parentId found = .ok parent ∧
      (∀ pid, parent = some pid → pid ∈ ids rest) ∧
      rest.attach parent found.position t = .ok ns := by
  obtain ⟨parent, hparent⟩ := exists_parentId hns hf
  exact ⟨node_of_detach hf hd, parent, hparent,
    attach_detach_of_parentId hns.distinct hf hparent hd⟩

/-- **A label that was changed can be changed back**: the search finds it where it was, the page is
    like the one before, and the two changes are one. -/
theorem modifyLabel_modifyLabel {f g : Label → Label} (hd : (ids ns).Nodup)
    (hf : ∀ l, (f l).ident = l.ident) {found : Match} (hfound : ns.find id = some found)
    (hg : (g (f found.node.label)).Alike found.node.label) (h : ns.modifyLabel id f = .ok ms) :
    ∃ found' back, ms.find id = some found' ∧ found'.node.label = f found.node.label ∧
      ms.modifyLabel id g = .ok back ∧ Alike back ns ∧
      ns.modifyLabel id (fun l => g (f l)) = .ok back := by
  obtain ⟨q, hp, hn, hid, _⟩ := pathOf_of_find hfound
  obtain ⟨p, hp', hm⟩ := exists_of_modifyLabel h
  obtain rfl := Option.some.inj (hp.symm.trans hp')
  have hafter := modifyAt_of_nodeAt (fun n => ⟨f n.label, n.list⟩) hn
  rw [hm] at hafter
  obtain ⟨_, hsome, hat⟩ := hafter
  obtain rfl := Option.some.inj hsome
  -- the changed node has its id still, so its path is the one of the id
  have hid' : (⟨f found.node.label, found.node.list⟩ : Node).ident = some id :=
    (hf found.node.label).trans hid
  have hd' : (ids ms).Nodup := by
    rw [ids_modifyLabel hf h]
    exact hd
  have hpath := pathOf_of_nodeAt hd' hat hid'
  obtain ⟨_, hfind⟩ := find_of_nodeAt hd' hat hid'
  obtain ⟨back, hback, _⟩ := modifyAt_of_nodeAt (fun n => ⟨g n.label, n.list⟩) hat
  refine ⟨_, back, hfind, rfl, modifyLabel_of_modifyAt hpath hback, ?_⟩
  rw [modifyAt_modifyAt (fun n => ⟨g n.label, n.list⟩) hm] at hback
  have hnode : Node.Alike ⟨g (f found.node.label), found.node.list⟩ found.node :=
    ⟨hg, .refl found.node.children⟩
  exact ⟨alike_modifyAt hn hnode hback, modifyLabel_of_modifyAt hp hback⟩

/-- Only what is done to the label that is found counts. -/
theorem modifyLabel_congr {f g : Label → Label} {found : Match} (hfound : ns.find id = some found)
    (h : f found.node.label = g found.node.label) : ns.modifyLabel id f = ns.modifyLabel id g := by
  obtain ⟨q, hp, hn, _, _⟩ := pathOf_of_find hfound
  have hnode : (⟨f found.node.label, found.node.list⟩ : Node) =
      ⟨g found.node.label, found.node.list⟩ := by rw [h]
  have hpath := modifyAt_congr (f := fun n => ⟨f n.label, n.list⟩)
    (g := fun n => ⟨g n.label, n.list⟩) hn hnode
  simp only [modifyLabel, hp, hpath]

/-- A change that leaves this label leaves the page. -/
theorem modifyLabel_self {f : Label → Label} {found : Match} (hfound : ns.find id = some found)
    (h : f found.node.label = found.node.label) : ns.modifyLabel id f = .ok ns := by
  obtain ⟨q, hp, hn, _, _⟩ := pathOf_of_find hfound
  have hnode : (⟨f found.node.label, found.node.list⟩ : Node) = found.node := by
    rw [h, found.node.eta]
  exact modifyLabel_of_modifyAt hp (modifyAt_self hn hnode)

end Forest

/-! ## 2. The six edits -/

namespace Edit

open Forest

variable {page page' : Forest}

theorem target_of_find {id : String} {found : Match} (h : page.find id = some found) :
    target page id = .ok found := by rw [target, h]

theorem exists_find {id : String} (h : id ∈ ids page) : ∃ found, page.find id = some found :=
  Option.isSome_iff_exists.mp ((find_isSome_iff page id).mpr h)

/-- A new tag is taken back by removing it. -/
theorem restore_inverse_insert {parent : Option String} {k : Nat} {tag : Node}
    (hpage : page.Identified) (hfresh : Forest.Identified [tag])
    (h : (insert parent k tag).restore page = .ok page') :
    ∃ inv back, (insert parent k tag).inverse page = .ok inv ∧ inv.restore page' = .ok back ∧
      Alike back page := by
  obtain ⟨hcheck, hperform⟩ := (restore_eq_ok_iff _ _ _).mp h
  obtain ⟨⟨id, hid⟩, _, _⟩ := check_insert hcheck
  have hpage' := identified_perform (e := insert parent k tag) hpage hfresh hcheck hperform
  obtain ⟨back, hback, hsheds, _⟩ := detach_attach hid hpage'.distinct hperform
  have hmem : id ∈ ids page' := by
    rw [(ids_of_labels_perm (labels_detach hback)).mem_iff]
    exact List.mem_append_left _ (mem_ids_of_ident (List.mem_singleton_self tag) hid)
  obtain ⟨found, hfound⟩ := exists_find hmem
  refine ⟨remove id, back, ?_, (restore_eq_ok_iff _ _ _).mpr ⟨?_, ?_⟩, hsheds.alike⟩
  · simp only [inverse, hid]
  · rw [check, target_of_find hfound]
    rfl
  · rw [perform, hback]
    rfl

/-- **Where ids are distinct, a removal that has an inverse is taken back exactly**, and the id is
    gone in between. -/
theorem restore_of_remove {id : String} {inv : Edit} (hpage : (ids page).Nodup)
    (hinv : (remove id).inverse page = .ok inv) (h : (remove id).restore page = .ok page') :
    inv.restore page' = .ok page ∧ (ids page').Nodup ∧ id ∉ ids page' ∧
      ∀ other ∈ ids page', other ∈ ids page := by
  obtain ⟨_, hperform⟩ := (restore_eq_ok_iff _ _ _).mp h
  obtain ⟨t, hd⟩ := perform_remove hperform
  obtain ⟨found, parent, hfound, hparent, rfl⟩ := inverse_remove hinv
  obtain rfl := node_of_detach hfound hd
  obtain ⟨hmem, hattach⟩ := attach_detach_of_parentId hpage hfound hparent hd
  obtain ⟨_, _, _, hident, _⟩ := pathOf_of_find hfound
  obtain ⟨_, hrest, hapart⟩ := (nodup_ids_iff_of_perm (labels_detach hd)).mp hpage
  refine ⟨(restore_eq_ok_iff _ _ _).mpr ⟨?_, hattach⟩, hrest, ?_, fun other hother => ?_⟩
  · exact check_insert_of hident hapart (checkParent_of_mem_ids hmem)
  · exact hapart id (mem_ids_of_ident (List.mem_singleton_self found.node) hident)
  · rw [(ids_of_labels_perm (labels_detach hd)).mem_iff]
    exact List.mem_append_right _ hother

/-- A removed tag is taken back by inserting it. -/
theorem restore_inverse_remove {id : String} (hpage : page.Identified)
    (h : (remove id).restore page = .ok page') :
    ∃ inv back, (remove id).inverse page = .ok inv ∧ inv.restore page' = .ok back ∧
      Alike back page := by
  obtain ⟨hcheck, hperform⟩ := (restore_eq_ok_iff _ _ _).mp h
  obtain ⟨found, hfound⟩ := find_of_target hcheck
  obtain ⟨t, hd⟩ := perform_remove hperform
  obtain ⟨rfl, parent, hparent, hmem, hattach⟩ := attach_detach hpage hfound hd
  obtain ⟨_, _, _, hident, _⟩ := pathOf_of_find hfound
  have hparts := (identified_iff_of_perm (labels_detach hd)).mp hpage
  refine ⟨insert parent found.position found.node, page, ?_,
    (restore_eq_ok_iff _ _ _).mpr ⟨?_, hattach⟩, .refl page⟩
  · rw [inverse, target_of_find hfound]
    show (parentId found).bind _ = _
    rw [hparent]
    rfl
  · exact check_insert_of hident hparts.2.2 (checkParent_of_mem_ids hmem)

/-- A moved tag is taken back by moving it to where it was. -/
theorem restore_inverse_move {id : String} {parent : Option String} {k : Nat}
    (hpage : page.Identified) (h : (move id parent k).restore page = .ok page') :
    ∃ inv back, (move id parent k).inverse page = .ok inv ∧ inv.restore page' = .ok back ∧
      Alike back page := by
  obtain ⟨hcheck, hperform⟩ := (restore_eq_ok_iff _ _ _).mp h
  obtain ⟨found, hfound, _, _⟩ := check_move hcheck
  obtain ⟨t, rest, hd, ha⟩ := perform_move hperform
  obtain ⟨rfl, old, hold, hmem, hattach⟩ := attach_detach hpage hfound hd
  obtain ⟨_, _, _, hident, _⟩ := pathOf_of_find hfound
  have hparts := (identified_iff_of_perm (labels_detach hd)).mp hpage
  have hpage' := (identified_iff_of_perm (labels_attach ha)).mpr hparts
  -- out of its new place, the tag leaves a page like the one it left at first
  obtain ⟨rest', hd', hsheds, _⟩ := detach_attach hident hpage'.distinct ha
  obtain ⟨back, hback, hlike⟩ := hsheds.alike.symm.attach (.refl found.node) hattach
  have hold' : ∀ pid, old = some pid → pid ∈ ids page' := by
    intro pid hpid
    rw [(ids_of_labels_perm (labels_attach ha)).mem_iff]
    exact List.mem_append_right _ (hmem pid hpid)
  have hid : id ∈ ids page' := by
    rw [(ids_of_labels_perm (labels_attach ha)).mem_iff]
    exact List.mem_append_left _ (mem_ids_of_ident (List.mem_singleton_self _) hident)
  obtain ⟨found', hfound'⟩ := exists_find hid
  have hnode : found'.node = found.node := node_of_detach hfound' hd'
  have hcycle : checkAcyclic found'.node old = .ok () := by
    cases old with
    | none => rfl
    | some pid =>
        have hout : found.node.contains pid = false := by
          rw [← Bool.not_eq_true, Node.contains_eq, contains_iff_mem_ids]
          exact fun hin => hparts.2.2 pid hin (hmem pid rfl)
        rw [checkAcyclic, hnode, hout]
        rfl
  refine ⟨move id old found.position, back, ?_, (restore_eq_ok_iff _ _ _).mpr ⟨?_, ?_⟩,
    hlike.symm⟩
  · rw [inverse, target_of_find hfound]
    show (parentId found).bind _ = _
    rw [hold]
    rfl
  · exact check_move_of hfound' hcycle (checkParent_of_mem_ids hold')
  · simp only [perform, hd']
    exact hback

/-- An attribute is set back to the value that it had. -/
theorem restore_inverse_setAttribute {id name : String} {value : Option Json}
    (hpage : page.Identified) (h : (setAttribute id name value).restore page = .ok page') :
    ∃ inv back, (setAttribute id name value).inverse page = .ok inv ∧
      inv.restore page' = .ok back ∧ Alike back page := by
  obtain ⟨hcheck, hperform⟩ := (restore_eq_ok_iff _ _ _).mp h
  obtain ⟨found, hfound⟩ := find_of_target hcheck
  obtain ⟨found', back, hfound', _, hback, halike, _⟩ :=
    modifyLabel_modifyLabel (g := (·.setAttribute name (found.node.label.valueOf name)))
      hpage.distinct (fun l => l.ident_setAttribute name value) hfound
      (found.node.label.setAttribute_setAttribute_alike name value) hperform
  refine ⟨setAttribute id name (found.node.label.valueOf name), back, ?_,
    (restore_eq_ok_iff _ _ _).mpr ⟨?_, hback⟩, halike⟩
  · simp only [inverse, target_of_find hfound]
    rfl
  · rw [check, target_of_find hfound']
    rfl

/-- A text is set back to the content that it had. -/
theorem restore_inverse_setText {id text : String} (hpage : page.Identified)
    (h : (setText id text).restore page = .ok page') :
    ∃ inv back, (setText id text).inverse page = .ok inv ∧ inv.restore page' = .ok back ∧
      Alike back page := by
  obtain ⟨hcheck, hperform⟩ := (restore_eq_ok_iff _ _ _).mp h
  obtain ⟨found, hfound, htext⟩ := check_setText hcheck
  obtain ⟨found', back, hfound', hlabel, hback, halike, _⟩ :=
    modifyLabel_modifyLabel (f := fun l => { l with text := some text })
      (g := fun l => { l with text := some found.node.label.textContent })
      hpage.distinct (fun _ => rfl) hfound (Label.setText_setText_alike htext) hperform
  refine ⟨setText id found.node.label.textContent, back, ?_,
    (restore_eq_ok_iff _ _ _).mpr ⟨?_, hback⟩, halike⟩
  · simp only [inverse, target_of_find hfound]
    rfl
  · have htext' : found'.node.label.isText = true := by
      rw [hlabel]
      exact htext
    simp only [check, target, hfound', htext', if_true]

/-- **The inverse takes an edit back**: an edit that can be made on a page with distinct ids has an
    inverse there, and the inverse brings back a page like the one before. -/
theorem restore_inverse {e : Edit} (hpage : page.Identified) (hfresh : e.Fresh)
    (h : e.restore page = .ok page') :
    ∃ inv back, e.inverse page = .ok inv ∧ inv.restore page' = .ok back ∧ Alike back page := by
  cases e with
  | insert parent k tag => exact restore_inverse_insert hpage hfresh h
  | move id parent k => exact restore_inverse_move hpage h
  | remove id => exact restore_inverse_remove hpage h
  | setAttribute id name value => exact restore_inverse_setAttribute hpage h
  | setText id text => exact restore_inverse_setText hpage h
  | replacePage nodes => exact ⟨replacePage page, page, rfl, rfl, .refl page⟩

end Edit

end Pagewright
