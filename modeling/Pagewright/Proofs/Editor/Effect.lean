import Pagewright.Editor.History
import Pagewright.Proofs.Page.Likeness

/-!
# What an edit does to a page

An edit finds its place by an id and works there. This file says what comes of the searches, so
that the places need not be looked at again:

* `labels_detach`, `labels_attach`, `idents_modifyLabel` -- which labels are on the page after;
* `Forest.Severable` -- a property of the ids of a page that goes from a page to its parts and back;
  `Edit.perform_of_severable`: **an edit keeps it**, where what it brings in has it;
* `Forest.Identified` -- the property of this kind that every node has an id, all of them different;
* `Edit.ids_subset_of_perform` -- **only a removal and a new page take ids off a page**;
* `Edit.exists_perform` -- **an edit that passes its check can be done**, so that no move stops
  half-way;
* `Edit.perform_congr`, `Edit.restore_congr` -- **an edit makes of alike pages alike pages**, and
  finds the same fault with both (`Edit.check_congr`);
* `History.applyTo_cases` -- **an edit on the page in place is made in full or not at all**; where
  it is made, it is recorded with its inverse (`History.apply_eq_ok`).
-/

namespace Pagewright

/-! ## 1. By id, then by path -/

/-- The path to the list of a parent's children; the top level where there is no parent. -/
def Forest.listPath (ns : Forest) : Option String → Option (List Nat)
  | none => some []
  | some id => ns.pathOf id

namespace Forest

variable {ns ms rest : Forest} {id : String} {parent : Option String} {k : Nat} {t : Node}

theorem listAt_of_listPath {q : List Nat} (h : ns.listPath parent = some q) :
    ∃ l, ns.listAt q = some l := by
  cases parent with
  | none =>
      cases h
      exact ⟨ns, listAt_nil ns⟩
  | some id =>
      obtain ⟨n, hn, _⟩ := nodeAt_of_pathOf h
      exact ⟨n.children, listAt_of_nodeAt hn⟩

theorem exists_of_detach (h : ns.detach id = .ok (t, rest)) :
    ∃ p, ns.pathOf id = some p ∧ ns.takeAt p = some (t, rest) := by
  rw [detach] at h
  cases hp : ns.pathOf id with
  | none => rw [hp] at h; cases h
  | some p =>
      rw [hp] at h
      refine ⟨p, rfl, ?_⟩
      cases ht : ns.takeAt p with
      | none => simp only [ht] at h; cases h
      | some taken => simp only [ht, Except.ok.injEq] at h; rw [h]

theorem detach_of_takeAt {p : List Nat} (hp : ns.pathOf id = some p)
    (ht : ns.takeAt p = some (t, rest)) : ns.detach id = .ok (t, rest) := by
  rw [detach, hp]
  simp only [ht]

/-- The node that is taken out is the one that is found. -/
theorem node_of_detach {found : Match} (hf : ns.find id = some found)
    (hd : ns.detach id = .ok (t, rest)) : found.node = t := by
  obtain ⟨q, hp, hn, _, _⟩ := pathOf_of_find hf
  obtain ⟨p, hp', ht⟩ := exists_of_detach hd
  obtain rfl := Option.some.inj (hp.symm.trans hp')
  exact Option.some.inj (hn.symm.trans (nodeAt_of_takeAt ht))

/-- A node whose id is on the page can be taken out. -/
theorem exists_detach (h : id ∈ ids ns) : ∃ t rest, ns.detach id = .ok (t, rest) := by
  obtain ⟨p, hp⟩ := exists_pathOf h
  obtain ⟨n, hn, _⟩ := nodeAt_of_pathOf hp
  obtain ⟨rest, hrest⟩ := takeAt_of_nodeAt hn
  exact ⟨n, rest, detach_of_takeAt hp hrest⟩

theorem exists_of_attach (h : ns.attach parent k t = .ok ms) :
    ∃ q, ns.listPath parent = some q ∧ ns.modifyChildrenAt (insertAt k t) q = some ms := by
  cases parent with
  | none =>
      rw [attach] at h
      cases h
      exact ⟨[], rfl, modifyChildrenAt_nil _ ns⟩
  | some id =>
      simp only [attach] at h
      cases hp : ns.pathOf id with
      | none => simp only [hp] at h; cases h
      | some q =>
          simp only [hp] at h
          refine ⟨q, hp, ?_⟩
          cases hm : ns.modifyChildrenAt (insertAt k t) q with
          | none => simp only [hm] at h; cases h
          | some ms' => simp only [hm, Except.ok.injEq] at h; rw [h]

theorem attach_of_modifyChildrenAt {q : List Nat} (hq : ns.listPath parent = some q)
    (hm : ns.modifyChildrenAt (insertAt k t) q = some ms) : ns.attach parent k t = .ok ms := by
  cases parent with
  | none =>
      cases hq
      rw [modifyChildrenAt_nil] at hm
      rw [attach, Option.some.inj hm]
  | some id =>
      have hp : ns.pathOf id = some q := hq
      simp only [attach, hp, hm]

/-- Below a parent that is on the page, and at top level, there is room for a node. -/
theorem exists_attach (k : Nat) (t : Node) (h : ∀ id, parent = some id → id ∈ ids ns) :
    ∃ ms, ns.attach parent k t = .ok ms := by
  have hq : ∃ q, ns.listPath parent = some q := by
    cases parent with
    | none => exact ⟨[], rfl⟩
    | some id => exact exists_pathOf (h id rfl)
  obtain ⟨q, hq⟩ := hq
  obtain ⟨l, hl⟩ := listAt_of_listPath hq
  obtain ⟨ms, hms, _⟩ := modifyChildrenAt_of_listAt (insertAt k t) hl
  exact ⟨ms, attach_of_modifyChildrenAt hq hms⟩

theorem exists_of_modifyLabel {f : Label → Label} (h : ns.modifyLabel id f = .ok ms) :
    ∃ p, ns.pathOf id = some p ∧ ns.modifyAt (fun n => ⟨f n.label, n.list⟩) p = some ms := by
  rw [modifyLabel] at h
  cases hp : ns.pathOf id with
  | none => rw [hp] at h; cases h
  | some p =>
      rw [hp] at h
      refine ⟨p, rfl, ?_⟩
      cases hm : ns.modifyAt (fun n => ⟨f n.label, n.list⟩) p with
      | none => simp only [hm] at h; cases h
      | some ms' => simp only [hm, Except.ok.injEq] at h; rw [h]

theorem modifyLabel_of_modifyAt {f : Label → Label} {p : List Nat} (hp : ns.pathOf id = some p)
    (hm : ns.modifyAt (fun n => ⟨f n.label, n.list⟩) p = some ms) :
    ns.modifyLabel id f = .ok ms := by
  rw [modifyLabel, hp]
  simp only [hm]

/-- The label of a node whose id is on the page can be changed. -/
theorem exists_modifyLabel (f : Label → Label) (h : id ∈ ids ns) :
    ∃ ms, ns.modifyLabel id f = .ok ms := by
  obtain ⟨p, hp⟩ := exists_pathOf h
  obtain ⟨n, hn, _⟩ := nodeAt_of_pathOf hp
  obtain ⟨ms, hms, _⟩ := modifyAt_of_nodeAt (fun n => ⟨f n.label, n.list⟩) hn
  exact ⟨ms, modifyLabel_of_modifyAt hp hms⟩

/-! ## 2. Labels -/

theorem labels_detach (h : ns.detach id = .ok (t, rest)) :
    (labels ns).Perm (labels [t] ++ labels rest) := by
  obtain ⟨_, _, ht⟩ := exists_of_detach h
  exact labels_takeAt ht

theorem labels_attach (h : ns.attach parent k t = .ok ms) :
    (labels ms).Perm (labels [t] ++ labels ns) := by
  obtain ⟨q, hq, hm⟩ := exists_of_attach h
  obtain ⟨l, hl⟩ := listAt_of_listPath hq
  exact labels_modifyChildrenAt hl hm (labels_insertAt k t l)

theorem idents_modifyLabel {f : Label → Label} (hf : ∀ l, (f l).ident = l.ident)
    (h : ns.modifyLabel id f = .ok ms) :
    (labels ms).map Label.ident = (labels ns).map Label.ident := by
  obtain ⟨p, hp, hm⟩ := exists_of_modifyLabel h
  obtain ⟨n, hn, _⟩ := nodeAt_of_pathOf hp
  obtain ⟨before, after, e, e'⟩ :=
    labels_modifyAt (f := fun n => ⟨f n.label, n.list⟩) hn rfl hm
  rw [e, e', List.map_append, List.map_append, List.map_cons, List.map_cons, Node.label_mk, hf]

theorem ids_modifyLabel {f : Label → Label} (hf : ∀ l, (f l).ident = l.ident)
    (h : ns.modifyLabel id f = .ok ms) : ids ms = ids ns :=
  ids_eq_of_idents (idents_modifyLabel hf h)

theorem ids_of_labels_perm {as bs : Forest} (h : (labels ns).Perm (labels as ++ labels bs)) :
    (ids ns).Perm (ids as ++ ids bs) := by
  rw [← labels_append] at h
  rw [← ids_append]
  exact ids_perm h

end Forest

theorem Label.ident_setAttribute (l : Label) (name : String) (value : Option Json) :
    (l.setAttribute name value).ident = l.ident := by
  obtain ⟨attr, e⟩ := l.setAttribute_eq name value
  rw [e, Label.ident, Label.ident]

/-! ## 3. Pages with distinct ids -/

/-- Every node has an id, and no two have the same. -/
structure Forest.Identified (ns : Forest) : Prop where
  named : ∀ l ∈ Forest.labels ns, l.ident ≠ none
  distinct : (Forest.ids ns).Nodup

instance (ns : Forest) : Decidable ns.Identified :=
  decidable_of_iff ((∀ l ∈ Forest.labels ns, l.ident ≠ none) ∧ (Forest.ids ns).Nodup)
    ⟨fun h => ⟨h.1, h.2⟩, fun h => ⟨h.named, h.distinct⟩⟩

/-- What an edit brings in has the property. -/
def Edit.Brings (P : Forest → Prop) : Edit → Prop
  | .insert _ _ tag => P [tag]
  | .replacePage nodes => P nodes
  | _ => True

/-- What an edit brings in has distinct ids of its own. -/
def Edit.Fresh (e : Edit) : Prop := e.Brings Forest.Identified

namespace Forest

variable {ns ms as bs : Forest}

/-- Two parts of a page: each has distinct ids, and no id is in both. -/
theorem nodup_ids_iff_of_perm (h : (labels ns).Perm (labels as ++ labels bs)) :
    (ids ns).Nodup ↔ (ids as).Nodup ∧ (ids bs).Nodup ∧ ∀ id ∈ ids as, id ∉ ids bs := by
  rw [(ids_of_labels_perm h).nodup_iff, List.nodup_append]
  constructor
  · rintro ⟨has, hbs, hapart⟩
    exact ⟨has, hbs, fun id ha hb => hapart id ha id hb rfl⟩
  · rintro ⟨has, hbs, hapart⟩
    refine ⟨has, hbs, ?_⟩
    rintro id ha _ hb rfl
    exact hapart id ha hb

/-- Two parts of a page: both are identified, and no id is in both. -/
theorem identified_iff_of_perm (h : (labels ns).Perm (labels as ++ labels bs)) :
    Identified ns ↔ Identified as ∧ Identified bs ∧ ∀ id ∈ ids as, id ∉ ids bs := by
  have hnamed : (∀ l ∈ labels ns, l.ident ≠ none) ↔
      (∀ l ∈ labels as, l.ident ≠ none) ∧ ∀ l ∈ labels bs, l.ident ≠ none := by
    rw [← List.forall_mem_append]
    exact forall_congr' fun l => imp_congr_left h.mem_iff
  constructor
  · intro hns
    obtain ⟨has, hbs, hapart⟩ := (nodup_ids_iff_of_perm h).mp hns.distinct
    obtain ⟨has', hbs'⟩ := hnamed.mp hns.named
    exact ⟨⟨has', has⟩, ⟨hbs', hbs⟩, hapart⟩
  · rintro ⟨has, hbs, hapart⟩
    exact ⟨hnamed.mpr ⟨has.named, hbs.named⟩,
      (nodup_ids_iff_of_perm h).mpr ⟨has.distinct, hbs.distinct, hapart⟩⟩

/-- Only the ids count, in the order of the nodes. -/
theorem Identified.of_idents (h : Identified ns)
    (e : (labels ms).map Label.ident = (labels ns).map Label.ident) : Identified ms where
  named l hl hnone := by
    have hmem : none ∈ (labels ns).map Label.ident := by
      rw [← e, ← hnone]
      exact List.mem_map_of_mem hl
    obtain ⟨l', hl', hnone'⟩ := List.mem_map.mp hmem
    exact h.named l' hl' hnone'
  distinct := by
    rw [ids_eq_of_idents e]
    exact h.distinct

theorem Identified.exists_ident (h : Identified ns) {p : List Nat} {n : Node}
    (hn : ns.nodeAt p = some n) : ∃ id, n.ident = some id :=
  Option.ne_none_iff_exists'.mp (h.named n.label (label_mem_of_nodeAt hn))

theorem Identified.of_alike (h : Identified ns) (ha : Alike ms ns) : Identified ms :=
  h.of_idents ha.idents_eq

/-- A property of pages that the ids decide, and that a page has exactly where two parts of it do
    and no id is in both. -/
structure Partible (P : Forest → Prop) : Prop where
  same : ∀ {ns ms : Forest}, (labels ms).map Label.ident = (labels ns).map Label.ident → P ns → P ms
  parts : ∀ {ns as bs : Forest}, (labels ns).Perm (labels as ++ labels bs) →
    (P ns ↔ P as ∧ P bs ∧ ∀ id ∈ ids as, id ∉ ids bs)

theorem Partible.distinct : Partible fun ns => (ids ns).Nodup where
  same e h := by
    rw [ids_eq_of_idents e]
    exact h
  parts := nodup_ids_iff_of_perm

theorem Partible.identified : Partible Identified where
  same e h := h.of_idents e
  parts := identified_iff_of_perm

/-- A property of pages that the ids decide, whatever the order of the nodes, that the parts of a
    page have with it, and that comes back from parts with no id in common. -/
structure Severable (P : Forest → Prop) : Prop where
  same : ∀ {ns ms : Forest}, (labels ms).map Label.ident = (labels ns).map Label.ident → P ns → P ms
  perm : ∀ {ns ms : Forest}, (labels ms).Perm (labels ns) → P ns → P ms
  parts : ∀ {ns as bs : Forest}, (labels ns).Perm (labels as ++ labels bs) → P ns → P as ∧ P bs
  join : ∀ {ns as bs : Forest}, (labels ns).Perm (labels as ++ labels bs) → P as → P bs →
    (∀ id ∈ ids as, id ∉ ids bs) → P ns

theorem Partible.severable {P : Forest → Prop} (hP : Partible P) : Severable P where
  same := hP.same
  perm {ns ms} h hns := by
    have hwhole : (labels ns).Perm (labels ns ++ labels []) := by
      rw [labels_nil, List.append_nil]
    have hsame : (labels ms).Perm (labels ns ++ labels []) := h.trans hwhole
    exact (hP.parts hsame).mpr ((hP.parts hwhole).mp hns)
  parts h hns := by
    obtain ⟨has, hbs, _⟩ := (hP.parts h).mp hns
    exact ⟨has, hbs⟩
  join h has hbs hapart := (hP.parts h).mpr ⟨has, hbs, hapart⟩

/-- What is found on a page has the property with it. -/
theorem Severable.of_find {P : Forest → Prop} (hP : Severable P) {page : Forest} (hpage : P page)
    {id : String} {found : Match} (h : page.find id = some found) : P [found.node] := by
  obtain ⟨q, _, hn, _, _⟩ := pathOf_of_find h
  obtain ⟨rest, ht⟩ := takeAt_of_nodeAt hn
  exact (hP.parts (labels_takeAt ht) hpage).1

end Forest

namespace Edit

open Forest

variable {page page' : Forest} {e : Edit} {policy : Bool}

theorem checkNew_eq_ok_iff (page : Forest) (ids : List String) :
    checkNew page ids = .ok () ↔ ∀ id ∈ ids, id ∉ Forest.ids page := by
  induction ids with
  | nil => simp [checkNew]
  | cons id ids ih =>
      rw [checkNew, List.forall_mem_cons, ← ih, ← find_isSome_iff]
      by_cases h : (page.find id).isSome = true
      · simp [h]
      · rw [if_neg h]
        simp [h]

/-- What the check of a new tag says. -/
theorem check_insert {parent : Option String} {k : Nat} {tag : Node}
    (h : check page policy (insert parent k tag) = .ok ()) :
    (∃ id, tag.ident = some id) ∧ (∀ id ∈ ids [tag], id ∉ ids page) ∧
      checkParent page policy parent = .ok () := by
  simp only [check] at h
  cases hid : tag.ident with
  | none => rw [hid] at h; cases h
  | some id =>
      rw [hid, Option.isNone_some] at h
      cases hnew : checkNew page (Forest.ids [tag]) with
      | error e => simp only [hnew] at h; cases h
      | ok u =>
          simp only [hnew] at h
          exact ⟨⟨id, rfl⟩, (checkNew_eq_ok_iff page _).mp hnew, h⟩

theorem check_insert_of {parent : Option String} {k : Nat} {tag : Node} {id : String}
    (hid : tag.ident = some id) (hnew : ∀ id ∈ ids [tag], id ∉ ids page)
    (hparent : checkParent page policy parent = .ok ()) :
    check page policy (insert parent k tag) = .ok () := by
  have h := (checkNew_eq_ok_iff page _).mpr hnew
  simp only [check, hid, h, Option.isNone_some]
  exact hparent

/-- What the check of a move says. -/
theorem check_move {id : String} {parent : Option String} {k : Nat}
    (h : check page policy (move id parent k) = .ok ()) :
    ∃ found, page.find id = some found ∧ checkAcyclic found.node parent = .ok () ∧
      checkParent page policy parent = .ok () := by
  simp only [check, target] at h
  cases hf : page.find id with
  | none => rw [hf] at h; cases h
  | some found =>
      simp only [hf] at h
      cases hc : checkAcyclic found.node parent with
      | error e => simp only [hc] at h; cases h
      | ok u =>
          simp only [hc] at h
          exact ⟨found, rfl, hc, h⟩

theorem check_move_of {id : String} {parent : Option String} {k : Nat} {found : Match}
    (hf : page.find id = some found) (hc : checkAcyclic found.node parent = .ok ())
    (hparent : checkParent page policy parent = .ok ()) :
    check page policy (move id parent k) = .ok () := by
  simp only [check, target, hf, hc]
  exact hparent

/-- A parent that passes the check is on the page. -/
theorem mem_ids_of_checkParent {parent : Option String}
    (h : checkParent page policy parent = .ok ()) : ∀ id, parent = some id → id ∈ ids page := by
  rintro id rfl
  rw [checkParent] at h
  rw [← find_isSome_iff]
  cases hf : page.find id with
  | none => rw [hf] at h; cases h
  | some found => rfl

/-- Without the policy on children, a parent that is on the page passes the check. -/
theorem checkParent_of_mem_ids {parent : Option String}
    (h : ∀ id, parent = some id → id ∈ ids page) : checkParent page false parent = .ok () := by
  cases parent with
  | none => rfl
  | some id =>
      rw [checkParent]
      cases hf : page.find id with
      | none => exact absurd (h id rfl) ((find_eq_none_iff page id).mp hf)
      | some found => rfl

theorem checkParent_of_policy {parent : Option String}
    (h : checkParent page true parent = .ok ()) : checkParent page policy parent = .ok () := by
  cases policy with
  | true => exact h
  | false => exact checkParent_of_mem_ids (mem_ids_of_checkParent h)

/-- **What passes with the policy on children passes without it.** -/
theorem check_of_policy (h : check page true e = .ok ()) : check page policy e = .ok () := by
  cases e with
  | insert parent k tag =>
      obtain ⟨⟨id, hid⟩, hnew, hparent⟩ := check_insert h
      exact check_insert_of hid hnew (checkParent_of_policy hparent)
  | move id parent k =>
      obtain ⟨found, hf, hc, hparent⟩ := check_move h
      exact check_move_of hf hc (checkParent_of_policy hparent)
  | remove id => exact h
  | setAttribute id name value => exact h
  | setText id text => exact h
  | replacePage nodes => rfl

/-- No tag goes below itself or below a tag within it. -/
theorem checkAcyclic_of_mem_ids {n : Node} {pid : String} (h : pid ∈ ids [n]) :
    checkAcyclic n (some pid) = .error .cycle := by
  rw [checkAcyclic, Node.contains_eq, if_pos ((contains_iff_mem_ids pid _).mpr h)]

/-- A parent that is not below the tag to be moved is on the page also without it. -/
theorem mem_ids_of_checkAcyclic {id : String} {parent : Option String} {found : Match} {t : Node}
    {rest : Forest} (hf : page.find id = some found)
    (hc : checkAcyclic found.node parent = .ok ()) (hd : page.detach id = .ok (t, rest))
    (hparent : ∀ pid, parent = some pid → pid ∈ ids page) :
    ∀ pid, parent = some pid → pid ∈ ids rest := by
  rintro pid rfl
  obtain rfl := node_of_detach hf hd
  have hout : pid ∉ ids [found.node] := by
    intro hin
    rw [checkAcyclic_of_mem_ids hin] at hc
    cases hc
  have hmem := hparent pid rfl
  rw [(ids_of_labels_perm (labels_detach hd)).mem_iff, List.mem_append] at hmem
  exact hmem.resolve_left hout

theorem perform_move {id : String} {parent : Option String} {k : Nat}
    (h : perform page (move id parent k) = .ok page') :
    ∃ t rest, page.detach id = .ok (t, rest) ∧ rest.attach parent k t = .ok page' := by
  simp only [perform] at h
  cases hd : page.detach id with
  | error e => simp only [hd] at h; cases h
  | ok taken =>
      simp only [hd] at h
      exact ⟨taken.1, taken.2, rfl, h⟩

theorem perform_remove {id : String} (h : perform page (remove id) = .ok page') :
    ∃ t, page.detach id = .ok (t, page') := by
  simp only [perform] at h
  cases hd : page.detach id with
  | error e => rw [hd] at h; cases h
  | ok taken =>
      rw [hd] at h
      cases h
      exact ⟨taken.1, rfl⟩

/-- What the check of an edit of one node says. -/
theorem find_of_target {id : String} {β : Type} {f : Match → β} {b : β}
    (h : (target page id).map f = .ok b) : ∃ found, page.find id = some found := by
  rw [target] at h
  cases hf : page.find id with
  | none => rw [hf] at h; cases h
  | some found => exact ⟨found, rfl⟩

theorem bind_eq_ok {α β : Type} {x : Except EditFault α} {f : α → Except EditFault β} {b : β}
    (h : x.bind f = .ok b) : ∃ a, x = .ok a ∧ f a = .ok b := by
  cases x with
  | error fault => cases h
  | ok a => exact ⟨a, rfl, h⟩

theorem find_of_target_eq {id : String} {found : Match} (h : target page id = .ok found) :
    page.find id = some found := by
  rw [target] at h
  cases hf : page.find id with
  | none => rw [hf] at h; cases h
  | some found' => rw [hf] at h; cases h; rfl

/-- What the inverse of an insertion is: the removal of the tag, which has an id. -/
theorem inverse_insert {parent : Option String} {k : Nat} {tag : Node} {inv : Edit}
    (h : inverse page (insert parent k tag) = .ok inv) :
    ∃ id, tag.ident = some id ∧ inv = remove id := by
  rw [inverse] at h
  cases hid : tag.ident with
  | none =>
      rw [hid] at h
      cases h
  | some id =>
      rw [hid] at h
      cases h
      exact ⟨id, rfl, rfl⟩

/-- What the inverse of a removal is: the tag goes back to its parent and its place. -/
theorem inverse_remove {id : String} {inv : Edit} (h : inverse page (remove id) = .ok inv) :
    ∃ found parent, page.find id = some found ∧ parentId found = .ok parent ∧
      inv = insert parent found.position found.node := by
  obtain ⟨found, hfound, h⟩ := bind_eq_ok h
  obtain ⟨parent, hparent, h⟩ := bind_eq_ok h
  cases h
  exact ⟨found, parent, find_of_target_eq hfound, hparent, rfl⟩

/-- What the inverse of a move is: a move to where the tag was. -/
theorem inverse_move {id : String} {target : Option String} {k : Nat} {inv : Edit}
    (h : inverse page (move id target k) = .ok inv) :
    ∃ found parent, page.find id = some found ∧ parentId found = .ok parent ∧
      inv = move id parent found.position := by
  obtain ⟨found, hfound, h⟩ := bind_eq_ok h
  obtain ⟨parent, hparent, h⟩ := bind_eq_ok h
  cases h
  exact ⟨found, parent, find_of_target_eq hfound, hparent, rfl⟩

theorem inverse_setAttribute {id name : String} {value : Option Json} {inv : Edit}
    (h : inverse page (setAttribute id name value) = .ok inv) :
    ∃ found, page.find id = some found ∧
      inv = setAttribute id name (found.node.label.valueOf name) := by
  obtain ⟨found, hfound, h⟩ := bind_eq_ok h
  cases h
  exact ⟨found, find_of_target_eq hfound, rfl⟩

theorem inverse_setText {id text : String} {inv : Edit}
    (h : inverse page (setText id text) = .ok inv) :
    ∃ found, page.find id = some found ∧ inv = setText id found.node.label.textContent := by
  obtain ⟨found, hfound, h⟩ := bind_eq_ok h
  cases h
  exact ⟨found, find_of_target_eq hfound, rfl⟩

/-- What the check of a text says. -/
theorem check_setText {id text : String} (h : check page policy (setText id text) = .ok ()) :
    ∃ found, page.find id = some found ∧ found.node.label.isText = true := by
  simp only [check, target] at h
  cases hf : page.find id with
  | none => rw [hf] at h; cases h
  | some found =>
      simp only [hf] at h
      refine ⟨found, rfl, ?_⟩
      by_contra hno
      rw [if_neg hno] at h
      cases h

/-- **What passes the check can be done**, whatever ids the page has. -/
theorem exists_perform (h : check page policy e = .ok ()) :
    ∃ page', perform page e = .ok page' := by
  cases e with
  | insert parent k tag =>
      obtain ⟨_, _, hparent⟩ := check_insert h
      exact exists_attach k tag (mem_ids_of_checkParent hparent)
  | move id parent k =>
      obtain ⟨found, hf, hc, hparent⟩ := check_move h
      obtain ⟨t, rest, hd⟩ := exists_detach (mem_ids_of_find hf)
      obtain ⟨page', ha⟩ := exists_attach k t
        (mem_ids_of_checkAcyclic hf hc hd (mem_ids_of_checkParent hparent))
      refine ⟨page', ?_⟩
      simp only [perform, hd, ha]
  | remove id =>
      obtain ⟨found, hf⟩ := find_of_target h
      obtain ⟨t, rest, hd⟩ := exists_detach (mem_ids_of_find hf)
      exact ⟨rest, by rw [perform, hd]; rfl⟩
  | setAttribute id name value =>
      obtain ⟨found, hf⟩ := find_of_target h
      exact exists_modifyLabel (·.setAttribute name value) (mem_ids_of_find hf)
  | setText id text =>
      obtain ⟨found, hf, _⟩ := check_setText h
      exact exists_modifyLabel (fun l => { l with text := some text }) (mem_ids_of_find hf)
  | replacePage nodes => exact ⟨nodes, rfl⟩

/-- What can be done is carried out in full. -/
theorem carryOut_of_perform (h : perform page e = .ok page') :
    carryOut page e = (.ok (), page') := by
  cases e with
  | move id parent k =>
      obtain ⟨t, rest, hd, ha⟩ := perform_move h
      simp only [carryOut, hd, ha]
  | _ => simp only [carryOut, h]

/-- **An edit keeps a property of this kind**, where what it brings in has it. -/
theorem perform_of_severable {P : Forest → Prop} (hP : Severable P) (hpage : P page)
    (he : e.Brings P) (hcheck : check page policy e = .ok ()) (h : perform page e = .ok page') :
    P page' := by
  cases e with
  | insert parent k tag =>
      obtain ⟨_, hnew, _⟩ := check_insert hcheck
      exact hP.join (labels_attach h) he hpage hnew
  | move id parent k =>
      obtain ⟨t, rest, hd, ha⟩ := perform_move h
      exact hP.perm ((labels_attach ha).trans (labels_detach hd).symm) hpage
  | remove id =>
      obtain ⟨t, hd⟩ := perform_remove h
      exact (hP.parts (labels_detach hd) hpage).2
  | setAttribute id name value =>
      exact hP.same (idents_modifyLabel (fun l => l.ident_setAttribute name value) h) hpage
  | setText id text =>
      have hf : ∀ l : Label, Label.ident { l with text := some text } = l.ident := fun _ => rfl
      exact hP.same (idents_modifyLabel hf h) hpage
  | replacePage nodes =>
      cases h
      exact he

/-- Whether an edit may take an id off the page. -/
def sheds : Edit → Bool
  | .remove _ | .replacePage _ => true
  | _ => false

/-- **What goes in or is changed takes no id off the page**, and neither does a move. -/
theorem ids_subset_of_perform (he : e.sheds = false) (h : perform page e = .ok page') :
    ids page ⊆ ids page' := by
  cases e with
  | insert parent k tag =>
      have hperm := ids_of_labels_perm (labels_attach h)
      exact fun id hid => hperm.symm.subset (List.mem_append_right _ hid)
  | move id parent k =>
      obtain ⟨t, rest, hd, ha⟩ := perform_move h
      exact (ids_perm ((labels_attach ha).trans (labels_detach hd).symm)).symm.subset
  | setAttribute id name value =>
      rw [ids_modifyLabel (fun l => l.ident_setAttribute name value) h]
      exact List.Subset.refl _
  | setText id text =>
      have hf : ∀ l : Label, Label.ident { l with text := some text } = l.ident := fun _ => rfl
      rw [ids_modifyLabel hf h]
      exact List.Subset.refl _
  | remove id => cases he
  | replacePage nodes => cases he

/-- **An edit keeps ids there and distinct**, where what it brings in is of this kind. -/
theorem identified_perform (hid : page.Identified) (hfresh : e.Fresh)
    (hcheck : check page policy e = .ok ()) (h : perform page e = .ok page') :
    page'.Identified :=
  perform_of_severable Partible.identified.severable hid hfresh hcheck h

end Edit

/-! ## 4. Alike pages -/

namespace Forest.Alike

variable {ns ms : Forest}

theorem listPath_eq (h : Forest.Alike ns ms) (parent : Option String) :
    ns.listPath parent = ms.listPath parent := by
  cases parent with
  | none => rfl
  | some id => exact h.pathOf_eq id

theorem detach (h : Forest.Alike ns ms) {id : String} {t : Node} {rest : Forest}
    (hd : ns.detach id = .ok (t, rest)) :
    ∃ t' rest', ms.detach id = .ok (t', rest') ∧ t.Alike t' ∧ Forest.Alike rest rest' := by
  obtain ⟨p, hp, ht⟩ := exists_of_detach hd
  obtain ⟨t', rest', ht', htt, hrest⟩ := h.takeAt ht
  exact ⟨t', rest', detach_of_takeAt ((h.pathOf_eq id).symm.trans hp) ht', htt, hrest⟩

theorem attach (h : Forest.Alike ns ms) {parent : Option String} {k : Nat} {t t' : Node}
    (htt : t.Alike t') {ns' : Forest} (ha : ns.attach parent k t = .ok ns') :
    ∃ ms', ms.attach parent k t' = .ok ms' ∧ Forest.Alike ns' ms' := by
  obtain ⟨q, hq, hm⟩ := exists_of_attach ha
  obtain ⟨ms', hms', halike⟩ := h.modifyChildrenAt (fun hl => hl.insertAt k htt) hm
  exact ⟨ms', attach_of_modifyChildrenAt ((h.listPath_eq parent).symm.trans hq) hms', halike⟩

theorem modifyLabel (h : Forest.Alike ns ms) {id : String} {f : Label → Label}
    (hf : ∀ {a b : Label}, a.Alike b → (f a).Alike (f b)) {ns' : Forest}
    (hm : ns.modifyLabel id f = .ok ns') :
    ∃ ms', ms.modifyLabel id f = .ok ms' ∧ Forest.Alike ns' ms' := by
  obtain ⟨p, hp, hn⟩ := exists_of_modifyLabel hm
  have hnode : ∀ {n m : Node}, n.Alike m →
      Node.Alike ⟨f n.label, n.list⟩ ⟨f m.label, m.list⟩ :=
    fun hnm => ⟨hf hnm.label, hnm.below⟩
  obtain ⟨ms', hms', halike⟩ := h.modifyAt hnode hn
  exact ⟨ms', modifyLabel_of_modifyAt ((h.pathOf_eq id).symm.trans hp) hms', halike⟩

end Forest.Alike

namespace Edit

variable {page page' other : Forest}

/-- What a search on one page and on one like it gives: nothing twice, or alike nodes. -/
theorem find_cases (h : Forest.Alike page other) (id : String) :
    (page.find id = none ∧ other.find id = none) ∨ ∃ found found', page.find id = some found ∧
      other.find id = some found' ∧ found.node.Alike found'.node := by
  cases hf : page.find id with
  | none =>
      rw [Forest.find_eq_none_iff, h.ids_eq, ← Forest.find_eq_none_iff] at hf
      exact Or.inl ⟨rfl, hf⟩
  | some found =>
      obtain ⟨found', hf', halike⟩ := h.find hf
      exact Or.inr ⟨found, found', rfl, hf', halike⟩

theorem checkNew_congr (h : Forest.Alike page other) (ids : List String) :
    checkNew page ids = checkNew other ids := by
  induction ids with
  | nil => rfl
  | cons id ids ih =>
      rw [checkNew, checkNew, ih]
      rcases find_cases h id with ⟨hf, hf'⟩ | ⟨found, found', hf, hf', _⟩
      · rw [hf, hf']
      · rw [hf, hf', Option.isSome_some, Option.isSome_some]

theorem checkParent_congr (h : Forest.Alike page other) (policy : Bool)
    (parent : Option String) :
    checkParent page policy parent = checkParent other policy parent := by
  cases parent with
  | none => rfl
  | some id =>
      rw [checkParent, checkParent]
      rcases find_cases h id with ⟨hf, hf'⟩ | ⟨found, found', hf, hf', halike⟩
      · rw [hf, hf']
      · have htag : found.node.tag = found'.node.tag := halike.label.tag
        simp only [hf, hf', htag]

theorem checkAcyclic_congr {n m : Node} (h : n.Alike m) (parent : Option String) :
    checkAcyclic n parent = checkAcyclic m parent := by
  have hids : Forest.ids [n] = Forest.ids [m] :=
    Forest.Alike.ids_eq (.cons h.label h.below .nil)
  cases parent with
  | none => rfl
  | some id =>
      have hc : n.contains id = m.contains id := by
        rw [Bool.eq_iff_iff, Node.contains_eq, Node.contains_eq, Forest.contains_iff_mem_ids,
          Forest.contains_iff_mem_ids, hids]
      rw [checkAcyclic, checkAcyclic, hc]

/-- **The check finds the same fault with alike pages**, or none with both. -/
theorem check_congr (h : Forest.Alike page other) (policy : Bool) (e : Edit) :
    check page policy e = check other policy e := by
  cases e with
  | insert parent k tag =>
      simp only [check, checkNew_congr h, checkParent_congr h]
  | move id parent k =>
      simp only [check, target]
      rcases find_cases h id with ⟨hf, hf'⟩ | ⟨found, found', hf, hf', halike⟩
      · rw [hf, hf']
      · simp only [hf, hf', checkAcyclic_congr halike, checkParent_congr h]
  | remove id =>
      simp only [check, target]
      rcases find_cases h id with ⟨hf, hf'⟩ | ⟨found, found', hf, hf', _⟩
      · rw [hf, hf']
      · rw [hf, hf']
        rfl
  | setAttribute id name value =>
      simp only [check, target]
      rcases find_cases h id with ⟨hf, hf'⟩ | ⟨found, found', hf, hf', _⟩
      · rw [hf, hf']
      · rw [hf, hf']
        rfl
  | setText id text =>
      simp only [check, target]
      rcases find_cases h id with ⟨hf, hf'⟩ | ⟨found, found', hf, hf', halike⟩
      · rw [hf, hf']
      · simp only [hf, hf', halike.label.isText]
  | replacePage nodes => rfl

/-- **An edit makes of alike pages alike pages.** -/
theorem perform_congr (h : Forest.Alike page other) {e : Edit} (hp : perform page e = .ok page') :
    ∃ other', perform other e = .ok other' ∧ Forest.Alike page' other' := by
  cases e with
  | insert parent k tag => exact h.attach (.refl tag) hp
  | move id parent k =>
      obtain ⟨t, rest, hd, ha⟩ := perform_move hp
      obtain ⟨t', rest', hd', htt, hrest⟩ := h.detach hd
      obtain ⟨other', ha', halike⟩ := hrest.attach htt ha
      refine ⟨other', ?_, halike⟩
      simp only [perform, hd', ha']
  | remove id =>
      obtain ⟨t, hd⟩ := perform_remove hp
      obtain ⟨t', rest', hd', _, hrest⟩ := h.detach hd
      refine ⟨rest', ?_, hrest⟩
      rw [perform, hd']
      rfl
  | setAttribute id name value => exact h.modifyLabel (fun ha => ha.setAttribute name value) hp
  | setText id text => exact h.modifyLabel (fun ha => ha.setText text) hp
  | replacePage nodes =>
      cases hp
      exact ⟨page', rfl, .refl page'⟩

/-- What applying without the policy comes to. -/
theorem restore_eq_ok_iff (e : Edit) (page page' : Forest) :
    e.restore page = .ok page' ↔ check page false e = .ok () ∧ perform page e = .ok page' := by
  rw [restore]
  cases hc : check page false e with
  | error fault => simp
  | ok u => simp

theorem apply_eq_ok_iff (e : Edit) (page page' : Forest) :
    e.apply page = .ok page' ↔ check page true e = .ok () ∧ perform page e = .ok page' := by
  rw [apply]
  cases hc : check page true e with
  | error fault => simp
  | ok u => simp

/-- An edit that applies can be made again on the same page. -/
theorem restore_of_apply {e : Edit} (h : e.apply page = .ok page') :
    e.restore page = .ok page' := by
  obtain ⟨hc, hp⟩ := (apply_eq_ok_iff e page page').mp h
  exact (restore_eq_ok_iff e page page').mpr ⟨check_of_policy hc, hp⟩

theorem restore_congr (h : Forest.Alike page other) {e : Edit} (hp : e.restore page = .ok page') :
    ∃ other', e.restore other = .ok other' ∧ Forest.Alike page' other' := by
  obtain ⟨hc, hp⟩ := (restore_eq_ok_iff e page page').mp hp
  obtain ⟨other', hp', halike⟩ := perform_congr h hp
  have hc' := (check_congr h false e).symm.trans hc
  exact ⟨other', (restore_eq_ok_iff e other other').mpr ⟨hc', hp'⟩, halike⟩

/-- **Replaying edits makes of alike pages alike pages.** -/
theorem replay_congr (h : Forest.Alike page other) {es : List Edit}
    (hp : replay page es = .ok page') :
    ∃ other', replay other es = .ok other' ∧ Forest.Alike page' other' := by
  induction es generalizing page other with
  | nil =>
      cases hp
      exact ⟨other, rfl, h⟩
  | cons e es ih =>
      rw [replay] at hp
      cases hr : e.restore page with
      | error fault => rw [hr] at hp; cases hp
      | ok between =>
          rw [hr] at hp
          obtain ⟨between', hr', halike⟩ := restore_congr h hr
          obtain ⟨other', hp', halike'⟩ := ih halike hp
          exact ⟨other', by rw [replay, hr']; exact hp', halike'⟩

theorem replay_append {es fs : List Edit} (h : replay page es = .ok page') :
    replay page (es ++ fs) = replay page' fs := by
  induction es generalizing page with
  | nil =>
      cases h
      rfl
  | cons e es ih =>
      rw [List.cons_append, replay]
      rw [replay] at h
      cases hr : e.restore page with
      | error fault => rw [hr] at h; cases h
      | ok between =>
          rw [hr] at h
          exact ih h

end Edit

/-! ## 5. What is recorded -/

/-- The history with an edit recorded: in the open batch, or as a step of its own. -/
def History.note (h : History) (e inv : Edit) : History :=
  match h.batch with
  | some s => { h with batch := some (s.add e inv) }
  | none => h.push (.single e inv)

/-- **An edit on the page in place is made in full or not at all**: it fails and leaves the history
    and the page as they are, or it has an inverse, applies, and is recorded with its inverse. -/
theorem History.applyTo_cases (h : History) (e : Edit) (page : Forest) :
    (∃ fault, h.applyTo e page = (.error fault, h, page)) ∨
      ∃ inv page', e.inverse page = .ok inv ∧ e.apply page = .ok page' ∧
        h.applyTo e page = (.ok (), h.note e inv, page') := by
  rw [applyTo, Edit.validate, Edit.applyTo]
  cases hc : e.check page true with
  | error fault => exact Or.inl ⟨fault, rfl⟩
  | ok u =>
      simp only
      cases hi : e.inverse page with
      | error fault => exact Or.inl ⟨fault, rfl⟩
      | ok inv =>
          obtain ⟨page', hp⟩ := Edit.exists_perform hc
          refine Or.inr ⟨inv, page', rfl, (Edit.apply_eq_ok_iff e page page').mpr ⟨hc, hp⟩, ?_⟩
          simp only [Edit.carryOut_of_perform hp, note]
          cases h.batch with
          | none => rfl
          | some s => rfl

/-- An edit that is made has an inverse, applies, and is recorded with its inverse. -/
theorem History.apply_eq_ok {h h' : History} {e : Edit} {page page' : Forest}
    (ha : h.apply e page = .ok (h', page')) :
    ∃ inv, e.inverse page = .ok inv ∧ e.apply page = .ok page' ∧ h' = h.note e inv := by
  rw [apply] at ha
  rcases h.applyTo_cases e page with ⟨fault, hf⟩ | ⟨inv, made, hi, hp, hmade⟩
  · rw [hf] at ha
    cases ha
  · rw [hmade] at ha
    cases ha
    exact ⟨inv, hi, hp, rfl⟩

end Pagewright
