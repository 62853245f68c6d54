import Pagewright.Proofs.Page.Walk

/-!
# Places on a page

A place is a list of nodes on the page, given by the path of the node above it (`Forest.listAt`;
the top level for the empty path), and a number in it. The node at a path reads off its place.

* `find_of_pathOf`, `pathOf_of_find` -- what the searches give: a node with the id at the path, and
  the match with the node above the place;
* `mem_ids_of_nodeAt` -- an id that is read at a path is on the page;
* `eq_of_ident_eq` -- **where ids are distinct, an id is at one path alone**, so the search gives
  the path of any node with the id (`pathOf_of_nodeAt`) and finds it (`find_of_nodeAt`);
* `Forest.Every` -- a property that every node of the page has, node by node (`every_cons`).
-/

namespace Pagewright

/-! ## 1. Reading -/

/-- The children of the node at a path, or the top level. -/
def Forest.listAt : Forest → List Nat → Option (List Node)
  | ns, [] => some ns
  | ns, i :: q => ns[i]?.bind fun n => Forest.listAt n.children q

namespace Forest

@[simp] theorem listAt_nil (ns : Forest) : ns.listAt [] = some ns := by rw [listAt]

theorem listAt_cons (ns : Forest) (i : Nat) (q : List Nat) :
    ns.listAt (i :: q) = ns[i]?.bind fun n => listAt n.children q := by rw [listAt]

theorem nodeAt_nil (ns : Forest) : ns.nodeAt [] = none := by rw [nodeAt]

theorem nodeAt_singleton (ns : Forest) (i : Nat) : ns.nodeAt [i] = ns[i]? := by rw [nodeAt]

theorem nodeAt_cons_cons (ns : Forest) (i j : Nat) (p : List Nat) :
    ns.nodeAt (i :: j :: p) = ns[i]?.bind fun n => nodeAt n.children (j :: p) := by
  rw [nodeAt]
  cases ns[i]? with
  | none => rfl
  | some n => rfl

/-- A path that leads to a node has a number in it. -/
theorem ne_nil_of_nodeAt {ns : Forest} {p : List Nat} {n : Node} (h : ns.nodeAt p = some n) :
    p ≠ [] := by
  intro e
  rw [e, nodeAt_nil] at h
  cases h

theorem nodeAt_of_nil (p : List Nat) : nodeAt [] p = none := by
  rcases p with _ | ⟨i, _ | ⟨j, p⟩⟩
  · rw [nodeAt_nil]
  · rw [nodeAt_singleton, List.getElem?_nil]
  · rw [nodeAt_cons_cons, List.getElem?_nil, Option.bind_none]

/-- The node at a path is the one of its number in its list. -/
theorem nodeAt_concat (ns : Forest) (q : List Nat) (i : Nat) :
    ns.nodeAt (q ++ [i]) = (ns.listAt q).bind (·[i]?) := by
  induction q generalizing ns with
  | nil => rw [List.nil_append, nodeAt_singleton, listAt_nil, Option.bind_some]
  | cons j q ih =>
      obtain ⟨k, p, hp⟩ : ∃ k p, q ++ [i] = k :: p := by
        cases q with
        | nil => exact ⟨i, [], rfl⟩
        | cons k q => exact ⟨k, q ++ [i], rfl⟩
      rw [List.cons_append, hp, nodeAt_cons_cons, listAt_cons, ← hp]
      cases ns[j]? with
      | none => rfl
      | some n => exact ih n.children

/-- The list below a node is the list at its path. -/
theorem listAt_of_nodeAt {ns : Forest} {p : List Nat} {n : Node} (h : ns.nodeAt p = some n) :
    ns.listAt p = some n.children := by
  induction p generalizing ns with
  | nil => rw [nodeAt_nil] at h; cases h
  | cons i p ih =>
      cases p with
      | nil =>
          rw [nodeAt_singleton] at h
          rw [listAt_cons, h, Option.bind_some, listAt_nil]
      | cons j p =>
          rw [nodeAt_cons_cons] at h
          rw [listAt_cons]
          obtain ⟨m, hm, hn⟩ := Option.bind_eq_some_iff.mp h
          rw [hm, Option.bind_some]
          exact ih hn

/-- A list below the top level is the list of a node. -/
theorem nodeAt_of_listAt {ns : Forest} {i : Nat} {q : List Nat} {l : List Node}
    (h : ns.listAt (i :: q) = some l) : ∃ n, ns.nodeAt (i :: q) = some n ∧ n.children = l := by
  induction q generalizing ns i with
  | nil =>
      rw [listAt_cons] at h
      obtain ⟨n, hn, hl⟩ := Option.bind_eq_some_iff.mp h
      rw [listAt_nil] at hl
      exact ⟨n, by rw [nodeAt_singleton, hn], Option.some.inj hl⟩
  | cons j q ih =>
      rw [listAt_cons] at h
      obtain ⟨n, hn, hl⟩ := Option.bind_eq_some_iff.mp h
      rw [nodeAt_cons_cons, hn, Option.bind_some]
      exact ih hl

theorem exists_concat_of_nodeAt {ns : Forest} {p : List Nat} {n : Node}
    (h : ns.nodeAt p = some n) :
    ∃ q i l, p = q ++ [i] ∧ ns.listAt q = some l ∧ l[i]? = some n := by
  rcases List.eq_nil_or_concat p with rfl | ⟨q, i, rfl⟩
  · rw [nodeAt_nil] at h
    cases h
  · rw [List.concat_eq_append, nodeAt_concat] at h
    obtain ⟨l, hl, hi⟩ := Option.bind_eq_some_iff.mp h
    exact ⟨q, i, l, List.concat_eq_append, hl, hi⟩

/-- A node after the first of a list is a node of the rest. -/
theorem nodeAt_succ (n : Node) (ns : Forest) (i : Nat) (p : List Nat) :
    nodeAt (n :: ns) ((i + 1) :: p) = nodeAt ns (i :: p) := by
  cases p with
  | nil => rw [nodeAt_singleton, nodeAt_singleton, List.getElem?_cons_succ]
  | cons j p => rw [nodeAt_cons_cons, nodeAt_cons_cons, List.getElem?_cons_succ]

/-- A node below the first of a list is a node of its children. -/
theorem nodeAt_zero (n : Node) (ns : Forest) (i : Nat) (p : List Nat) :
    nodeAt (n :: ns) (0 :: i :: p) = nodeAt n.children (i :: p) := by
  rw [nodeAt_cons_cons, List.getElem?_cons_zero, Option.bind_some]

/-- A node of the page is the first, or below it, or among the others. -/
theorem nodeAt_cons_cases {f n : Node} {ns : Forest} {p : List Nat}
    (h : nodeAt (f :: ns) p = some n) :
    (p = [0] ∧ n = f) ∨ (∃ j r, p = 0 :: j :: r ∧ nodeAt f.children (j :: r) = some n) ∨
      ∃ j r, p = (j + 1) :: r ∧ nodeAt ns (j :: r) = some n := by
  cases p with
  | nil => rw [nodeAt_nil] at h; cases h
  | cons i p =>
      cases i with
      | succ i =>
          rw [nodeAt_succ] at h
          exact Or.inr (Or.inr ⟨i, p, rfl, h⟩)
      | zero =>
          cases p with
          | nil =>
              rw [nodeAt_singleton, List.getElem?_cons_zero] at h
              exact Or.inl ⟨rfl, (Option.some.inj h).symm⟩
          | cons j p =>
              rw [nodeAt_zero] at h
              exact Or.inr (Or.inl ⟨j, p, rfl, h⟩)

/-! ## 2. What the searches give -/

/-- What is found at a path in a list that stands below a parent from number `k` on: a node with
    the id, the node above its list, and its number there. -/
theorem found_of_pathFrom (id : String) (ns : Forest) :
    ∀ (k : Nat) (p : List Nat), pathFrom id k ns = some p →
      ∃ j r n q i, p = (k + j) :: r ∧ j :: r = q ++ [i] ∧ nodeAt ns (j :: r) = some n ∧
        n.ident = some id ∧ ∀ parent, findFrom id parent k ns =
          some ⟨n, (nodeAt ns q).or parent, if q = [] then k + i else i⟩ := by
  induction ns using Forest.induct with
  | nil =>
      intro k p h
      rw [pathFrom_nil] at h
      cases h
  | cons n ns below rest =>
      intro k p h
      rw [pathFrom_cons] at h
      by_cases hid : n.ident = some id
      · rw [if_pos hid] at h
        cases h
        refine ⟨0, [], n, [], 0, rfl, rfl, nodeAt_singleton _ _, hid, fun parent => ?_⟩
        rw [findFrom_cons, if_pos hid, nodeAt_nil, Option.none_or, if_pos rfl, Nat.add_zero]
      · rw [if_neg hid] at h
        rcases Option.or_eq_some_iff.mp h with h | ⟨hnone, h⟩
        · -- below the first node: its number goes before the path
          obtain ⟨p', hp', rfl⟩ := Option.map_eq_some_iff.mp h
          obtain ⟨j, r, m, q, i, rfl, hq, hm, hmid, hf⟩ := below 0 p' hp'
          rw [Nat.zero_add]
          refine ⟨0, j :: r, m, 0 :: q, i, rfl, by rw [hq, List.cons_append],
            by rw [nodeAt_zero, hm], hmid, fun parent => ?_⟩
          rw [findFrom_cons, if_neg hid, hf (some n), Option.some_or,
            if_neg (List.cons_ne_nil 0 q)]
          cases q with
          | nil =>
              rw [nodeAt_singleton, List.getElem?_cons_zero, nodeAt_nil, Option.none_or,
                Option.some_or, if_pos rfl, Nat.zero_add]
          | cons a q =>
              rw [hq, nodeAt_concat] at hm
              obtain ⟨l, hl, _⟩ := Option.bind_eq_some_iff.mp hm
              obtain ⟨u, hu, _⟩ := nodeAt_of_listAt hl
              rw [if_neg (List.cons_ne_nil a q), nodeAt_zero, hu, Option.some_or, Option.some_or]
        · -- among the later nodes: every number in this list is one greater
          obtain ⟨j, r, m, q, i, rfl, hq, hm, hmid, hf⟩ := rest (k + 1) p h
          have hbelow : id ∉ ids n.children :=
            (pathFrom_eq_none_iff id n.children 0).mp (Option.map_eq_none_iff.mp hnone)
          have hfind : findFrom id (some n) 0 n.children = none :=
            (findFrom_eq_none_iff id n.children (some n) 0).mpr hbelow
          cases q with
          | nil =>
              obtain ⟨rfl, rfl⟩ := List.cons_eq_cons.mp hq
              refine ⟨j + 1, [], m, [], j + 1, by rw [Nat.add_right_comm, Nat.add_assoc], rfl,
                by rw [nodeAt_succ, hm], hmid, fun parent => ?_⟩
              rw [findFrom_cons, if_neg hid, hfind, Option.none_or, hf parent, nodeAt_nil,
                nodeAt_nil, if_pos rfl, if_pos rfl, Nat.add_right_comm, Nat.add_assoc]
          | cons a q =>
              rw [List.cons_append] at hq
              obtain ⟨rfl, rfl⟩ := List.cons_eq_cons.mp hq
              refine ⟨j + 1, q ++ [i], m, (j + 1) :: q, i,
                by rw [Nat.add_right_comm, Nat.add_assoc], rfl, by rw [nodeAt_succ, hm], hmid,
                fun parent => ?_⟩
              rw [findFrom_cons, if_neg hid, hfind, Option.none_or, hf parent, nodeAt_succ,
                if_neg (List.cons_ne_nil _ q), if_neg (List.cons_ne_nil _ q)]

/-- **A path that the search gives leads to a node with the id**, and the match names the node
    above it and its number. -/
theorem find_of_pathOf {ns : Forest} {id : String} {p : List Nat} (h : ns.pathOf id = some p) :
    ∃ n q i, p = q ++ [i] ∧ ns.nodeAt p = some n ∧ n.ident = some id ∧
      ns.find id = some ⟨n, ns.nodeAt q, i⟩ := by
  obtain ⟨j, r, n, q, i, rfl, hq, hn, hid, hf⟩ := found_of_pathFrom id ns 0 p h
  rw [Nat.zero_add]
  refine ⟨n, q, i, hq, hn, hid, ?_⟩
  rw [find, hf none, Option.or_none]
  by_cases hnil : q = []
  · rw [if_pos hnil, Nat.zero_add]
  · rw [if_neg hnil]

theorem nodeAt_of_pathOf {ns : Forest} {id : String} {p : List Nat} (h : ns.pathOf id = some p) :
    ∃ n, ns.nodeAt p = some n ∧ n.ident = some id := by
  obtain ⟨n, _, _, _, hn, hid, _⟩ := find_of_pathOf h
  exact ⟨n, hn, hid⟩

theorem pathOf_eq_none_iff (ns : Forest) (id : String) : ns.pathOf id = none ↔ id ∉ ids ns :=
  pathFrom_eq_none_iff id ns 0

theorem exists_pathOf {ns : Forest} {id : String} (h : id ∈ ids ns) :
    ∃ p, ns.pathOf id = some p := by
  cases hp : ns.pathOf id with
  | none => exact absurd h ((pathOf_eq_none_iff ns id).mp hp)
  | some p => exact ⟨p, rfl⟩

/-- A match comes with the path that leads to it. -/
theorem pathOf_of_find {ns : Forest} {id : String} {found : Match} (h : ns.find id = some found) :
    ∃ q, ns.pathOf id = some (q ++ [found.position]) ∧
      ns.nodeAt (q ++ [found.position]) = some found.node ∧ found.node.ident = some id ∧
      found.parent = ns.nodeAt q := by
  obtain ⟨p, hp⟩ := exists_pathOf (mem_ids_of_find h)
  obtain ⟨n, q, i, rfl, hn, hnid, hf⟩ := find_of_pathOf hp
  rw [h] at hf
  cases hf
  exact ⟨q, hp, hn, hnid, rfl⟩

/-! ## 3. Distinct ids -/

/-- The labels of a node at a path are labels of the page. -/
theorem labels_subset_of_nodeAt {ns : Forest} {p : List Nat} {n : Node}
    (h : ns.nodeAt p = some n) : ∀ l ∈ labels [n], l ∈ labels ns := by
  induction p generalizing ns with
  | nil => rw [nodeAt_nil] at h; cases h
  | cons i p ih =>
      intro l hl
      cases p with
      | nil =>
          rw [nodeAt_singleton] at h
          obtain ⟨a, b, rfl⟩ := List.append_of_mem (List.mem_of_getElem? h)
          rw [← List.singleton_append, labels_append, labels_append]
          exact List.mem_append_right _ (List.mem_append_left _ hl)
      | cons j p =>
          rw [nodeAt_cons_cons] at h
          obtain ⟨m, hm, hn⟩ := Option.bind_eq_some_iff.mp h
          obtain ⟨a, b, rfl⟩ := List.append_of_mem (List.mem_of_getElem? hm)
          rw [labels_append, labels_cons]
          exact List.mem_append_right _
            (List.mem_cons_of_mem _ (List.mem_append_left _ (ih hn l hl)))

theorem label_mem_of_nodeAt {ns : Forest} {p : List Nat} {n : Node} (h : ns.nodeAt p = some n) :
    n.label ∈ labels ns :=
  labels_subset_of_nodeAt h n.label (by rw [labels_cons]; exact List.mem_cons_self)

theorem mem_ids_of_nodeAt {ns : Forest} {p : List Nat} {n : Node} {id : String}
    (h : ns.nodeAt p = some n) (hid : n.ident = some id) : id ∈ ids ns :=
  List.mem_filterMap.mpr ⟨n.label, label_mem_of_nodeAt h, hid⟩

/-- **Where ids are distinct, an id is at one path alone.** -/
theorem eq_of_ident_eq {ns : Forest} {id : String} (hd : (ids ns).Nodup) {p q : List Nat}
    {n m : Node} (hn : ns.nodeAt p = some n) (hnid : n.ident = some id)
    (hm : ns.nodeAt q = some m) (hmid : m.ident = some id) : p = q := by
  induction ns using Forest.induct generalizing p q with
  | nil =>
      rw [nodeAt_of_nil] at hn
      cases hn
  | cons f ns below rest =>
      obtain ⟨hfirst, hbelow, hrest, hapart⟩ := nodup_ids_cons.mp hd
      -- two nodes with the id are both the first, both below it, or both among the others
      rcases nodeAt_cons_cases hn with ⟨rfl, rfl⟩ | ⟨j, r, rfl, hn'⟩ | ⟨j, r, rfl, hn'⟩ <;>
        rcases nodeAt_cons_cases hm with ⟨rfl, rfl⟩ | ⟨j', r', rfl, hm'⟩ | ⟨j', r', rfl, hm'⟩
      · rfl
      · exact absurd (mem_ids_of_nodeAt hm' hmid) (hfirst id hnid).1
      · exact absurd (mem_ids_of_nodeAt hm' hmid) (hfirst id hnid).2
      · exact absurd (mem_ids_of_nodeAt hn' hnid) (hfirst id hmid).1
      · rw [below hbelow hn' hm']
      · exact absurd (mem_ids_of_nodeAt hm' hmid) (hapart id (mem_ids_of_nodeAt hn' hnid))
      · exact absurd (mem_ids_of_nodeAt hn' hnid) (hfirst id hmid).2
      · exact absurd (mem_ids_of_nodeAt hn' hnid) (hapart id (mem_ids_of_nodeAt hm' hmid))
      · obtain ⟨rfl, rfl⟩ := List.cons_eq_cons.mp (rest hrest hn' hm')
        rfl

/-- **Where ids are distinct, the search gives the path of any node with the id.** -/
theorem pathOf_of_nodeAt {ns : Forest} {id : String} (hd : (ids ns).Nodup) {p : List Nat}
    {n : Node} (hn : ns.nodeAt p = some n) (hid : n.ident = some id) :
    ns.pathOf id = some p := by
  obtain ⟨p', hp'⟩ := exists_pathOf (mem_ids_of_nodeAt hn hid)
  obtain ⟨m, hm, hmid⟩ := nodeAt_of_pathOf hp'
  rw [hp', eq_of_ident_eq hd hm hmid hn hid]

/-- **Where ids are distinct, the search finds any node that has one**, with the node above it. -/
theorem find_of_nodeAt {ns : Forest} {id : String} (hd : (ids ns).Nodup) {p : List Nat} {n : Node}
    (hn : ns.nodeAt p = some n) (hid : n.ident = some id) :
    ∃ k, ns.find id = some ⟨n, ns.nodeAt p.dropLast, k⟩ := by
  obtain ⟨m, q, k, rfl, hm, _, hf⟩ := find_of_pathOf (pathOf_of_nodeAt hd hn hid)
  obtain rfl := Option.some.inj (hn.symm.trans hm)
  rw [List.dropLast_concat]
  exact ⟨k, hf⟩

/-! ## 4. What every node has -/

/-- Every node of the page has the property. -/
def Every (P : Node → Prop) (ns : Forest) : Prop := ∀ p n, ns.nodeAt p = some n → P n

variable {P : Node → Prop}

@[simp] theorem every_nil : Every P [] := by
  intro p n hn
  rw [nodeAt_of_nil] at hn
  cases hn

/-- The property on a page, node by node. -/
@[simp] theorem every_cons {n : Node} {ns : Forest} :
    Every P (n :: ns) ↔ P n ∧ Every P n.children ∧ Every P ns := by
  constructor
  · intro h
    refine ⟨h [0] n rfl, fun p m hm => ?_, fun p m hm => ?_⟩
    · cases p with
      | nil => rw [nodeAt_nil] at hm; cases hm
      | cons i p => exact h (0 :: i :: p) m (by rw [nodeAt_zero, hm])
    · cases p with
      | nil => rw [nodeAt_nil] at hm; cases hm
      | cons i p => exact h ((i + 1) :: p) m (by rw [nodeAt_succ, hm])
  · rintro ⟨hn, hbelow, hrest⟩ p m hm
    rcases nodeAt_cons_cases hm with ⟨_, rfl⟩ | ⟨j, r, _, hm⟩ | ⟨j, r, _, hm⟩
    · exact hn
    · exact hbelow (j :: r) m hm
    · exact hrest (j :: r) m hm

end Forest

end Pagewright
