import Mathlib.Data.List.Perm.Basic
import Pagewright.Editor.Edit
import Pagewright.Proofs.Page.Place

/-!
# Taking out and putting in

What the three changes of a page do at a place: `takeAt` takes a node out, `modifyChildrenAt`
changes a list of children, `modifyAt` changes one node.

* Each has one equation for a path that goes on below a node (`takeAt_cons`,
  `modifyChildrenAt_cons`, `modifyAt_cons_cons`), and succeeds exactly where the path leads to a
  list or a node;
* `pathOf_modifyChildrenAt` -- the search finds what was put in under a new id;
* `labels_takeAt`, `labels_modifyChildrenAt`, `labels_modifyAt` -- **the labels of the page are
  kept**, but for those that are taken out, put in or changed;
* `modifyChildrenAt_takeAt` -- **what was taken out goes back**: put at its place, it gives the page
  from which it was taken; a change that leaves its node leaves the page (`modifyAt_self`), and two
  changes of one node are one (`modifyAt_modifyAt`);
* `exists_nodeAt_of_takeAt` -- every node that stays was there before, and its list of children is
  the one that it had, thinned out (`Thinned`); none becomes empty.
-/

namespace Pagewright

/-! ## 1. One step down -/

/-- A node with these children, and without a list where there are none. -/
def Node.ofRest (l : Label) (rest : List Node) : Node :=
  ⟨l, if rest.isEmpty then none else some rest⟩

@[simp] theorem Node.label_ofRest (l : Label) (rest : List Node) : (Node.ofRest l rest).label = l :=
  rfl

@[simp] theorem Node.children_ofRest (l : Label) (rest : List Node) :
    (Node.ofRest l rest).children = rest := by
  cases rest with
  | nil => rfl
  | cons n ns => rfl

/-- A node that has children has a list of them. -/
theorem Node.eq_mk_of_children {n : Node} (h : n.children ≠ []) :
    (⟨n.label, some n.children⟩ : Node) = n := by
  rcases n with ⟨l, _ | cs⟩
  · exact absurd rfl h
  · rfl

/-- A list of children that is absent, or has some, is the one that the children leave. -/
theorem Node.ofRest_children {n : Node} (h : n.list ≠ some []) :
    Node.ofRest n.label n.children = n := by
  rcases n with ⟨l, _ | _ | ⟨c, cs⟩⟩
  · rfl
  · exact absurd rfl h
  · rfl

/-- A node that is given no list of children has none that is empty. -/
theorem Node.list_ofRest_ne (l : Label) (rest : List Node) :
    (Node.ofRest l rest).list ≠ some [] := by
  cases rest with
  | nil => exact (Option.some_ne_none []).symm
  | cons n ns => exact fun h => List.cons_ne_nil n ns (Option.some.inj h)

namespace Forest

theorem takeAt_singleton (ns : Forest) (i : Nat) :
    ns.takeAt [i] = ns[i]?.map fun n => (n, ns.eraseIdx i) := by
  rw [takeAt]
  cases ns[i]? with
  | none => rfl
  | some n => rfl

theorem takeAt_cons_cons (ns : Forest) (i j : Nat) (p : List Nat) :
    ns.takeAt (i :: j :: p) = ns[i]?.bind fun n => (takeAt n.children (j :: p)).map fun t =>
      (t.1, ns.set i (.ofRest n.label t.2)) := by
  rw [takeAt]
  cases ns[i]? with
  | none => rfl
  | some n =>
      rw [Option.bind_some]
      simp only
      cases takeAt n.children (j :: p) with
      | none => rfl
      | some t => rfl

theorem takeAt_cons (ns : Forest) (i : Nat) (q : List Nat) (k : Nat) :
    ns.takeAt (i :: (q ++ [k])) = ns[i]?.bind fun n => (takeAt n.children (q ++ [k])).map fun t =>
      (t.1, ns.set i (.ofRest n.label t.2)) := by
  cases q with
  | nil => exact takeAt_cons_cons ns i k []
  | cons j q => exact takeAt_cons_cons ns i j (q ++ [k])

theorem modifyAt_singleton (f : Node → Node) (ns : Forest) (i : Nat) :
    ns.modifyAt f [i] = ns[i]?.map fun n => ns.set i (f n) := by
  rw [modifyAt]
  cases ns[i]? with
  | none => rfl
  | some n => rfl

theorem modifyAt_nil (f : Node → Node) (j : Nat) (p : List Nat) :
    modifyAt f [] (j :: p) = none := by
  cases p with
  | nil => rw [modifyAt_singleton, List.getElem?_nil, Option.map_none]
  | cons k p => rw [modifyAt, List.getElem?_nil]

theorem modifyAt_cons_cons (f : Node → Node) (ns : Forest) (i j : Nat) (p : List Nat) :
    ns.modifyAt f (i :: j :: p) = ns[i]?.bind fun n => (modifyAt f n.children (j :: p)).map
      fun cs => ns.set i ⟨n.label, some cs⟩ := by
  rw [modifyAt]
  cases ns[i]? with
  | none => rfl
  | some n =>
      rw [Option.bind_some]
      rcases n with ⟨l, _ | cs⟩
      · rw [Node.children_mk, Option.getD_none, modifyAt_nil]
        rfl
      · rw [Node.children_mk, Option.getD_some]
        simp only [Node.list_mk]
        cases modifyAt f cs (j :: p) with
        | none => rfl
        | some ms => rfl

@[simp] theorem modifyChildrenAt_nil (f : List Node → List Node) (ns : Forest) :
    ns.modifyChildrenAt f [] = some (f ns) := by rw [modifyChildrenAt]

theorem modifyChildrenAt_cons (f : List Node → List Node) (ns : Forest) (i : Nat) (q : List Nat) :
    ns.modifyChildrenAt f (i :: q) = ns[i]?.bind fun n => (modifyChildrenAt f n.children q).map
      fun cs => ns.set i ⟨n.label, some cs⟩ := by
  cases q with
  | nil =>
      rw [modifyChildrenAt, modifyAt_singleton]
      cases ns[i]? with
      | none => rfl
      | some n => rw [Option.bind_some, modifyChildrenAt_nil]; rfl
  | cons j q => rw [modifyChildrenAt, modifyAt_cons_cons]; rfl

/-- A list parts at the node of a number: without the node its two parts are left, and another node
    can stand between them. -/
theorem exists_parts {l : List Node} {k : Nat} {t : Node} (h : l[k]? = some t) :
    ∃ before after, l = before ++ t :: after ∧ before.length = k ∧
      l.eraseIdx k = before ++ after ∧ ∀ m, l.set k m = before ++ m :: after := by
  obtain ⟨hk, rfl⟩ := List.getElem?_eq_some_iff.mp h
  refine ⟨l.take k, l.drop (k + 1), by simp, ?_, List.eraseIdx_eq_take_drop_succ l k, fun m => ?_⟩
  · rw [List.length_take, Nat.min_eq_left (Nat.le_of_lt hk)]
  · rw [List.set_eq_take_append_cons_drop, if_pos hk]

theorem eraseIdx_insertAt (k : Nat) (t : Node) (l : List Node) :
    (insertAt k t l)[min k l.length]? = some t ∧
      (insertAt k t l).eraseIdx (min k l.length) = l := by
  have hle : min k l.length ≤ l.length := Nat.min_le_right k l.length
  refine ⟨?_, List.eraseIdx_insertIdx_self t⟩
  rw [insertAt, List.getElem?_insertIdx_self, if_pos hle]

/-- A list parts where a node is put in. -/
theorem insertAt_parts (k : Nat) (t : Node) (l : List Node) :
    ∃ before after, l = before ++ after ∧ before.length = min k l.length ∧
      insertAt k t l = before ++ t :: after := by
  obtain ⟨hat, herase⟩ := eraseIdx_insertAt k t l
  obtain ⟨before, after, hparts, hlength, hleft, _⟩ := exists_parts hat
  exact ⟨before, after, herase.symm.trans hleft, hlength, hparts⟩

/-! ## 2. Where the changes succeed -/

theorem getElem?_set_self {ns : Forest} {i : Nat} {n : Node} (h : ns[i]? = some n) (m : Node) :
    (ns.set i m)[i]? = some m :=
  List.getElem?_set_self (List.getElem?_eq_some_iff.mp h).1

/-- A list that is there can be changed, and is changed. -/
theorem modifyChildrenAt_of_listAt (f : List Node → List Node) {ns : Forest} {q : List Nat}
    {l : List Node} (h : ns.listAt q = some l) :
    ∃ ms, ns.modifyChildrenAt f q = some ms ∧ ms.listAt q = some (f l) := by
  induction q generalizing ns with
  | nil =>
      obtain rfl := Option.some.inj ((listAt_nil ns).symm.trans h)
      exact ⟨f ns, modifyChildrenAt_nil f ns, listAt_nil _⟩
  | cons i q ih =>
      rw [listAt_cons] at h
      obtain ⟨n, hn, hl⟩ := Option.bind_eq_some_iff.mp h
      obtain ⟨cs, hcs, hat⟩ := ih hl
      refine ⟨ns.set i ⟨n.label, some cs⟩, ?_, ?_⟩
      · rw [modifyChildrenAt_cons, hn, Option.bind_some, hcs, Option.map_some]
      · rw [listAt_cons, getElem?_set_self hn, Option.bind_some, Node.children_mk,
          Option.getD_some]
        exact hat

/-- A node that is there can be taken out; the list that it leaves is without it. -/
theorem takeAt_of_listAt {ns : Forest} {q : List Nat} {l : List Node} {k : Nat} {t : Node}
    (h : ns.listAt q = some l) (hk : l[k]? = some t) :
    ∃ rest, ns.takeAt (q ++ [k]) = some (t, rest) ∧ rest.listAt q = some (l.eraseIdx k) := by
  induction q generalizing ns with
  | nil =>
      obtain rfl := Option.some.inj ((listAt_nil ns).symm.trans h)
      refine ⟨ns.eraseIdx k, ?_, listAt_nil _⟩
      rw [List.nil_append, takeAt_singleton, hk, Option.map_some]
  | cons i q ih =>
      rw [listAt_cons] at h
      obtain ⟨n, hn, hl⟩ := Option.bind_eq_some_iff.mp h
      obtain ⟨rest, hrest, hat⟩ := ih hl
      refine ⟨ns.set i (.ofRest n.label rest), ?_, ?_⟩
      · rw [List.cons_append, takeAt_cons, hn, Option.bind_some, hrest, Option.map_some]
      · rw [listAt_cons, getElem?_set_self hn, Option.bind_some, Node.children_ofRest]
        exact hat

/-- **The search finds what was put in**, where no other node has its id. -/
theorem pathOf_modifyChildrenAt {ns ms : Forest} {q : List Nat} {l : List Node} {k : Nat}
    {t : Node} {id : String} (hid : t.ident = some id) (hnew : id ∉ ids ns)
    (hl : ns.listAt q = some l) (h : ns.modifyChildrenAt (insertAt k t) q = some ms) :
    ms.pathOf id = some (q ++ [min k l.length]) := by
  induction q generalizing ns ms with
  | nil =>
      obtain rfl := Option.some.inj ((listAt_nil ns).symm.trans hl)
      obtain rfl := Option.some.inj ((modifyChildrenAt_nil _ ns).symm.trans h)
      obtain ⟨before, after, hparts, hlength, hput⟩ := insertAt_parts k t ns
      have hbefore : id ∉ ids before := fun hno => hnew (by
        rw [hparts, ids_append]
        exact List.mem_append_left _ hno)
      rw [hput, pathOf, pathFrom_append hbefore, pathFrom_cons, if_pos hid, hlength, Nat.zero_add,
        List.nil_append]
  | cons i q ih =>
      rw [listAt_cons] at hl
      obtain ⟨n, hn, hchildren⟩ := Option.bind_eq_some_iff.mp hl
      rw [modifyChildrenAt_cons, hn, Option.bind_some] at h
      obtain ⟨cs, hcs, rfl⟩ := Option.map_eq_some_iff.mp h
      obtain ⟨a, b, rfl, hlength, _, hset⟩ := exists_parts hn
      rw [ids_append, List.mem_append, mem_ids_cons, not_or, not_or, not_or] at hnew
      obtain ⟨hbefore, hown, hbelow, _⟩ := hnew
      have hpath : pathFrom id 0 cs = some (q ++ [min k l.length]) := ih hbelow hchildren hcs
      have hown' : (⟨n.label, some cs⟩ : Node).ident ≠ some id := hown
      rw [hset, pathOf, pathFrom_append hbefore, pathFrom_cons, if_neg hown', Node.children_mk,
        Option.getD_some, hpath, hlength, Nat.zero_add, Option.map_some, Option.some_or,
        List.cons_append]

theorem takeAt_of_nodeAt {ns : Forest} {p : List Nat} {t : Node} (h : ns.nodeAt p = some t) :
    ∃ rest, ns.takeAt p = some (t, rest) := by
  obtain ⟨q, k, l, rfl, hl, hk⟩ := exists_concat_of_nodeAt h
  obtain ⟨rest, hrest, _⟩ := takeAt_of_listAt hl hk
  exact ⟨rest, hrest⟩

/-- A node that is taken out stood at the path. -/
theorem nodeAt_of_takeAt {ns rest : Forest} {p : List Nat} {t : Node}
    (h : ns.takeAt p = some (t, rest)) : ns.nodeAt p = some t := by
  induction p generalizing ns rest with
  | nil => rw [takeAt] at h; cases h
  | cons i p ih =>
      cases p with
      | nil =>
          rw [takeAt_singleton] at h
          obtain ⟨n, hn, he⟩ := Option.map_eq_some_iff.mp h
          cases he
          rw [nodeAt_singleton, hn]
      | cons j p =>
          rw [takeAt_cons_cons] at h
          obtain ⟨n, hn, h⟩ := Option.bind_eq_some_iff.mp h
          obtain ⟨⟨u, rest'⟩, hu, he⟩ := Option.map_eq_some_iff.mp h
          cases he
          rw [nodeAt_cons_cons, hn, Option.bind_some]
          exact ih hu

/-- A node that is there can be changed, and is changed. -/
theorem modifyAt_of_nodeAt (f : Node → Node) {ns : Forest} {p : List Nat} {n : Node}
    (h : ns.nodeAt p = some n) : ∃ ms, ns.modifyAt f p = some ms ∧ ms.nodeAt p = some (f n) := by
  induction p generalizing ns with
  | nil => rw [nodeAt_nil] at h; cases h
  | cons i p ih =>
      cases p with
      | nil =>
          rw [nodeAt_singleton] at h
          refine ⟨ns.set i (f n), ?_, ?_⟩
          · rw [modifyAt_singleton, h, Option.map_some]
          · rw [nodeAt_singleton, getElem?_set_self h]
      | cons j p =>
          rw [nodeAt_cons_cons] at h
          obtain ⟨m, hm, hn⟩ := Option.bind_eq_some_iff.mp h
          obtain ⟨cs, hcs, hat⟩ := ih hn
          refine ⟨ns.set i ⟨m.label, some cs⟩, ?_, ?_⟩
          · rw [modifyAt_cons_cons, hm, Option.bind_some, hcs, Option.map_some]
          · rw [nodeAt_cons_cons, getElem?_set_self hm, Option.bind_some, Node.children_mk,
              Option.getD_some]
            exact hat

/-- Taking a node out below another leaves the label of the other. -/
theorem label_of_takeAt {ns : Forest} {i : Nat} {q : List Nat} {k : Nat} {t n : Node}
    {rest : Forest}
    (h : ns.takeAt (i :: q ++ [k]) = some (t, rest)) (hn : ns.nodeAt (i :: q) = some n) :
    ∃ m, rest.nodeAt (i :: q) = some m ∧ m.label = n.label := by
  induction q generalizing ns i rest with
  | nil =>
      rw [nodeAt_singleton] at hn
      rw [List.cons_append, takeAt_cons, hn, Option.bind_some] at h
      obtain ⟨u, _, hu⟩ := Option.map_eq_some_iff.mp h
      cases hu
      exact ⟨.ofRest n.label u.2, by rw [nodeAt_singleton, getElem?_set_self hn], rfl⟩
  | cons j q ih =>
      rw [nodeAt_cons_cons] at hn
      obtain ⟨m, hm, hn⟩ := Option.bind_eq_some_iff.mp hn
      rw [List.cons_append, takeAt_cons, hm, Option.bind_some] at h
      obtain ⟨⟨_, rest'⟩, hu, he⟩ := Option.map_eq_some_iff.mp h
      cases he
      obtain ⟨m', hm', hl⟩ := ih hu hn
      exact ⟨m', by rw [nodeAt_cons_cons, getElem?_set_self hm, Option.bind_some,
        Node.children_ofRest, hm'], hl⟩

/-! ## 3. Labels -/

/-- A node that is changed below, in a list: what its children gain, the page gains. -/
theorem labels_set {ns : Forest} {i : Nat} {n m : Node} (h : ns[i]? = some n)
    (hl : m.label = n.label) {more : List Label}
    (hc : (labels m.children).Perm (more ++ labels n.children)) :
    (labels (ns.set i m)).Perm (more ++ labels ns) := by
  induction ns generalizing i with
  | nil => rw [List.getElem?_nil] at h; cases h
  | cons f ns ih =>
      cases i with
      | zero =>
          obtain rfl := Option.some.inj (List.getElem?_cons_zero.symm.trans h)
          rw [List.set_cons_zero, labels_cons, labels_cons, hl]
          have h₁ : (labels m.children ++ labels ns).Perm
              (more ++ (labels f.children ++ labels ns)) := by
            rw [← List.append_assoc]
            exact hc.append_right _
          exact (h₁.cons f.label).trans List.perm_middle.symm
      | succ i =>
          rw [List.getElem?_cons_succ] at h
          rw [List.set_cons_succ, labels_cons, labels_cons]
          have h₁ : (labels f.children ++ labels (ns.set i m)).Perm
              (more ++ (labels f.children ++ labels ns)) :=
            ((ih h).append_left _).trans (List.perm_append_comm_assoc _ _ _)
          exact (h₁.cons f.label).trans List.perm_middle.symm

/-- **What a list of children gains, the page gains.** -/
theorem labels_modifyChildrenAt {f : List Node → List Node} {ns ms : Forest} {q : List Nat}
    {l : List Node} (hl : ns.listAt q = some l) (h : ns.modifyChildrenAt f q = some ms)
    {more : List Label} (hf : (labels (f l)).Perm (more ++ labels l)) :
    (labels ms).Perm (more ++ labels ns) := by
  induction q generalizing ns ms with
  | nil =>
      rw [listAt_nil] at hl
      cases hl
      rw [modifyChildrenAt_nil] at h
      cases h
      exact hf
  | cons i q ih =>
      rw [listAt_cons] at hl
      obtain ⟨n, hn, hl⟩ := Option.bind_eq_some_iff.mp hl
      rw [modifyChildrenAt_cons, hn, Option.bind_some] at h
      obtain ⟨cs, hcs, rfl⟩ := Option.map_eq_some_iff.mp h
      exact labels_set (m := ⟨n.label, some cs⟩) hn rfl (ih hl hcs)

theorem labels_insertAt (k : Nat) (t : Node) (l : List Node) :
    (labels (insertAt k t l)).Perm (labels [t] ++ labels l) := by
  rw [← labels_append]
  exact labels_perm (List.perm_insertIdx t l (Nat.min_le_right k l.length))

/-- **Taking a node out keeps every label**, on one side or the other. -/
theorem labels_takeAt {ns rest : Forest} {p : List Nat} {t : Node}
    (h : ns.takeAt p = some (t, rest)) : (labels ns).Perm (labels [t] ++ labels rest) := by
  induction p generalizing ns rest with
  | nil => rw [takeAt] at h; cases h
  | cons i p ih =>
      cases p with
      | nil =>
          rw [takeAt_singleton] at h
          obtain ⟨n, hn, he⟩ := Option.map_eq_some_iff.mp h
          cases he
          obtain ⟨hi, rfl⟩ := List.getElem?_eq_some_iff.mp hn
          rw [← labels_append]
          exact labels_perm (List.getElem_cons_eraseIdx_perm hi).symm
      | cons j p =>
          rw [takeAt_cons_cons] at h
          obtain ⟨n, hn, h⟩ := Option.bind_eq_some_iff.mp h
          obtain ⟨⟨u, rest'⟩, hu, he⟩ := Option.map_eq_some_iff.mp h
          cases he
          -- the page is the one after, with the node at its first number put back
          have hset := labels_set (getElem?_set_self hn (.ofRest n.label rest')) (m := n) rfl
            (by rw [Node.children_ofRest]; exact ih hu)
          obtain ⟨hi, rfl⟩ := List.getElem?_eq_some_iff.mp hn
          rw [List.set_set, List.set_getElem_self] at hset
          exact hset

/-- **A change of one node is a change of one label**, in its place among the others. -/
theorem labels_modifyAt {f : Node → Node} {ns ms : Forest} {p : List Nat} {n : Node}
    (hn : ns.nodeAt p = some n) (hc : (f n).children = n.children)
    (h : ns.modifyAt f p = some ms) :
    ∃ before after, labels ns = before ++ n.label :: after ∧
      labels ms = before ++ (f n).label :: after := by
  induction p generalizing ns ms with
  | nil => rw [nodeAt_nil] at hn; cases hn
  | cons i p ih =>
      cases p with
      | nil =>
          rw [nodeAt_singleton] at hn
          rw [modifyAt_singleton, hn, Option.map_some] at h
          cases h
          obtain ⟨a, b, e, _, _, hset⟩ := exists_parts hn
          refine ⟨labels a, labels n.children ++ labels b, ?_, ?_⟩
          · rw [e, labels_append, labels_cons]
          · rw [hset, labels_append, labels_cons, hc]
      | cons j p =>
          rw [nodeAt_cons_cons] at hn
          obtain ⟨m, hm, hn⟩ := Option.bind_eq_some_iff.mp hn
          rw [modifyAt_cons_cons, hm, Option.bind_some] at h
          obtain ⟨cs, hcs, rfl⟩ := Option.map_eq_some_iff.mp h
          obtain ⟨before, after, h₁, h₂⟩ := ih hn hcs
          obtain ⟨a, b, e, _, _, hset⟩ := exists_parts hm
          refine ⟨labels a ++ m.label :: before, after ++ labels b, ?_, ?_⟩
          · rw [e, labels_append, labels_cons, h₁]
            simp
          · rw [hset, labels_append, labels_cons, Node.label_mk, Node.children_mk,
              Option.getD_some, h₂]
            simp

/-! ## 4. Back again -/

theorem takeAt_nil (p : List Nat) : takeAt [] p = none := by
  rcases p with _ | ⟨i, _ | ⟨j, p⟩⟩
  · rw [takeAt]
  · rw [takeAt_singleton, List.getElem?_nil, Option.map_none]
  · rw [takeAt_cons_cons, List.getElem?_nil, Option.bind_none]

theorem insertAt_eraseIdx {l : List Node} {k : Nat} {t : Node} (h : l[k]? = some t) :
    insertAt k t (l.eraseIdx k) = l := by
  obtain ⟨hk, rfl⟩ := List.getElem?_eq_some_iff.mp h
  have hle : k ≤ (l.eraseIdx k).length := by
    rw [List.length_eraseIdx_of_lt hk]
    omega
  rw [insertAt, Nat.min_eq_left hle, List.insertIdx_eraseIdx_getElem hk]

/-- **What was taken out goes back**: put at its place, it gives the page it was taken from. -/
theorem modifyChildrenAt_takeAt {ns rest : Forest} {q : List Nat} {k : Nat} {t : Node}
    (h : ns.takeAt (q ++ [k]) = some (t, rest)) :
    rest.modifyChildrenAt (insertAt k t) q = some ns := by
  induction q generalizing ns rest with
  | nil =>
      rw [List.nil_append, takeAt_singleton] at h
      obtain ⟨n, hn, he⟩ := Option.map_eq_some_iff.mp h
      cases he
      rw [modifyChildrenAt_nil, insertAt_eraseIdx hn]
  | cons i q ih =>
      rw [List.cons_append, takeAt_cons] at h
      obtain ⟨n, hn, h⟩ := Option.bind_eq_some_iff.mp h
      obtain ⟨⟨u, rest'⟩, hu, he⟩ := Option.map_eq_some_iff.mp h
      cases he
      have hne : n.children ≠ [] := by
        intro e
        rw [e, takeAt_nil] at hu
        cases hu
      rw [modifyChildrenAt_cons, getElem?_set_self hn, Option.bind_some, Node.children_ofRest,
        ih hu, Option.map_some, Node.label_ofRest, Node.eq_mk_of_children hne, List.set_set]
      obtain ⟨hi, rfl⟩ := List.getElem?_eq_some_iff.mp hn
      rw [List.set_getElem_self]

/-- What is done to the node at a path counts, and nothing else. -/
theorem modifyAt_congr {f g : Node → Node} {ns : Forest} {p : List Nat} {n : Node}
    (hn : ns.nodeAt p = some n) (hfg : f n = g n) : ns.modifyAt f p = ns.modifyAt g p := by
  induction p generalizing ns with
  | nil => rw [nodeAt_nil] at hn; cases hn
  | cons i p ih =>
      cases p with
      | nil =>
          rw [nodeAt_singleton] at hn
          rw [modifyAt_singleton, modifyAt_singleton, hn, Option.map_some, Option.map_some, hfg]
      | cons j p =>
          rw [nodeAt_cons_cons] at hn
          obtain ⟨m, hm, hn⟩ := Option.bind_eq_some_iff.mp hn
          rw [modifyAt_cons_cons, modifyAt_cons_cons, hm, Option.bind_some, Option.bind_some, ih hn]

/-- A change that leaves the node at a path leaves the page. -/
theorem modifyAt_self {f : Node → Node} {ns : Forest} {p : List Nat} {n : Node}
    (hn : ns.nodeAt p = some n) (hf : f n = n) : ns.modifyAt f p = some ns := by
  induction p generalizing ns with
  | nil => rw [nodeAt_nil] at hn; cases hn
  | cons i p ih =>
      cases p with
      | nil =>
          rw [nodeAt_singleton] at hn
          rw [modifyAt_singleton, hn, Option.map_some, hf]
          obtain ⟨hi, rfl⟩ := List.getElem?_eq_some_iff.mp hn
          rw [List.set_getElem_self]
      | cons j p =>
          rw [nodeAt_cons_cons] at hn
          obtain ⟨m, hm, hn⟩ := Option.bind_eq_some_iff.mp hn
          have hne : m.children ≠ [] := by
            intro e
            rw [e, nodeAt_of_nil] at hn
            cases hn
          rw [modifyAt_cons_cons, hm, Option.bind_some, ih hn, Option.map_some,
            Node.eq_mk_of_children hne]
          obtain ⟨hi, rfl⟩ := List.getElem?_eq_some_iff.mp hm
          rw [List.set_getElem_self]

/-- Two changes of one node are one change. -/
theorem modifyAt_modifyAt {f : Node → Node} (g : Node → Node) {ns ms : Forest} {p : List Nat}
    (h : ns.modifyAt f p = some ms) : ms.modifyAt g p = ns.modifyAt (fun n => g (f n)) p := by
  induction p generalizing ns ms with
  | nil => rw [modifyAt] at h; cases h
  | cons i p ih =>
      cases p with
      | nil =>
          rw [modifyAt_singleton] at h ⊢
          obtain ⟨n, hn, rfl⟩ := Option.map_eq_some_iff.mp h
          rw [modifyAt_singleton, getElem?_set_self hn, hn, Option.map_some, Option.map_some,
            List.set_set]
      | cons j p =>
          rw [modifyAt_cons_cons] at h ⊢
          obtain ⟨n, hn, h⟩ := Option.bind_eq_some_iff.mp h
          obtain ⟨cs, hcs, rfl⟩ := Option.map_eq_some_iff.mp h
          rw [modifyAt_cons_cons, getElem?_set_self hn, hn, Option.bind_some, Option.bind_some,
            Node.children_mk, Option.getD_some, ih hcs, Node.label_mk]
          congr 1
          funext ds
          rw [List.set_set]

/-- What is read below a place depends on the node there alone. -/
theorem nodeAt_of_getElem?_eq {ns ms : Forest} {i j : Nat} (h : ns[i]? = ms[j]?) (p : List Nat) :
    ns.nodeAt (i :: p) = ms.nodeAt (j :: p) := by
  cases p with
  | nil => rw [nodeAt_singleton, nodeAt_singleton, h]
  | cons k p => rw [nodeAt_cons_cons, nodeAt_cons_cons, h]

/-- A node below another, by paths, is one of its nodes. -/
theorem nodeAt_append {ns : Forest} {p : List Nat} {n : Node} (h : ns.nodeAt p = some n)
    (q : List Nat) : ns.nodeAt (p ++ q) = nodeAt [n] (0 :: q) := by
  induction p generalizing ns with
  | nil => rw [nodeAt_nil] at h; cases h
  | cons i p ih =>
      cases p with
      | nil =>
          rw [nodeAt_singleton] at h
          exact nodeAt_of_getElem?_eq h q
      | cons j p =>
          rw [nodeAt_cons_cons] at h
          obtain ⟨m, hm, h⟩ := Option.bind_eq_some_iff.mp h
          rw [List.cons_append, List.cons_append, nodeAt_cons_cons, hm, Option.bind_some]
          exact ih h

/-! ## 5. What stays -/

/-- Two lists of children, before and after the node at a path was taken out: without the node where
    it was in the list at this place, and otherwise with the same ids in the same order. -/
structure Thinned (path place : List Nat) (before after : List Node) : Prop where
  own : ∀ k, path = place ++ [k] → after = before.eraseIdx k
  other : (∀ k, path ≠ place ++ [k]) → after.map Node.ident = before.map Node.ident

theorem Thinned.same {p q : List Nat} (h : ∀ k, p ≠ q ++ [k]) (l : List Node) : Thinned p q l l :=
  ⟨fun k hk => absurd hk (h k), fun _ => rfl⟩

/-- One step down on either side. -/
theorem Thinned.cons {p q : List Nat} {l l' : List Node} (h : Thinned p q l l') (i : Nat) :
    Thinned (i :: p) (i :: q) l l' where
  own k hk := h.own k (List.cons.inj hk).2
  other hne := h.other fun k hk => hne k (by rw [hk, List.cons_append])

/-- The top level is thinned out. -/
theorem thinned_of_takeAt {ns rest : Forest} {p : List Nat} {t : Node}
    (h : ns.takeAt p = some (t, rest)) : Thinned p [] ns rest := by
  rcases p with _ | ⟨i, _ | ⟨j, p⟩⟩
  · rw [takeAt] at h
    cases h
  · rw [takeAt_singleton] at h
    obtain ⟨n, _, he⟩ := Option.map_eq_some_iff.mp h
    cases he
    refine ⟨fun k hk => ?_, fun hne => absurd rfl (hne i)⟩
    cases hk
    rfl
  · rw [takeAt_cons_cons] at h
    obtain ⟨n, hn, h⟩ := Option.bind_eq_some_iff.mp h
    obtain ⟨⟨u, left⟩, _, he⟩ := Option.map_eq_some_iff.mp h
    cases he
    refine ⟨fun k hk => (by cases hk), fun _ => ?_⟩
    obtain ⟨a, b, e, _, _, hset⟩ := exists_parts hn
    rw [hset, e, List.map_append, List.map_append, List.map_cons, List.map_cons]
    rfl

/-- **Every node that stays was there before**, with the same label, and its children are those that
    it had, thinned out; where its list of children is empty, it is as it was. -/
theorem exists_nodeAt_of_takeAt {ns rest : Forest} {p q : List Nat} {t m : Node}
    (h : ns.takeAt p = some (t, rest)) (hm : rest.nodeAt q = some m) :
    ∃ q' n, ns.nodeAt q' = some n ∧ m.label = n.label ∧ Thinned p q' n.children m.children ∧
      (m.list = some [] → m = n) := by
  induction p generalizing ns rest q with
  | nil => rw [takeAt] at h; cases h
  | cons i p ih =>
      cases q with
      | nil => rw [nodeAt_nil] at hm; cases hm
      | cons k q =>
          cases p with
          | nil =>
              rw [takeAt_singleton] at h
              obtain ⟨n, _, he⟩ := Option.map_eq_some_iff.mp h
              cases he
              refine ⟨(if k < i then k else k + 1) :: q, m, ?_, rfl, .same ?_ _, fun _ => rfl⟩
              · rw [← hm]
                refine nodeAt_of_getElem?_eq ?_ q
                rw [List.getElem?_eraseIdx]
                split <;> rfl
              · intro k' e
                exact List.append_ne_nil_of_right_ne_nil q (List.cons_ne_nil k' [])
                  (List.cons.inj e).2.symm
          | cons j p =>
              rw [takeAt_cons_cons] at h
              obtain ⟨n, hn, h⟩ := Option.bind_eq_some_iff.mp h
              obtain ⟨⟨u, left⟩, hu, he⟩ := Option.map_eq_some_iff.mp h
              cases he
              by_cases hk : k = i
              · subst hk
                cases q with
                | nil =>
                    rw [nodeAt_singleton, getElem?_set_self hn] at hm
                    obtain rfl := Option.some.inj hm
                    refine ⟨[k], n, by rw [nodeAt_singleton, hn], rfl, ?_, fun hempty => ?_⟩
                    · rw [Node.children_ofRest]
                      exact (thinned_of_takeAt hu).cons k
                    · exact absurd hempty (Node.list_ofRest_ne n.label left)
                | cons a q =>
                    rw [nodeAt_cons_cons, getElem?_set_self hn, Option.bind_some,
                      Node.children_ofRest] at hm
                    obtain ⟨q', m', hm', hlabel, hthinned, hempty⟩ := ih hu hm
                    cases q' with
                    | nil => rw [nodeAt_nil] at hm'; cases hm'
                    | cons b q' =>
                        refine ⟨k :: b :: q', m', ?_, hlabel, hthinned.cons k, hempty⟩
                        rw [nodeAt_cons_cons, hn, Option.bind_some, hm']
              · -- the node is not below the one at the first number, and so stays as it is
                refine ⟨k :: q, m, ?_, rfl, .same ?_ _, fun _ => rfl⟩
                · rw [← hm]
                  exact nodeAt_of_getElem?_eq (List.getElem?_set_ne (Ne.symm hk)).symm q
                · intro k' e
                  exact hk (List.cons.inj e).1.symm

end Forest

end Pagewright
