import Pagewright.Page.Ids
import Pagewright.Page.Lookup

/-!
# Walking a page

What the visits of a page come to, told without the difference between an absent list of children
and an empty one:

* `Forest.induct` -- a statement on all pages by one step: from the children of the first node and
  from its neighbours;
* the labels and the ids of a page, node by node (`labels_cons`, `ids_cons`), and their order under
  a change of places (`labels_perm`);
* the searches by id, node by node (`findFrom_cons`, `pathFrom_cons`), and what the test for an id
  says (`contains_iff_mem_ids`);
* a visit that changes labels works on the list of labels (`labels_relabel`).
-/

namespace Pagewright

/-! ## 1. Induction -/

mutual

theorem Node.below_induct {Q : List Node → Prop} (nil : Q [])
    (cons : ∀ n ns, Q n.children → Q ns → Q (n :: ns)) : ∀ n : Node, Q n.children
  | ⟨_, none⟩ => nil
  | ⟨_, some cs⟩ => Forest.induct nil cons cs

/-- **A statement holds of every page** that holds of the empty one and goes from the children of
    a node and its later neighbours to the node with these neighbours. -/
@[elab_as_elim]
theorem Forest.induct {Q : List Node → Prop} (nil : Q [])
    (cons : ∀ n ns, Q n.children → Q ns → Q (n :: ns)) : ∀ ns : List Node, Q ns
  | [] => nil
  | n :: ns => cons n ns (Node.below_induct nil cons n) (Forest.induct nil cons ns)

end

/-! ## 2. Labels -/

theorem Node.labels_eq (n : Node) : n.labels = n.label :: Forest.labels n.children := by
  rcases n with ⟨l, _ | cs⟩
  · rw [Node.labels, Node.label_mk, Node.children_mk, Option.getD_none, Forest.labels]
  · rw [Node.labels, Node.label_mk, Node.children_mk, Option.getD_some]

namespace Forest

@[simp] theorem labels_nil : labels [] = [] := by rw [labels]

@[simp] theorem labels_cons (n : Node) (ns : Forest) :
    labels (n :: ns) = n.label :: (labels n.children ++ labels ns) := by
  rw [labels, Node.labels_eq, List.cons_append]

@[simp] theorem labels_append (ns ms : Forest) : labels (ns ++ ms) = labels ns ++ labels ms := by
  induction ns with
  | nil => rfl
  | cons n ns ih => rw [List.cons_append, labels_cons, labels_cons, ih]; simp

/-- Nodes in another order have their labels in another order. -/
theorem labels_perm {ns ms : Forest} (h : ns.Perm ms) : (labels ns).Perm (labels ms) := by
  induction h with
  | nil => exact .refl _
  | cons n _ ih =>
      rw [labels_cons, labels_cons]
      exact (ih.append_left _).cons _
  | swap n m ns =>
      have e : ∀ a b : Node, labels (a :: b :: ns) = labels [a] ++ labels [b] ++ labels ns := by
        intro a b
        simp
      rw [e, e]
      exact List.perm_append_comm.append_right _
  | trans _ _ ih₁ ih₂ => exact ih₁.trans ih₂

/-! ## 3. Ids -/

@[simp] theorem ids_nil : ids [] = [] := by rw [ids, labels_nil, List.filterMap_nil]

@[simp] theorem ids_cons (n : Node) (ns : Forest) :
    ids (n :: ns) = n.ident.toList ++ (ids n.children ++ ids ns) := by
  unfold ids
  rw [labels_cons, ← List.filterMap_append]
  cases h : n.ident with
  | none => exact List.filterMap_cons_none h
  | some id => exact List.filterMap_cons_some h

@[simp] theorem ids_append (ns ms : Forest) : ids (ns ++ ms) = ids ns ++ ids ms := by
  rw [ids, labels_append, List.filterMap_append, ids, ids]

theorem mem_ids_cons {n : Node} {ns : Forest} {id : String} :
    id ∈ ids (n :: ns) ↔ n.ident = some id ∨ id ∈ ids n.children ∨ id ∈ ids ns := by
  rw [ids_cons, List.mem_append, List.mem_append, Option.mem_toList]

/-- Where no two nodes have one id, node by node: the id of a node is on no other, and no id is both
    below the node and on one of its later neighbours. -/
theorem nodup_ids_cons {n : Node} {ns : Forest} :
    (ids (n :: ns)).Nodup ↔
      (∀ id, n.ident = some id → id ∉ ids n.children ∧ id ∉ ids ns) ∧
        (ids n.children).Nodup ∧ (ids ns).Nodup ∧ ∀ id ∈ ids n.children, id ∉ ids ns := by
  rw [ids_cons, List.nodup_append, List.nodup_append]
  constructor
  · rintro ⟨_, ⟨hbelow, hrest, hapart⟩, hown⟩
    refine ⟨fun id hid => ?_, hbelow, hrest, fun id h h' => hapart id h id h' rfl⟩
    have hself : id ∈ n.ident.toList := Option.mem_toList.mpr hid
    exact ⟨fun h => hown id hself id (List.mem_append_left _ h) rfl,
      fun h => hown id hself id (List.mem_append_right _ h) rfl⟩
  · rintro ⟨hown, hbelow, hrest, hapart⟩
    refine ⟨?_, ⟨hbelow, hrest, ?_⟩, ?_⟩
    · cases n.ident with
      | none => exact List.nodup_nil
      | some id => exact List.pairwise_singleton _ id
    · rintro id h _ h' rfl
      exact hapart id h h'
    · rintro id hid _ h rfl
      obtain ⟨hchildren, hothers⟩ := hown id (Option.mem_toList.mp hid)
      exact (List.mem_append.mp h).elim hchildren hothers

/-- The ids of a page read off what its labels have for an id. -/
theorem ids_eq_of_idents {ns ms : Forest}
    (h : (labels ns).map Label.ident = (labels ms).map Label.ident) : ids ns = ids ms := by
  have e : ∀ ls : List Label, ls.filterMap Label.ident = (ls.map Label.ident).filterMap id := by
    intro ls
    rw [List.filterMap_map, Function.id_comp]
  rw [ids, ids, e, e, h]

theorem ids_perm {ns ms : Forest} (h : (labels ns).Perm (labels ms)) : (ids ns).Perm (ids ms) :=
  h.filterMap _

/-- The id of the node itself is among its ids. -/
theorem mem_ids_of_ident {n : Node} {ns : Forest} {id : String} (hn : n ∈ ns)
    (h : n.ident = some id) : id ∈ ids ns := by
  obtain ⟨a, b, rfl⟩ := List.append_of_mem hn
  rw [ids_append, ids_cons, h]
  simp

/-! ## 4. Searches -/

theorem findFrom_nil (id : String) (parent : Option Node) (k : Nat) :
    findFrom id parent k [] = none := by rw [findFrom]

theorem findFrom_cons (id : String) (parent : Option Node) (k : Nat) (n : Node) (ns : Forest) :
    findFrom id parent k (n :: ns) =
      if n.ident = some id then some ⟨n, parent, k⟩
      else (findFrom id (some n) 0 n.children).or (findFrom id parent (k + 1) ns) := by
  rcases n with ⟨l, _ | cs⟩
  · rw [findFrom, Node.findFrom, Node.children_mk, Option.getD_none, findFrom_nil, Option.none_or]
    by_cases h : l.ident = some id
    · have h' : Node.ident ⟨l, none⟩ = some id := h
      rw [if_pos h, if_pos h']
    · have h' : ¬ Node.ident ⟨l, none⟩ = some id := h
      rw [if_neg h, if_neg h']
  · rw [findFrom, Node.findFrom, Node.children_mk, Option.getD_some]
    by_cases h : l.ident = some id
    · have h' : Node.ident ⟨l, some cs⟩ = some id := h
      rw [if_pos h, if_pos h']
    · have h' : ¬ Node.ident ⟨l, some cs⟩ = some id := h
      rw [if_neg h, if_neg h']
      cases findFrom id (some ⟨l, some cs⟩) 0 cs with
      | none => rfl
      | some found => rfl

theorem pathFrom_nil (id : String) (k : Nat) : pathFrom id k [] = none := by rw [pathFrom]

theorem pathFrom_cons (id : String) (k : Nat) (n : Node) (ns : Forest) :
    pathFrom id k (n :: ns) =
      if n.ident = some id then some [k]
      else ((pathFrom id 0 n.children).map (k :: ·)).or (pathFrom id (k + 1) ns) := by
  rcases n with ⟨l, _ | cs⟩
  · rw [pathFrom, Node.pathFrom, Node.children_mk, Option.getD_none, pathFrom_nil,
      Option.map_none, Option.none_or]
    by_cases h : l.ident = some id
    · have h' : Node.ident ⟨l, none⟩ = some id := h
      rw [if_pos h, if_pos h']
    · have h' : ¬ Node.ident ⟨l, none⟩ = some id := h
      rw [if_neg h, if_neg h']
  · rw [pathFrom, Node.pathFrom, Node.children_mk, Option.getD_some]
    by_cases h : l.ident = some id
    · have h' : Node.ident ⟨l, some cs⟩ = some id := h
      rw [if_pos h, if_pos h']
    · have h' : ¬ Node.ident ⟨l, some cs⟩ = some id := h
      rw [if_neg h, if_neg h']
      cases pathFrom id 0 cs with
      | none => rfl
      | some path => rfl

theorem contains_cons (id : String) (n : Node) (ns : Forest) :
    contains id (n :: ns) = (decide (n.ident = some id) || contains id n.children ||
      contains id ns) := by
  rcases n with ⟨l, _ | cs⟩
  · rw [contains, Node.contains, Node.children_mk, Option.getD_none, contains.eq_1, Bool.or_false]
    rfl
  · rw [contains, Node.contains, Node.children_mk, Option.getD_some]
    rfl

/-- **An id is on the page exactly when it is among its ids.** -/
theorem contains_iff_mem_ids (id : String) (ns : Forest) :
    contains id ns = true ↔ id ∈ ids ns := by
  induction ns using Forest.induct with
  | nil => rw [contains.eq_1, ids_nil]; simp
  | cons n ns below rest =>
      rw [contains_cons, mem_ids_cons, Bool.or_eq_true, Bool.or_eq_true, below, rest,
        decide_eq_true_iff, or_assoc]

theorem findFrom_eq_none_iff (id : String) (ns : Forest) :
    ∀ (parent : Option Node) (k : Nat), findFrom id parent k ns = none ↔ id ∉ ids ns := by
  induction ns using Forest.induct with
  | nil => intro parent k; simp [findFrom_nil]
  | cons n ns below rest =>
      intro parent k
      rw [findFrom_cons, mem_ids_cons]
      by_cases h : n.ident = some id
      · simp [h]
      · rw [if_neg h, Option.or_eq_none_iff, below, rest]
        simp [h]

theorem pathFrom_eq_none_iff (id : String) (ns : Forest) :
    ∀ k : Nat, pathFrom id k ns = none ↔ id ∉ ids ns := by
  induction ns using Forest.induct with
  | nil => intro k; simp [pathFrom_nil]
  | cons n ns below rest =>
      intro k
      rw [pathFrom_cons, mem_ids_cons]
      by_cases h : n.ident = some id
      · simp [h]
      · rw [if_neg h, Option.or_eq_none_iff, Option.map_eq_none_iff, below, rest]
        simp [h]

/-- A search goes past nodes that have not the id. -/
theorem pathFrom_append {id : String} {ns : Forest} (h : id ∉ ids ns) (k : Nat) (ms : Forest) :
    pathFrom id k (ns ++ ms) = pathFrom id (k + ns.length) ms := by
  induction ns generalizing k with
  | nil => rfl
  | cons n ns ih =>
      rw [mem_ids_cons, not_or, not_or] at h
      obtain ⟨hn, hbelow, hrest⟩ := h
      rw [List.cons_append, pathFrom_cons, if_neg hn,
        (pathFrom_eq_none_iff id n.children 0).mpr hbelow, Option.map_none, Option.none_or,
        ih hrest, List.length_cons, Nat.add_right_comm, Nat.add_assoc]

/-- A search finds nothing exactly when the id is not on the page. -/
theorem find_eq_none_iff (ns : Forest) (id : String) : ns.find id = none ↔ id ∉ ids ns :=
  findFrom_eq_none_iff id ns none 0

theorem find_isSome_iff (ns : Forest) (id : String) : (ns.find id).isSome = true ↔ id ∈ ids ns := by
  rw [← Option.not_isNone, Bool.not_eq_true', ← Bool.not_eq_true, Option.isNone_iff_eq_none,
    find_eq_none_iff, Classical.not_not]

/-- What is found has its id on the page. -/
theorem mem_ids_of_find {ns : Forest} {id : String} {found : Match} (h : ns.find id = some found) :
    id ∈ ids ns := by
  rw [← find_isSome_iff, h]
  rfl

end Forest

/-- The test for an id within one node is the test on the page with this node alone. -/
theorem Node.contains_eq (id : String) (n : Node) : n.contains id = Forest.contains id [n] := by
  rw [Forest.contains, Forest.contains.eq_1, Bool.or_false]

/-! ## 5. Visits that change labels -/

/-- Changes labels in turn, carrying a state along. -/
def Label.thread {σ : Type} (f : Label → σ → Label × σ) : List Label → σ → List Label × σ
  | [], s => ([], s)
  | l :: ls, s =>
      let rest := Label.thread f ls (f l s).2
      ((f l s).1 :: rest.1, rest.2)

section Thread

variable {σ : Type} (f : Label → σ → Label × σ)

theorem Label.thread_append (ls ms : List Label) (s : σ) :
    Label.thread f (ls ++ ms) s =
      ((Label.thread f ls s).1 ++ (Label.thread f ms (Label.thread f ls s).2).1,
        (Label.thread f ms (Label.thread f ls s).2).2) := by
  induction ls generalizing s with
  | nil => rfl
  | cons l ls ih => rw [List.cons_append, Label.thread, Label.thread, ih, List.cons_append]

/-- **A visit that changes labels changes the list of labels**, from first to last. -/
theorem Forest.labels_relabel (ns : Forest) :
    ∀ s : σ, (Forest.labels (Forest.relabel f ns s).1, (Forest.relabel f ns s).2) =
      Label.thread f (Forest.labels ns) s := by
  induction ns using Forest.induct with
  | nil => intro s; rw [Forest.relabel, Forest.labels_nil, Label.thread]
  | cons n ns below rest =>
      intro s
      rcases n with ⟨l, _ | cs⟩
      · have h := rest (f l s).2
        rw [Forest.relabel, Node.relabel, Forest.labels_cons, Forest.labels_cons, Label.thread]
        simp only [Node.label_mk, Node.children_mk, Option.getD_none, Forest.labels_nil,
          List.nil_append]
        rw [← h]
      · have h₁ := below (f l s).2
        rw [Node.children_mk, Option.getD_some] at h₁
        have h₂ := rest (Forest.relabel f cs (f l s).2).2
        rw [Forest.relabel, Node.relabel, Forest.labels_cons, Forest.labels_cons, Label.thread]
        simp only [Node.label_mk, Node.children_mk, Option.getD_some]
        rw [Label.thread_append, ← h₁, ← h₂]

/-- A visit that leaves every label leaves the page, and its state. -/
theorem Forest.relabel_eq_self {f : Label → σ → Label × σ} {ns : Forest}
    (h : ∀ l ∈ Forest.labels ns, ∀ s, f l s = (l, s)) (s : σ) : Forest.relabel f ns s = (ns, s) := by
  induction ns using Forest.induct generalizing s with
  | nil => rw [Forest.relabel]
  | cons n ns below rest =>
      rw [Forest.labels_cons, List.forall_mem_cons, List.forall_mem_append] at h
      obtain ⟨hn, hbelow, hrest⟩ := h
      have hnode : Node.relabel f n s = (n, s) := by
        rcases n with ⟨l, _ | cs⟩
        · have hl : f l s = (l, s) := hn s
          rw [Node.relabel, hl]
        · have hl : f l s = (l, s) := hn s
          have hcs : Forest.relabel f cs s = (cs, s) := below hbelow s
          rw [Node.relabel, hl, hcs]
      rw [Forest.relabel, hnode, rest hrest]

theorem Node.relabel_eq (n : Node) (s : σ) :
    Forest.relabel f [n] s = ([(n.relabel f s).1], (n.relabel f s).2) := by
  rw [Forest.relabel, Forest.relabel]

end Thread

end Pagewright
