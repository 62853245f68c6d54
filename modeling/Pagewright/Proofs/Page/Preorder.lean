import Pagewright.Proofs.Page.Place

/-!
# The nodes of a page in order

A visit that goes through a page in pre-order comes to every node, with all that lies below it
(`Forest.nodes`). The labels are those of the nodes on the way (`labels_eq_map`), and **the search
for an id gives the first node on the way that has it** (`map_node_find`).

Two nodes of a page may be the same, so the visit is also told with the path of each node
(`Forest.visits`): it comes to each path that leads to a node, and to no other (`mem_visits_iff`).
The path that the search gives is the first of those that lead to the id (`firstVisit_of_pathOf`).
-/

namespace Pagewright

mutual

/-- The node and everything below it, in pre-order. -/
def Node.nodes : Node → List Node
  | ⟨l, none⟩ => [⟨l, none⟩]
  | ⟨l, some cs⟩ => ⟨l, some cs⟩ :: Forest.nodes cs

/-- The nodes of a page, in pre-order. -/
def Forest.nodes : List Node → List Node
  | [] => []
  | n :: ns => n.nodes ++ Forest.nodes ns

end

mutual

/-- The same with the paths, for a node with this number. -/
def Node.visitsFrom (k : Nat) : Node → List (List Nat × Node)
  | ⟨l, none⟩ => [([k], ⟨l, none⟩)]
  | ⟨l, some cs⟩ =>
      ([k], ⟨l, some cs⟩) :: (Forest.visitsFrom 0 cs).map fun v => (k :: v.1, v.2)

/-- The nodes in pre-order with their paths, where the first has this number. -/
def Forest.visitsFrom (k : Nat) : List Node → List (List Nat × Node)
  | [] => []
  | n :: ns => n.visitsFrom k ++ Forest.visitsFrom (k + 1) ns

end

namespace Forest

/-! ## 1. Nodes -/

/-- The first node in pre-order with this id. -/
def first (ns : Forest) (id : String) : Option Node :=
  (nodes ns).find? fun n => n.ident = some id

@[simp] theorem nodes_nil : nodes [] = [] := by rw [nodes]

@[simp] theorem nodes_cons (n : Node) (ns : Forest) :
    nodes (n :: ns) = n :: (nodes n.children ++ nodes ns) := by
  rcases n with ⟨l, _ | cs⟩
  · rw [nodes, Node.nodes, Node.children_mk, Option.getD_none, nodes_nil, List.nil_append,
      List.singleton_append]
  · rw [nodes, Node.nodes, Node.children_mk, Option.getD_some, List.cons_append]

theorem labels_eq_map (ns : Forest) : labels ns = (nodes ns).map Node.label := by
  induction ns using Forest.induct with
  | nil => rw [labels_nil, nodes_nil, List.map_nil]
  | cons n ns below rest =>
      rw [labels_cons, nodes_cons, List.map_cons, List.map_append, below, rest]

theorem map_node_findFrom (id : String) (ns : Forest) : ∀ (parent : Option Node) (k : Nat),
    (findFrom id parent k ns).map Match.node = first ns id := by
  induction ns using Forest.induct with
  | nil =>
      intro parent k
      rw [findFrom_nil, first, nodes_nil, Option.map_none, List.find?_nil]
  | cons n ns below rest =>
      intro parent k
      rw [findFrom_cons, first, nodes_cons]
      by_cases h : n.ident = some id
      · rw [if_pos h, Option.map_some, List.find?_cons_of_pos (by simpa using h)]
      · rw [if_neg h, List.find?_cons_of_neg (by simpa using h), List.find?_append, Option.map_or,
          below, rest]
        rfl

/-- **The search gives the first node in pre-order with the id.** -/
theorem map_node_find (ns : Forest) (id : String) : (ns.find id).map Match.node = ns.first id :=
  map_node_findFrom id ns none 0

/-- The path of an id leads to the first node with it. -/
theorem first_of_pathOf {ns : Forest} {id : String} {p : List Nat} {n : Node}
    (hp : ns.pathOf id = some p) (hn : ns.nodeAt p = some n) : ns.first id = some n := by
  obtain ⟨m, q, i, _, hm, _, hfind⟩ := find_of_pathOf hp
  obtain rfl := Option.some.inj (hn.symm.trans hm)
  rw [← map_node_find, hfind, Option.map_some]

/-! ## 2. Nodes with their paths -/

/-- The nodes of a page in pre-order, each with its path. -/
def visits (ns : Forest) : List (List Nat × Node) := visitsFrom 0 ns

/-- The first node in pre-order with this id, and its path. -/
def firstVisit (ns : Forest) (id : String) : Option (List Nat × Node) :=
  (visits ns).find? fun v => v.2.ident = some id

@[simp] theorem visitsFrom_nil (k : Nat) : visitsFrom k [] = [] := by rw [visitsFrom]

@[simp] theorem visitsFrom_cons (k : Nat) (n : Node) (ns : Forest) :
    visitsFrom k (n :: ns) =
      ([k], n) :: ((visitsFrom 0 n.children).map (fun v => (k :: v.1, v.2)) ++
        visitsFrom (k + 1) ns) := by
  rcases n with ⟨l, _ | cs⟩
  · rw [visitsFrom, Node.visitsFrom, Node.children_mk, Option.getD_none, visitsFrom_nil,
      List.map_nil, List.nil_append, List.singleton_append]
  · rw [visitsFrom, Node.visitsFrom, Node.children_mk, Option.getD_some, List.cons_append]

theorem map_snd_visitsFrom (ns : Forest) : ∀ k : Nat, (visitsFrom k ns).map Prod.snd = nodes ns := by
  induction ns using Forest.induct with
  | nil => intro k; rw [visitsFrom_nil, nodes_nil, List.map_nil]
  | cons n ns below rest =>
      intro k
      rw [visitsFrom_cons, nodes_cons, List.map_cons, List.map_append, List.map_map, rest]
      exact congrArg (fun ms => n :: (ms ++ nodes ns)) (below 0)

/-- The nodes on the way are those of the visit without paths. -/
theorem map_snd_visits (ns : Forest) : (visits ns).map Prod.snd = nodes ns :=
  map_snd_visitsFrom ns 0

theorem mem_visitsFrom_iff {p : List Nat} {m : Node} (ns : Forest) : ∀ k : Nat,
    (p, m) ∈ visitsFrom k ns ↔ ∃ j r, p = (k + j) :: r ∧ nodeAt ns (j :: r) = some m := by
  induction ns using Forest.induct generalizing p with
  | nil =>
      intro k
      rw [visitsFrom_nil]
      constructor
      · intro h
        cases h
      · rintro ⟨j, r, _, hm⟩
        rw [nodeAt_of_nil] at hm
        cases hm
  | cons n ns below rest =>
      intro k
      rw [visitsFrom_cons, List.mem_cons, List.mem_append, List.mem_map]
      constructor
      · rintro (h | ⟨⟨p', m'⟩, hmem, h⟩ | hmem)
        · cases h
          exact ⟨0, [], rfl, nodeAt_singleton (m :: ns) 0⟩
        · cases h
          obtain ⟨j, r, rfl, hm⟩ := (below 0).mp hmem
          exact ⟨0, (0 + j) :: r, rfl, by rw [Nat.zero_add, nodeAt_zero, hm]⟩
        · obtain ⟨j, r, rfl, hm⟩ := (rest (k + 1)).mp hmem
          exact ⟨j + 1, r, by rw [Nat.add_right_comm, Nat.add_assoc], by rw [nodeAt_succ, hm]⟩
      · rintro ⟨j, r, rfl, hm⟩
        cases j with
        | zero =>
            cases r with
            | nil =>
                rw [nodeAt_singleton, List.getElem?_cons_zero] at hm
                cases hm
                exact Or.inl rfl
            | cons i r =>
                rw [nodeAt_zero] at hm
                refine Or.inr (Or.inl ⟨(i :: r, m), (below 0).mpr ⟨i, r, ?_, hm⟩, rfl⟩)
                rw [Nat.zero_add]
        | succ j =>
            rw [nodeAt_succ] at hm
            refine Or.inr (Or.inr ((rest (k + 1)).mpr ⟨j, r, ?_, hm⟩))
            rw [Nat.add_right_comm, Nat.add_assoc]

/-- **The visit comes to each path that leads to a node**, and to no other. -/
theorem mem_visits_iff {ns : Forest} {p : List Nat} {m : Node} :
    (p, m) ∈ visits ns ↔ ns.nodeAt p = some m := by
  rw [visits, mem_visitsFrom_iff]
  constructor
  · rintro ⟨j, r, rfl, hm⟩
    rw [Nat.zero_add, hm]
  · intro hm
    obtain ⟨j, r, rfl⟩ := List.exists_cons_of_ne_nil (ne_nil_of_nodeAt hm)
    exact ⟨j, r, by rw [Nat.zero_add], hm⟩

theorem map_fst_find?_visitsFrom (id : String) (ns : Forest) : ∀ k : Nat,
    ((visitsFrom k ns).find? fun v => v.2.ident = some id).map Prod.fst = pathFrom id k ns := by
  induction ns using Forest.induct with
  | nil => intro k; rw [visitsFrom_nil, pathFrom_nil, List.find?_nil, Option.map_none]
  | cons n ns below rest =>
      intro k
      rw [visitsFrom_cons, pathFrom_cons]
      by_cases h : n.ident = some id
      · rw [if_pos h, List.find?_cons_of_pos (by simpa using h), Option.map_some]
      · rw [if_neg h, List.find?_cons_of_neg (by simpa using h), List.find?_append, Option.map_or,
          rest, ← below 0, List.find?_map, Option.map_map, Option.map_map]
        rfl

/-- **The path of an id is the first on the way that leads to it.** -/
theorem firstVisit_of_pathOf {ns : Forest} {id : String} {p : List Nat} {n : Node}
    (hp : ns.pathOf id = some p) (hn : ns.nodeAt p = some n) :
    ns.firstVisit id = some (p, n) := by
  rw [pathOf, ← map_fst_find?_visitsFrom] at hp
  obtain ⟨⟨p', m⟩, hfirst, rfl⟩ := Option.map_eq_some_iff.mp hp
  obtain rfl := Option.some.inj ((mem_visits_iff.mp (List.mem_of_find?_eq_some hfirst)).symm.trans hn)
  exact hfirst

end Forest

end Pagewright
