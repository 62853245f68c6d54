import Mathlib.Data.List.Nodup
import Pagewright.Proofs.Page.Surgery

/-!
# Pages without some tags

Tags are taken out of a page one after the other, each from what the ones before have left. This
file gives the page that is left in one go (`Forest.prune`): every node with one of the ids is gone
with all that lies below it, and a parent that has lost all its children has lost its list.

* `prune_prune` -- to leave out some tags and then others is to leave out all of them;
* `eq_prune_of_takeAt` -- **to take one tag out is to leave it out**, where ids are distinct;
* `Forest.Outside` -- a tag is not within another; `mem_ids_prune` says that **the tags that are
  left are those outside of all that are left out**.
-/

namespace Pagewright

mutual

/-- A node with the tags below it that have not one of the ids; without a list of children, where it
    had children and none is left. -/
def Node.prune (gone : List String) : Node → Node
  | ⟨l, none⟩ => ⟨l, none⟩
  | ⟨l, some cs⟩ => if cs.isEmpty then ⟨l, some cs⟩ else .ofRest l (Forest.prune gone cs)

/-- The page without the tags that have one of the ids, and without all that lies below them. -/
def Forest.prune (gone : List String) : List Node → List Node
  | [] => []
  | n :: ns =>
      if n.ident ∈ gone.map some then Forest.prune gone ns
      else n.prune gone :: Forest.prune gone ns

end

namespace Forest

variable {ns rest : Forest} {n t : Node} {id a b : String} {gone more : List String}

/-! ## 1. Node by node -/

@[simp] theorem prune_nil (gone : List String) : prune gone [] = [] := by rw [prune]

theorem prune_cons_of_mem (h : n.ident ∈ gone.map some) (ns : Forest) :
    prune gone (n :: ns) = prune gone ns := by
  rw [prune, if_pos h]

theorem prune_cons_of_notMem (h : n.ident ∉ gone.map some) (ns : Forest) :
    prune gone (n :: ns) = n.prune gone :: prune gone ns := by
  rw [prune, if_neg h]

end Forest

namespace Node

theorem prune_of_children_eq_nil {n : Node} (h : n.children = []) (gone : List String) :
    n.prune gone = n := by
  rcases n with ⟨l, _ | cs⟩
  · rw [prune]
  · obtain rfl : cs = [] := h
    rw [prune, if_pos List.isEmpty_nil]

theorem prune_of_children_ne_nil {n : Node} (h : n.children ≠ []) (gone : List String) :
    n.prune gone = .ofRest n.label (Forest.prune gone n.children) := by
  rcases n with ⟨l, _ | cs⟩
  · exact absurd rfl h
  · have hne : ¬ cs.isEmpty = true := fun e => h (List.isEmpty_iff.mp e)
    rw [prune, if_neg hne]
    rfl

@[simp] theorem label_prune (n : Node) (gone : List String) : (n.prune gone).label = n.label := by
  by_cases h : n.children = []
  · rw [prune_of_children_eq_nil h]
  · rw [prune_of_children_ne_nil h, label_ofRest]

@[simp] theorem ident_prune (n : Node) (gone : List String) : (n.prune gone).ident = n.ident := by
  rw [ident, label_prune]
  rfl

@[simp] theorem children_prune (n : Node) (gone : List String) :
    (n.prune gone).children = Forest.prune gone n.children := by
  by_cases h : n.children = []
  · rw [prune_of_children_eq_nil h, h, Forest.prune_nil]
  · rw [prune_of_children_ne_nil h, children_ofRest]

end Node

namespace Forest

variable {ns rest : Forest} {n t : Node} {id a b : String} {gone more : List String}

theorem prune_append (gone : List String) (ns ms : Forest) :
    prune gone (ns ++ ms) = prune gone ns ++ prune gone ms := by
  induction ns with
  | nil => rw [prune_nil, List.nil_append, List.nil_append]
  | cons n ns ih =>
      by_cases h : n.ident ∈ gone.map some
      · rw [List.cons_append, prune_cons_of_mem h, prune_cons_of_mem h, ih]
      · rw [List.cons_append, prune_cons_of_notMem h, prune_cons_of_notMem h, ih, List.cons_append]

/-- **Where none of the ids is on the page, nothing is left out.** -/
theorem prune_eq_self (h : ∀ id ∈ gone, id ∉ ids ns) : prune gone ns = ns := by
  induction ns using Forest.induct with
  | nil => rw [prune_nil]
  | cons n ns below rest =>
      have hn : n.ident ∉ gone.map some := by
        intro hmem
        obtain ⟨id, hid, e⟩ := List.mem_map.mp hmem
        exact h id hid (mem_ids_of_ident List.mem_cons_self e.symm)
      have hbelow := below fun id hid hmem => h id hid (mem_ids_cons.mpr (Or.inr (Or.inl hmem)))
      have hrest := rest fun id hid hmem => h id hid (mem_ids_cons.mpr (Or.inr (Or.inr hmem)))
      rw [prune_cons_of_notMem hn, hrest]
      by_cases hchildren : n.children = []
      · rw [Node.prune_of_children_eq_nil hchildren]
      · rw [Node.prune_of_children_ne_nil hchildren, hbelow, Node.ofRest_children]
        intro hempty
        rw [Node.children, hempty] at hchildren
        exact hchildren rfl

/-- Only which ids are on the list counts. -/
theorem prune_congr (h : ∀ id, id ∈ gone ↔ id ∈ more) (ns : Forest) :
    prune gone ns = prune more ns := by
  have hmem : ∀ n : Node, n.ident ∈ gone.map some ↔ n.ident ∈ more.map some := fun n => by
    simp only [List.mem_map, h]
  induction ns using Forest.induct with
  | nil => rw [prune_nil, prune_nil]
  | cons n ns below rest =>
      have hn : n.prune gone = n.prune more := by
        by_cases hchildren : n.children = []
        · rw [Node.prune_of_children_eq_nil hchildren, Node.prune_of_children_eq_nil hchildren]
        · rw [Node.prune_of_children_ne_nil hchildren, Node.prune_of_children_ne_nil hchildren,
            below]
      by_cases hgone : n.ident ∈ gone.map some
      · rw [prune_cons_of_mem hgone, prune_cons_of_mem ((hmem n).mp hgone), rest]
      · rw [prune_cons_of_notMem hgone, prune_cons_of_notMem (hgone ∘ (hmem n).mpr), hn, rest]

/-- What is left has its label, and what is left keeps its order. -/
theorem labels_prune_sublist (gone : List String) (ns : Forest) :
    (labels (prune gone ns)).Sublist (labels ns) := by
  induction ns using Forest.induct with
  | nil => rw [prune_nil]
  | cons n ns below rest =>
      rw [labels_cons]
      by_cases h : n.ident ∈ gone.map some
      · rw [prune_cons_of_mem h]
        exact .cons _ (rest.trans (List.sublist_append_right _ _))
      · rw [prune_cons_of_notMem h, labels_cons, Node.label_prune, Node.children_prune]
        exact (below.append rest).cons_cons _

/-- **To leave out some tags and then others is to leave out all of them.** -/
theorem prune_prune (gone more : List String) (ns : Forest) :
    prune more (prune gone ns) = prune (gone ++ more) ns := by
  induction ns using Forest.induct with
  | nil => rw [prune_nil, prune_nil, prune_nil]
  | cons n ns below rest =>
      have hn : (n.prune gone).prune more = n.prune (gone ++ more) := by
        by_cases hchildren : n.children = []
        · rw [Node.prune_of_children_eq_nil hchildren, Node.prune_of_children_eq_nil hchildren,
            Node.prune_of_children_eq_nil hchildren]
        · rw [Node.prune_of_children_ne_nil hchildren (gone ++ more), ← below]
          -- once the list is gone, there is nothing more to leave out
          by_cases hleft : prune gone n.children = []
          · rw [Node.prune_of_children_eq_nil (by rw [Node.children_prune, hleft]),
              Node.prune_of_children_ne_nil hchildren, hleft, prune_nil]
          · rw [Node.prune_of_children_ne_nil (by rw [Node.children_prune]; exact hleft),
              Node.children_prune, Node.label_prune]
      have hmem : n.ident ∈ (gone ++ more).map some ↔
          n.ident ∈ gone.map some ∨ n.ident ∈ more.map some := by
        rw [List.map_append, List.mem_append]
      by_cases hgone : n.ident ∈ gone.map some
      · rw [prune_cons_of_mem hgone, prune_cons_of_mem (hmem.mpr (Or.inl hgone)), rest]
      · rw [prune_cons_of_notMem hgone]
        by_cases hmore : n.ident ∈ more.map some
        · rw [prune_cons_of_mem (by rw [Node.ident_prune]; exact hmore),
            prune_cons_of_mem (hmem.mpr (Or.inr hmore)), rest]
        · have hboth : n.ident ∉ (gone ++ more).map some := fun e => (hmem.mp e).elim hgone hmore
          rw [prune_cons_of_notMem (by rw [Node.ident_prune]; exact hmore),
            prune_cons_of_notMem hboth, hn, rest]

/-! ## 2. One tag -/

/-- Beside the tag that has the id, or has it below it, nothing is left out. -/
theorem prune_parts {before after : List Node} (hd : (ids (before ++ n :: after)).Nodup)
    (hn : id ∈ ids [n]) :
    prune [id] (before ++ n :: after) = before ++ (prune [id] [n] ++ after) := by
  rw [← List.singleton_append, ids_append, ids_append, List.nodup_append, List.nodup_append] at hd
  obtain ⟨_, ⟨_, _, hafter⟩, hbefore⟩ := hd
  have hleft : prune [id] before = before := prune_eq_self fun other hother hmem => by
    obtain rfl := List.mem_singleton.mp hother
    exact hbefore other hmem other (List.mem_append_left _ hn) rfl
  have hright : prune [id] after = after := prune_eq_self fun other hother hmem => by
    obtain rfl := List.mem_singleton.mp hother
    exact hafter other hn other hmem rfl
  have hsplit : prune [id] (n :: after) = prune [id] [n] ++ prune [id] after :=
    prune_append [id] [n] after
  rw [prune_append, hleft, hsplit, hright]

/-- **To take one tag out is to leave it out**, where ids are distinct. -/
theorem eq_prune_of_takeAt (hd : (ids ns).Nodup) {p : List Nat}
    (h : ns.takeAt p = some (t, rest)) (hid : t.ident = some id) : rest = prune [id] ns := by
  induction p generalizing ns rest with
  | nil => rw [takeAt] at h; cases h
  | cons i p ih =>
      cases p with
      | nil =>
          rw [takeAt_singleton] at h
          obtain ⟨m, hm, he⟩ := Option.map_eq_some_iff.mp h
          cases he
          obtain ⟨before, after, rfl, _, hleft, _⟩ := exists_parts hm
          have hown : t.ident ∈ [id].map some := by
            rw [hid]
            exact List.mem_singleton_self _
          rw [hleft, prune_parts hd (mem_ids_of_ident (List.mem_singleton_self t) hid),
            prune_cons_of_mem hown, prune_nil, List.nil_append]
      | cons j p =>
          rw [takeAt_cons_cons] at h
          obtain ⟨m, hm, h⟩ := Option.bind_eq_some_iff.mp h
          obtain ⟨⟨u, left⟩, hu, he⟩ := Option.map_eq_some_iff.mp h
          cases he
          obtain ⟨before, after, rfl, _, _, hset⟩ := exists_parts hm
          have hbelow : id ∈ ids m.children := mem_ids_of_nodeAt (nodeAt_of_takeAt hu) hid
          have hwithin : id ∈ ids [m] := mem_ids_cons.mpr (Or.inr (Or.inl hbelow))
          -- the tag is below this node, so the node itself has another id, and has children
          obtain ⟨hown, hchildren, _, _⟩ :=
            nodup_ids_cons.mp (List.Nodup.of_append_right (ids_append before _ ▸ hd))
          have hother : m.ident ∉ [id].map some := fun hmem =>
            (hown id (List.mem_singleton.mp hmem)).1 hbelow
          have hne : m.children ≠ [] := by
            intro hnil
            rw [hnil, ids_nil] at hbelow
            cases hbelow
          rw [hset, prune_parts hd hwithin, prune_cons_of_notMem hother, prune_nil,
            Node.prune_of_children_ne_nil hne, ← ih hchildren hu, List.singleton_append]

/-! ## 3. What is left -/

/-- The tag with the second id, where there is one, neither is the one with the first nor has it
    below it. -/
def Outside (ns : Forest) (a b : String) : Prop :=
  ns.Every fun n => n.ident = some b → a ∉ ids [n]

/-- What is not on the page is within none of its tags. -/
theorem outside_of_notMem (h : a ∉ ids ns) (b : String) : ns.Outside a b := by
  intro p n hn _ hmem
  obtain ⟨l, hl, hid⟩ := List.mem_filterMap.mp hmem
  exact h (List.mem_filterMap.mpr ⟨l, labels_subset_of_nodeAt hn l hl, hid⟩)

theorem outside_cons : Outside (n :: ns) a b ↔
    (n.ident = some b → a ∉ ids [n]) ∧ Outside n.children a b ∧ Outside ns a b :=
  every_cons

/-- **The tags that are left are those outside of all that are left out.** -/
theorem mem_ids_prune (hd : (ids ns).Nodup) :
    a ∈ ids (prune gone ns) ↔ a ∈ ids ns ∧ ∀ b ∈ gone, ns.Outside a b := by
  induction ns using Forest.induct with
  | nil =>
      rw [prune_nil, ids_nil]
      exact iff_of_false List.not_mem_nil fun h => List.not_mem_nil h.1
  | cons n ns below rest =>
      obtain ⟨hown, hbelow, hrest, hapart⟩ := nodup_ids_cons.mp hd
      by_cases hgone : n.ident ∈ gone.map some
      · -- the node is left out: what is left is on its later neighbours
        obtain ⟨first, hfirst, hident⟩ := List.mem_map.mp hgone
        rw [prune_cons_of_mem hgone, rest hrest]
        constructor
        · rintro ⟨ha, hout⟩
          have hchildren : a ∉ ids n.children := fun h => hapart a h ha
          have hnode : a ∉ ids [n] := fun h => by
            rcases mem_ids_cons.mp h with h | h | h
            · exact (hown a h).2 ha
            · exact hchildren h
            · rw [ids_nil] at h
              cases h
          exact ⟨mem_ids_cons.mpr (Or.inr (Or.inr ha)), fun b hb =>
            outside_cons.mpr ⟨fun _ => hnode, outside_of_notMem hchildren b, hout b hb⟩⟩
        · rintro ⟨ha, hout⟩
          have hnode : a ∉ ids [n] := (outside_cons.mp (hout first hfirst)).1 hident.symm
          rw [← List.singleton_append, ids_append, List.mem_append] at ha
          exact ⟨ha.resolve_left hnode, fun b hb => (outside_cons.mp (hout b hb)).2.2⟩
      · -- the node is left: none of the tags that are left out has its id
        have hother : ∀ b ∈ gone, n.ident ≠ some b := fun b hb e =>
          hgone (List.mem_map.mpr ⟨b, hb, e.symm⟩)
        rw [prune_cons_of_notMem hgone, mem_ids_cons, mem_ids_cons, Node.ident_prune,
          Node.children_prune, below hbelow, rest hrest]
        constructor
        · rintro (ha | ⟨ha, hout⟩ | ⟨ha, hout⟩)
          · obtain ⟨hchildren, hothers⟩ := hown a ha
            exact ⟨Or.inl ha, fun b hb => outside_cons.mpr ⟨fun e => absurd e (hother b hb),
              outside_of_notMem hchildren b, outside_of_notMem hothers b⟩⟩
          · exact ⟨Or.inr (Or.inl ha), fun b hb => outside_cons.mpr
              ⟨fun e => absurd e (hother b hb), hout b hb, outside_of_notMem (hapart a ha) b⟩⟩
          · exact ⟨Or.inr (Or.inr ha), fun b hb => outside_cons.mpr
              ⟨fun e => absurd e (hother b hb),
                outside_of_notMem (fun h => hapart a h ha) b, hout b hb⟩⟩
        · rintro ⟨ha | ha | ha, hout⟩
          · exact Or.inl ha
          · exact Or.inr (Or.inl ⟨ha, fun b hb => (outside_cons.mp (hout b hb)).2.1⟩)
          · exact Or.inr (Or.inr ⟨ha, fun b hb => (outside_cons.mp (hout b hb)).2.2⟩)

end Forest

end Pagewright
