import Pagewright.Editor.Starter
import Pagewright.Proofs.Page.Naming

/-!
# Copies with ids of their own

A copy is given new ids throughout: that is how a starter is put on a page, and how a tag is copied.
Copies are made one after the other from one numbering, which goes on where the last copy has left
it, and begins anew after the greatest number.

* `Forest.copyEach` -- copies of pages in turn; `ids_copyEach` says that the ids of all of them in
  order are what the source hands out;
* `Forest.copies_apart` -- **no id comes twice**, within a copy or in two of them, before the
  numbering has handed out every id, wherever in its round it begins.
-/

namespace Pagewright

namespace Forest

/-! ## 1. Copies in turn -/

/-- Copies of pages with new ids throughout, one after the other from one source. -/
def copyEach {σ : Type} [IdSource σ] : List Forest → σ → List Forest × σ
  | [], s => ([], s)
  | page :: pages, s =>
      let first := page.assignIds true s
      let rest := copyEach pages first.2
      (first.1 :: rest.1, rest.2)

/-- How many nodes the pages have together. -/
def nodeCount (pages : List Forest) : Nat := (pages.flatMap labels).length

theorem nodeCount_cons (page : Forest) (pages : List Forest) :
    nodeCount (page :: pages) = (labels page).length + nodeCount pages := by
  rw [nodeCount, List.flatMap_cons, List.length_append, nodeCount]

section Source

variable {σ : Type} [IdSource σ]

/-- Each copy begins where the copies before it have left the source. -/
theorem getElem?_copyEach (pages : List Forest) (s : σ) (i : Nat) :
    (copyEach pages s).1[i]? =
      pages[i]?.map fun page => (page.assignIds true (copyEach (pages.take i) s).2).1 := by
  induction pages generalizing s i with
  | nil => rfl
  | cons page pages ih =>
      cases i with
      | zero => rfl
      | succ i =>
          rw [copyEach, List.getElem?_cons_succ, List.getElem?_cons_succ, ih, List.take_succ_cons]
          rfl

/-- The copy of a single tree is a single tree. -/
theorem getElem?_copyEach_singleton {pages : List Forest} {i : Nat} {n : Node}
    (h : pages[i]? = some [n]) (s : σ) :
    (copyEach pages s).1[i]? = some [(n.assignIds true (copyEach (pages.take i) s).2).1] := by
  rw [getElem?_copyEach, h, Option.map_some, Node.assignIds_eq]

variable [LawfulIdSource σ]

/-- **The ids of all copies, in order, are what the source hands out.** -/
theorem ids_copyEach (pages : List Forest) (s : σ) :
    (copyEach pages s).1.flatMap ids = (IdSource.take (nodeCount pages) s).1 := by
  induction pages generalizing s with
  | nil => rfl
  | cons page pages ih =>
      obtain ⟨hids, hsource⟩ := ids_assignIds_force page s
      rw [copyEach, List.flatMap_cons, ih, hids, hsource, nodeCount_cons, IdSource.take_add]

/-- A copy has one id for each node. -/
theorem length_ids_copyEach (pages : List Forest) (s : σ) :
    (copyEach pages s).1.map (fun page => (ids page).length) =
      pages.map fun page => (labels page).length := by
  induction pages generalizing s with
  | nil => rfl
  | cons page pages ih =>
      rw [copyEach, List.map_cons, List.map_cons, ih, (ids_assignIds_force page s).1,
        IdSource.length_take]

end Source

/-! ## 2. From a numbering -/

variable {pages : List Forest} {s : Numbering}

theorem nodup_ids_copyEach (hround : nodeCount pages ≤ idCount)
    (hword : s.count.toNat + nodeCount pages < UInt32.size) :
    ((copyEach pages s).1.flatMap ids).Nodup := by
  rw [ids_copyEach]
  exact Numbering.take_nodup hround (Nat.le_of_lt hword)

theorem isGenerated_of_mem_copyEach (hword : s.count.toNat + nodeCount pages < UInt32.size) :
    ∀ id ∈ (copyEach pages s).1.flatMap ids, isGenerated id = true := by
  intro id hid
  rw [ids_copyEach, Numbering.take_eq_map (Nat.le_of_lt hword)] at hid
  obtain ⟨i, _, rfl⟩ := List.mem_map.mp hid
  have hrest : (s.count.toNat + i) % idCount < 90000000 := Nat.mod_lt _ (by decide)
  refine isGenerated_numberedId (Nat.le_add_right _ _) ?_
  show 10000000 + (s.count.toNat + i) % idCount ≤ 99999999
  omega

/-- **No id comes twice.** Pages are copied one after the other, from a numbering that has handed
    out any number of ids. The pages have no more nodes together than there are ids, and the word of
    the numbering does not start over. Then, also where the numbering goes through its greatest
    number on the way,

    * every copy has one id for each node, all different and of the shape of generated ids;
    * no two copies have an id in common, and so no two copies of single trees, be they tags of a
      page or starters. -/
theorem copies_apart (hround : nodeCount pages ≤ idCount)
    (hword : s.count.toNat + nodeCount pages < UInt32.size) :
    (copyEach pages s).1.map (fun copy => (ids copy).length) =
      pages.map (fun page => (labels page).length) ∧
    (∀ copy ∈ (copyEach pages s).1, (ids copy).Nodup ∧ ∀ id ∈ ids copy, isGenerated id = true) ∧
    (copyEach pages s).1.Pairwise (fun a b => (ids a).Disjoint (ids b)) ∧
    ∀ (i j : Nat) (a b : Node), i < j → pages[i]? = some [a] → pages[j]? = some [b] →
      (ids [(a.assignIds true (copyEach (pages.take i) s).2).1]).Disjoint
        (ids [(b.assignIds true (copyEach (pages.take j) s).2).1]) := by
  obtain ⟨hwithin, hacross⟩ := List.nodup_flatMap.mp (nodup_ids_copyEach hround hword)
  have hshape := isGenerated_of_mem_copyEach hword
  refine ⟨length_ids_copyEach pages s, fun copy hcopy => ⟨hwithin copy hcopy, fun id hid => ?_⟩,
    hacross, fun i j a b hij ha hb => ?_⟩
  · exact hshape id (List.mem_flatMap.mpr ⟨copy, hcopy, hid⟩)
  · obtain ⟨hi, hcopyA⟩ := List.getElem?_eq_some_iff.mp (getElem?_copyEach_singleton ha s)
    obtain ⟨hj, hcopyB⟩ := List.getElem?_eq_some_iff.mp (getElem?_copyEach_singleton hb s)
    rw [← hcopyA, ← hcopyB]
    exact List.pairwise_iff_getElem.mp hacross i j hi hj hij

/-- Two starters are put on a page while the numbering goes through its greatest number: the first
    has the last id and the first one, and none of its ids is in the second. -/
theorem copies_apart_round :
    let s : Numbering := ⟨89999990⟩
    let first := Starter.radioPanel.instantiate s
    let second := Starter.formWithHeader.instantiate first.2
    nodeCount [[Starter.radioPanel.tree], [Starter.formWithHeader.tree]] ≤ idCount ∧
      s.count.toNat + nodeCount [[Starter.radioPanel.tree], [Starter.formWithHeader.tree]] <
        UInt32.size ∧
      "tag_99999999" ∈ ids [first.1] ∧ "tag_10000000" ∈ ids [first.1] ∧
      (ids [first.1]).Disjoint (ids [second.1]) ∧ (ids [second.1]).Nodup := by
  have happly : ∀ (t u : Starter) (s : Numbering), nodeCount [[t.tree], [u.tree]] ≤ idCount →
      s.count.toNat + nodeCount [[t.tree], [u.tree]] < UInt32.size →
        (ids [(t.instantiate s).1]).Disjoint (ids [(u.instantiate (t.instantiate s).2).1]) ∧
          (ids [(u.instantiate (t.instantiate s).2).1]).Nodup := by
    intro t u s hround hword
    obtain ⟨_, hwithin, _, hacross⟩ := copies_apart hround hword
    have hat : [[t.tree], [u.tree]][1]? = some [u.tree] := rfl
    have hsecond := List.mem_of_getElem? (getElem?_copyEach_singleton hat s)
    exact ⟨hacross 0 1 t.tree u.tree Nat.zero_lt_one rfl hat, (hwithin _ hsecond).1⟩
  have hround : nodeCount [[Starter.radioPanel.tree], [Starter.formWithHeader.tree]] ≤ idCount := by
    decide +kernel
  have hword : (89999990 : UInt32).toNat +
      nodeCount [[Starter.radioPanel.tree], [Starter.formWithHeader.tree]] < UInt32.size := by
    decide +kernel
  exact ⟨hround, hword, by decide +kernel, by decide +kernel,
    happly .radioPanel .formWithHeader ⟨89999990⟩ hround hword⟩

end Forest

end Pagewright
