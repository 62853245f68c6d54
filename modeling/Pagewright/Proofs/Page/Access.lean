import Pagewright.Proofs.Page.Frame

/-!
# Reading and writing at a path

A page is read at a path by one descent and written by another. This file says that the two lead to
the same node, and that writing there is writing nowhere else.

* `Forest.isSome_modifyAt` -- a node is written where it is read: paths that are empty, too long or
  out of range lead nowhere on either way;
* `Forest.modifyChildrenAt_id` -- to ask for the list of children changes at most that a node
  without a list has an empty one;
* `Forest.access_lawful` -- **reading and writing at a path go together**: what was written is read,
  what was read can be written back, of two nodes written the last one counts, and to write a node
  replaces the one that is there (`Replaces`).
-/

namespace Pagewright

namespace Forest

variable {ns ms : Forest} {p : List Nat} {n : Node}

/-! ## 1. One node -/

/-- **A node is written where it is read**, and nowhere else. -/
theorem isSome_modifyAt (f : Node → Node) (ns : Forest) (p : List Nat) :
    (ns.modifyAt f p).isSome = (ns.nodeAt p).isSome := by
  induction p generalizing ns with
  | nil => rw [modifyAt, nodeAt_nil]; rfl
  | cons i p ih =>
      cases p with
      | nil => rw [modifyAt_singleton, nodeAt_singleton, Option.isSome_map]
      | cons j p =>
          rw [modifyAt_cons_cons, nodeAt_cons_cons]
          cases ns[i]? with
          | none => rfl
          | some m => rw [Option.bind_some, Option.bind_some, Option.isSome_map, ih]

/-! ## 2. One list of children -/

/-- A list of children is found at the empty path, and where a node is. -/
theorem isSome_modifyChildrenAt (f : List Node → List Node) (ns : Forest) (p : List Nat) :
    (ns.modifyChildrenAt f p).isSome = true ↔ p = [] ∨ (ns.nodeAt p).isSome = true := by
  cases p with
  | nil => exact iff_of_true (by rw [modifyChildrenAt_nil]; rfl) (.inl rfl)
  | cons i p =>
      rw [modifyChildrenAt, isSome_modifyAt]
      exact (or_iff_right (List.cons_ne_nil i p)).symm

/-- **To ask for a list of children changes at most that it is there**: a node without one has an
    empty one then. -/
theorem modifyChildrenAt_id (h : ns.modifyChildrenAt id p = some ms) :
    (ms = ns ∧ ∀ n, ns.nodeAt p = some n → n.list ≠ none) ∨
      ∃ n, ns.nodeAt p = some n ∧ n.list = none ∧ ns.Replaces ms p ⟨n.label, some []⟩ := by
  cases p with
  | nil =>
      rw [modifyChildrenAt_nil] at h
      refine .inl ⟨(Option.some.inj h).symm, fun n hn => ?_⟩
      rw [nodeAt_nil] at hn
      cases hn
  | cons i p =>
      rw [modifyChildrenAt] at h
      have hsome : (ns.nodeAt (i :: p)).isSome = true := by
        rw [← isSome_modifyAt, h]
        rfl
      obtain ⟨n, hn⟩ := Option.isSome_iff_exists.mp hsome
      rcases hlist : n.list with _ | cs
      · have hempty : n.children = [] := by rw [Node.children, hlist]; rfl
        have hreplaces := replaces_modifyAt h hn
        rw [id, hempty] at hreplaces
        exact .inr ⟨n, hn, hlist, hreplaces⟩
      · have hsame : (⟨n.label, some (id n.children)⟩ : Node) = n := by
          rw [id, Node.children, hlist, Option.getD_some, ← hlist, Node.eta]
        refine .inl ⟨?_, fun m hm => ?_⟩
        · exact Option.some.inj (h.symm.trans (modifyAt_self hn hsame))
        · rw [← Option.some.inj (hn.symm.trans hm), hlist]
          exact Option.some_ne_none cs

/-! ## 3. All of it -/

/-- **Reading and writing at a path go together.** For every page and path:

    * a node is written exactly where one is read;
    * what a change is given is the node that is read. To write this node back leaves the page; to
      write any node replaces it, which leaves every node beside the path as it was, and every node
      above it but for what lies below; and of two nodes written the last one counts;
    * a list of children is found exactly at the empty path and where a node is read. It is the top
      level, or the children of the node;
    * to ask for it leaves the page, but for a node without a list, which is given an empty one. -/
theorem access_lawful (ns : Forest) (p : List Nat) :
    (∀ f, (ns.modifyAt f p).isSome = (ns.nodeAt p).isSome) ∧
    (∀ n, ns.nodeAt p = some n →
      (∀ f, ns.modifyAt f p = ns.modifyAt (fun _ => f n) p) ∧
      ns.modifyAt (fun _ => n) p = some ns ∧
      ∀ m, ∃ ms, ns.modifyAt (fun _ => m) p = some ms ∧ ns.Replaces ms p m ∧
        ∀ m', ms.modifyAt (fun _ => m') p = ns.modifyAt (fun _ => m') p) ∧
    (∀ f, (ns.modifyChildrenAt f p).isSome = true ↔ p = [] ∨ (ns.nodeAt p).isSome = true) ∧
    (∀ l, ns.listAt p = some l → ∀ f, ∃ ms,
      ns.modifyChildrenAt f p = some ms ∧ ms.listAt p = some (f l)) ∧
    ∀ ms, ns.modifyChildrenAt id p = some ms →
      (ms = ns ∧ ∀ n, ns.nodeAt p = some n → n.list ≠ none) ∨
        ∃ n, ns.nodeAt p = some n ∧ n.list = none ∧ ns.Replaces ms p ⟨n.label, some []⟩ := by
  refine ⟨fun f => isSome_modifyAt f ns p, fun n hn => ⟨fun f => modifyAt_congr hn rfl,
    modifyAt_self hn rfl, fun m => ?_⟩, fun f => isSome_modifyChildrenAt f ns p,
    fun l hl f => modifyChildrenAt_of_listAt f hl, fun ms => modifyChildrenAt_id⟩
  obtain ⟨ms, hms, _⟩ := modifyAt_of_nodeAt (fun _ => m) hn
  exact ⟨ms, hms, replaces_modifyAt hms hn, fun m' => modifyAt_modifyAt _ hms⟩

/-- A tag with two others in it, none of which has a list of children. -/
def shelf : Forest := [⟨Label.ofTag "div", some [Node.ofTag "em", Node.ofTag "p"]⟩]

/-- A text written over the second tag is read in its place, while the first one stays; and to ask for
    the children of the second gives it an empty list. -/
theorem access_lawful_shelf :
    shelf.nodeAt [0, 1] = some (Node.ofTag "p") ∧
      (∃ ms, shelf.modifyAt (fun _ => Node.ofText "x") [0, 1] = some ms ∧
        ms.nodeAt [0, 1] = some (Node.ofText "x") ∧ ms.nodeAt [0, 0] = some (Node.ofTag "em") ∧
        (ms.nodeAt [0]).map Node.label = some (Label.ofTag "div")) ∧
      ∃ ms, shelf.modifyChildrenAt id [0, 1] = some ms ∧
        ms.nodeAt [0, 1] = some ⟨Label.ofTag "p", some []⟩ := by
  obtain ⟨_, hread, _, _, hask⟩ := access_lawful shelf [0, 1]
  have hn : shelf.nodeAt [0, 1] = some (Node.ofTag "p") := rfl
  obtain ⟨_, _, hwrite⟩ := hread _ hn
  obtain ⟨ms, hms, hreplaces, _⟩ := hwrite (Node.ofText "x")
  have hbeside := hreplaces.beside [0, 0] (by decide) (by decide)
  have hlabel : (ms.nodeAt [0]).map Node.label = (shelf.nodeAt [0]).map Node.label := by
    have habove := congrArg (Option.map Node.label) (hreplaces.above [0] (by decide) (by decide))
    simpa only [Option.map_map, Function.comp_def, Node.shell, Node.label_mk] using habove
  refine ⟨hn, ⟨ms, hms, hreplaces.there, hbeside, hlabel⟩, ?_⟩
  · obtain ⟨asked, hasked⟩ : ∃ ms, shelf.modifyChildrenAt id [0, 1] = some ms := ⟨_, rfl⟩
    rcases hask asked hasked with ⟨_, hlist⟩ | ⟨m, hm, _, hgiven⟩
    · exact absurd rfl (hlist _ hn)
    · obtain rfl := Option.some.inj (hn.symm.trans hm)
      exact ⟨asked, hasked, hgiven.there⟩

end Forest

end Pagewright
