import Pagewright.Proofs.Page.Surgery

/-!
# What a change of one node leaves

A node is changed at a path. Any other path leads to a node below it, above it, or beside it.

* `nodeAt_modifyAt_of_apart` -- **beside the changed node nothing changes**;
* `shell_modifyAt` -- a node above it changes in what lies below it, but not in itself
  (`Node.shell`);
* `Forest.Replaces` -- a page with another node at a path: `replaces_modifyAt` says that every
  change of a node leaves such a page;
* `Forest.Touches` -- the change of one label, and nothing else; `touches_modifyAt` says that a
  change of a node that leaves its children is of this kind. The page keeps its shape
  (`Touches.mark`).
-/

namespace Pagewright

/-- The node by itself: with its label, and with an empty list of children where it has a list. -/
def Node.shell (n : Node) : Node := ⟨n.label, n.list.map fun _ => []⟩

/-- What makes the shape of a page: the id and the tag of a node, and whether it has a list of
    children. -/
def Node.mark (n : Node) : Option String × String × Bool :=
  (n.label.id, n.label.tag, n.list.isSome)

@[simp] theorem Node.mark_shell (n : Node) : n.shell.mark = n.mark := by
  rw [mark, mark, shell, label_mk, list_mk, Option.isSome_map]

namespace Forest

/-- The second page has the node `m` at the path, with all that is below it, and is otherwise as the
    first: beside the path every node is as before, and of a node above it only what lies below is
    another. -/
structure Replaces (ns ms : Forest) (p : List Nat) (m : Node) : Prop where
  there : ms.nodeAt p = some m
  below : ∀ j r, ms.nodeAt (p ++ j :: r) = nodeAt m.children (j :: r)
  beside : ∀ q, ¬ p <+: q → ¬ q <+: p → ms.nodeAt q = ns.nodeAt q
  above : ∀ q, q <+: p → q ≠ p → (ms.nodeAt q).map Node.shell = (ns.nodeAt q).map Node.shell

/-- The second page has the label `l` on the node at the path, and is otherwise as the first: every
    other path leads to the same node as before, or to none as before. Of a node above the changed
    one only what lies below it is another. -/
structure Touches (ns ms : Forest) (p : List Nat) (l : Label) : Prop where
  there : ∃ n, ns.nodeAt p = some n ∧ ms.nodeAt p = some ⟨l, n.list⟩
  others : ∀ q, q ≠ p → (ms.nodeAt q).map Node.shell = (ns.nodeAt q).map Node.shell
  apart : ∀ q, ¬ q <+: p → ms.nodeAt q = ns.nodeAt q

variable {f : Node → Node} {ns ms : Forest} {p q : List Nat} {n : Node}

/-- **Beside the changed node nothing changes.** -/
theorem nodeAt_modifyAt_of_apart (h : ns.modifyAt f p = some ms) (hpq : ¬ p <+: q)
    (hqp : ¬ q <+: p) : ms.nodeAt q = ns.nodeAt q := by
  induction p generalizing ns ms q with
  | nil => exact absurd List.nil_prefix hpq
  | cons i p ih =>
      cases q with
      | nil => exact absurd List.nil_prefix hqp
      | cons k q =>
          by_cases hk : k = i
          · -- below the same node: the path goes on with at least one number on either side
            subst hk
            have hbelow : ¬ p <+: q := fun e => hpq (List.cons_prefix_cons.mpr ⟨rfl, e⟩)
            have habove : ¬ q <+: p := fun e => hqp (List.cons_prefix_cons.mpr ⟨rfl, e⟩)
            cases p with
            | nil => exact absurd List.nil_prefix hbelow
            | cons j p =>
                cases q with
                | nil => exact absurd List.nil_prefix habove
                | cons a q =>
                    rw [modifyAt_cons_cons] at h
                    obtain ⟨m, hm, h⟩ := Option.bind_eq_some_iff.mp h
                    obtain ⟨cs, hcs, rfl⟩ := Option.map_eq_some_iff.mp h
                    rw [nodeAt_cons_cons, nodeAt_cons_cons, getElem?_set_self hm, hm,
                      Option.bind_some, Option.bind_some, Node.children_mk, Option.getD_some]
                    exact ih hcs hbelow habove
          · obtain ⟨m, hset⟩ : ∃ m, ms = ns.set i m := by
              cases p with
              | nil =>
                  rw [modifyAt_singleton] at h
                  obtain ⟨m, _, rfl⟩ := Option.map_eq_some_iff.mp h
                  exact ⟨f m, rfl⟩
              | cons j p =>
                  rw [modifyAt_cons_cons] at h
                  obtain ⟨m, _, h⟩ := Option.bind_eq_some_iff.mp h
                  obtain ⟨cs, _, rfl⟩ := Option.map_eq_some_iff.mp h
                  exact ⟨⟨m.label, some cs⟩, rfl⟩
            rw [hset]
            exact nodeAt_of_getElem?_eq (List.getElem?_set_ne (Ne.symm hk)) q

/-- **A node above the changed one stays by itself as it was.** -/
theorem shell_modifyAt (h : ns.modifyAt f p = some ms) (hqp : q <+: p) (hne : q ≠ p) :
    (ms.nodeAt q).map Node.shell = (ns.nodeAt q).map Node.shell := by
  induction p generalizing ns ms q with
  | nil => exact absurd (List.prefix_nil.mp hqp) hne
  | cons i p ih =>
      cases q with
      | nil => rw [nodeAt_nil, nodeAt_nil]
      | cons k q =>
          obtain ⟨rfl, habove⟩ := List.cons_prefix_cons.mp hqp
          cases p with
          | nil => exact absurd (congrArg (k :: ·) (List.prefix_nil.mp habove)) hne
          | cons j p =>
              rw [modifyAt_cons_cons] at h
              obtain ⟨m, hm, h⟩ := Option.bind_eq_some_iff.mp h
              obtain ⟨cs, hcs, rfl⟩ := Option.map_eq_some_iff.mp h
              cases q with
              | nil =>
                  -- the node at the first number has a list, in which the changed node stands
                  have hlist : m.children ≠ [] := by
                    intro e
                    rw [e, modifyAt_nil] at hcs
                    cases hcs
                  rw [nodeAt_singleton, nodeAt_singleton, getElem?_set_self hm, hm,
                    ← Node.eq_mk_of_children hlist]
                  rfl
              | cons a q =>
                  rw [nodeAt_cons_cons, nodeAt_cons_cons, getElem?_set_self hm, hm,
                    Option.bind_some, Option.bind_some, Node.children_mk, Option.getD_some]
                  exact ih hcs habove fun e => hne (congrArg (k :: ·) e)

/-- **To change a node is to replace it.** -/
theorem replaces_modifyAt (h : ns.modifyAt f p = some ms) (hn : ns.nodeAt p = some n) :
    ns.Replaces ms p (f n) := by
  have hthere : ms.nodeAt p = some (f n) := by
    obtain ⟨ms', hms, hm⟩ := modifyAt_of_nodeAt f hn
    rw [Option.some.inj (h.symm.trans hms), hm]
  refine ⟨hthere, fun j r => ?_, fun q => nodeAt_modifyAt_of_apart h, fun q => shell_modifyAt h⟩
  rw [nodeAt_append hthere, nodeAt_zero]

/-- **A change of a node that leaves its list of children touches nothing else.** -/
theorem touches_modifyAt (h : ns.modifyAt f p = some ms) (hn : ns.nodeAt p = some n)
    (hlist : (f n).list = n.list) : ns.Touches ms p (f n).label := by
  have hreplaces := replaces_modifyAt h hn
  have hapart : ∀ q, ¬ q <+: p → ms.nodeAt q = ns.nodeAt q := by
    intro q hqp
    by_cases hpq : p <+: q
    · -- below the changed node, which has its children still
      obtain ⟨r, rfl⟩ := hpq
      cases r with
      | nil =>
          rw [List.append_nil] at hqp
          exact absurd (List.prefix_refl p) hqp
      | cons j r =>
          rw [hreplaces.below, nodeAt_append hn, nodeAt_zero, Node.children, hlist, Node.children]
    · exact hreplaces.beside q hpq hqp
  refine ⟨⟨n, hn, ?_⟩, fun q hne => ?_, hapart⟩
  · rw [hreplaces.there, ← hlist, Node.eta]
  · by_cases hqp : q <+: p
    · exact hreplaces.above q hqp hne
    · rw [hapart q hqp]

/-- Where the new label has the id and the tag of the old one, **the page keeps its shape, its ids
    and its tags**: the same paths lead to nodes, and the nodes have the same of each. -/
theorem Touches.mark {l : Label} (h : ns.Touches ms p l) (hn : ns.nodeAt p = some n)
    (hid : l.id = n.label.id) (htag : l.tag = n.label.tag) (q : List Nat) :
    (ms.nodeAt q).map Node.mark = (ns.nodeAt q).map Node.mark := by
  by_cases hq : q = p
  · obtain ⟨m, hm, hafter⟩ := h.there
    obtain rfl := Option.some.inj (hn.symm.trans hm)
    rw [hq, hafter, hn, Option.map_some, Option.map_some, Node.mark, Node.mark, Node.label_mk,
      Node.list_mk, hid, htag]
  · have hshell := congrArg (Option.map Node.mark) (h.others q hq)
    simpa only [Option.map_map, Function.comp_def, Node.mark_shell] using hshell

end Forest

end Pagewright
