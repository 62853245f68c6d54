import Mathlib.Tactic.TFAE
import Pagewright.Proofs.Page.Preorder

/-!
# All searches agree

A page is searched for an id in four ways, each with a recursion of its own: for the node with its
parent and its number, for its path, for whether it is there, and for the list of all ids. This file
says that they see the same page, whatever ids are missing, empty or repeated on it.

* `match_of_pathOf`, `parent_eq_none_iff` -- the match read off the path;
* `searches_agree` -- **all searches find the same node**, the first in pre-order with the id, or
  none of them finds any. The empty id finds none.
-/

namespace Pagewright

namespace Forest

variable {ns : Forest} {id : String} {p : List Nat} {found : Match}

/-- The id is within one of the nodes at top level exactly when it is on the page. -/
theorem exists_contains_iff (ns : Forest) (id : String) :
    (∃ n ∈ ns, n.contains id = true) ↔ id ∈ ids ns := by
  induction ns with
  | nil => simp
  | cons n ns ih =>
      have hfirst : n.contains id = true ↔ id ∈ ids [n] := by
        rw [Node.contains_eq, contains_iff_mem_ids]
      rw [← List.singleton_append, ids_append, List.mem_append, ← hfirst, ← ih,
        List.singleton_append]
      simp

theorem pathOf_isSome_iff (ns : Forest) (id : String) :
    (ns.pathOf id).isSome = true ↔ id ∈ ids ns := by
  rw [← Option.ne_none_iff_isSome, ne_eq, pathOf_eq_none_iff, Classical.not_not]

/-- No node has the empty id. -/
theorem empty_notMem_ids (ns : Forest) : "" ∉ ids ns := by
  intro h
  obtain ⟨l, _, hl⟩ := List.mem_filterMap.mp h
  obtain ⟨_, hne⟩ := Option.filter_eq_some_iff.mp hl
  simp at hne

/-- The path of an id leads to the node that is found, and ends in its number. -/
theorem match_of_pathOf (hf : ns.find id = some found) (hp : ns.pathOf id = some p) :
    ns.nodeAt p = some found.node ∧ p.getLast? = some found.position ∧
      found.parent = ns.nodeAt p.dropLast := by
  obtain ⟨q, hq, hn, _, hparent⟩ := pathOf_of_find hf
  obtain rfl := Option.some.inj (hq.symm.trans hp)
  refine ⟨hn, List.getLast?_concat, ?_⟩
  rw [List.dropLast_concat, hparent]

/-- The node that is found has no parent exactly when its path is one number. -/
theorem parent_eq_none_iff (hf : ns.find id = some found) (hp : ns.pathOf id = some p) :
    found.parent = none ↔ p.length = 1 := by
  obtain ⟨hn, _, hparent⟩ := match_of_pathOf hf hp
  obtain ⟨q, i, l, rfl, hl, _⟩ := exists_concat_of_nodeAt hn
  rw [List.dropLast_concat] at hparent
  rw [hparent, List.length_append, List.length_singleton]
  cases q with
  | nil => exact iff_of_true (nodeAt_nil ns) rfl
  | cons j q =>
      obtain ⟨above, habove, _⟩ := nodeAt_of_listAt hl
      refine iff_of_false ?_ (by simp)
      rw [habove]
      exact Option.some_ne_none above

/-- **All searches agree.** On every page, whatever ids are missing, empty or repeated, and for
    every id,

    * the search with the parent, the search for the path, the test within the nodes at top level
      and the list of all ids find the id together, or none of them does;
    * the node that is found stands at the path that is found, its number is the last of the path,
      and its parent is the node at the path without this number, which there is unless the path has
      one number. It is the first node in pre-order with the id;
    * the empty id is not found. -/
theorem searches_agree (ns : Forest) (id : String) :
    [(ns.find id).isSome = true, (ns.pathOf id).isSome = true, ∃ n ∈ ns, n.contains id = true,
      id ∈ ids ns].TFAE ∧
    (∀ found, ns.find id = some found → ∃ p, ns.pathOf id = some p ∧
      ns.nodeAt p = some found.node ∧ p.getLast? = some found.position ∧
      (found.parent = none ↔ p.length = 1) ∧ found.parent = ns.nodeAt p.dropLast ∧
      ns.firstVisit id = some (p, found.node)) ∧
    ns.find "" = none := by
  refine ⟨?_, fun found hf => ?_, ?_⟩
  · tfae_have 1 ↔ 4 := find_isSome_iff ns id
    tfae_have 2 ↔ 4 := pathOf_isSome_iff ns id
    tfae_have 3 ↔ 4 := exists_contains_iff ns id
    tfae_finish
  · obtain ⟨p, hp⟩ := exists_pathOf (mem_ids_of_find hf)
    obtain ⟨hn, hlast, hparent⟩ := match_of_pathOf hf hp
    exact ⟨p, hp, hn, hlast, parent_eq_none_iff hf hp, hparent, firstVisit_of_pathOf hp hn⟩
  · exact (find_eq_none_iff ns "").mpr (empty_notMem_ids ns)

/-- Two tags share an id, the one below a tag with the empty id; another tag has none, and an empty
    list of children. -/
def untidy : Forest :=
  [⟨{ Label.ofTag "div" with id := some "" },
      some [⟨{ Label.ofTag "p" with id := some "note" }, none⟩]⟩,
    ⟨Label.ofTag "div", some []⟩,
    ⟨{ Label.ofTag "p" with id := some "note" }, none⟩]

/-- The note is found below the first tag, which is its parent though it has no id. -/
theorem searches_agree_untidy :
    ∃ found, untidy.find "note" = some found ∧ untidy.pathOf "note" = some [0, 0] ∧
      untidy.nodeAt [0, 0] = some found.node ∧ found.parent = untidy.nodeAt [0] ∧
      untidy.firstVisit "note" = some ([0, 0], found.node) := by
  have hfind : untidy.find "note" = some _ := rfl
  have hpath : untidy.pathOf "note" = some [0, 0] := rfl
  obtain ⟨p, hp, hn, _, _, hparent, hfirst⟩ := (searches_agree untidy "note").2.1 _ hfind
  obtain rfl := Option.some.inj (hp.symm.trans hpath)
  exact ⟨_, hfind, hpath, hn, hparent, hfirst⟩

end Forest

end Pagewright
