import Pagewright.Proofs.Page.Surgery

/-!
# Pages that have shed empty lists

A list of children that is written and empty is lost where a page goes through rows, and where the
last tag leaves a parent that had such a list before the tag came. Apart from that the page stays
(`Forest.Sheds`); a page without empty lists has none to shed (`Sheds.eq_of_full`).

`takeAt_modifyChildrenAt` says that **what was put in comes out again**, and leaves the page as it
was, but for one empty list at most.
-/

namespace Pagewright

/-- The second page is the first one, but that empty lists of children may be gone. -/
inductive Forest.Sheds : List Node → List Node → Prop where
  | nil : Forest.Sheds [] []
  | cons {n m : Node} {ns ms : List Node} (label : m.label = n.label)
      (list : m.list.isSome = n.list.isSome ∨ (n.list = some [] ∧ m.list = none))
      (below : Forest.Sheds n.children m.children) (rest : Forest.Sheds ns ms) :
      Forest.Sheds (n :: ns) (m :: ms)

/-- No list of children on the page is written and empty. -/
def Forest.Full (ns : Forest) : Prop := ns.Every fun n => n.list ≠ some []

namespace Forest

theorem Sheds.refl (ns : Forest) : Sheds ns ns := by
  induction ns using Forest.induct with
  | nil => exact .nil
  | cons n ns below rest => exact .cons rfl (Or.inl rfl) below rest

/-- No label is lost with a list that is empty. -/
theorem Sheds.labels_eq {ns ms : Forest} (h : Sheds ns ms) : labels ms = labels ns := by
  induction h with
  | nil => rfl
  | cons label _ _ _ below rest => rw [labels_cons, labels_cons, label, below, rest]

/-- **A page without empty lists has none to shed.** -/
theorem Sheds.eq_of_full {ns ms : Forest} (h : Sheds ns ms) (hfull : ns.Full) : ms = ns := by
  induction h with
  | nil => rfl
  | @cons n m ns ms label list _ _ below rest =>
      obtain ⟨hn, hbelow, hrest⟩ := every_cons.mp hfull
      have hchildren : m.children = n.children := below hbelow
      have hlist : m.list = n.list := by
        rcases list with hsome | ⟨hempty, _⟩
        · unfold Node.children at hchildren
          cases hnl : n.list with
          | none =>
              rw [hnl, Option.isSome_none, Option.isSome_eq_false_iff] at hsome
              exact Option.isNone_iff_eq_none.mp hsome
          | some cs =>
              rw [hnl] at hsome hchildren
              obtain ⟨cs', hcs'⟩ := Option.isSome_iff_exists.mp hsome
              rw [hcs', Option.getD_some, Option.getD_some] at hchildren
              rw [hcs', hchildren]
        · exact absurd hempty hn
      rw [rest hrest, ← m.eta, ← n.eta, label, hlist]

/-- A list of children that is written for those that are left is there as before, unless it was
    there and empty. -/
theorem Sheds.list_ofRest {n : Node} {rest : List Node} (h : Sheds n.children rest) :
    (Node.ofRest n.label rest).list.isSome = n.list.isSome ∨
      (n.list = some [] ∧ (Node.ofRest n.label rest).list = none) := by
  rcases n with ⟨l, _ | _ | ⟨c, cs⟩⟩
  · cases h
    exact Or.inl rfl
  · cases h
    exact Or.inr ⟨rfl, rfl⟩
  · cases h
    exact Or.inl rfl

/-- A node whose children have shed lists, among nodes that have not. -/
theorem Sheds.set_ofRest {ns : Forest} {i : Nat} {n : Node} {rest : List Node}
    (hn : ns[i]? = some n) (h : Sheds n.children rest) :
    Sheds ns (ns.set i (.ofRest n.label rest)) := by
  induction ns generalizing i with
  | nil =>
      rw [List.getElem?_nil] at hn
      cases hn
  | cons f ns ih =>
      cases i with
      | zero =>
          obtain rfl := Option.some.inj (List.getElem?_cons_zero.symm.trans hn)
          rw [List.set_cons_zero]
          exact .cons rfl h.list_ofRest (by rw [Node.children_ofRest]; exact h) (.refl ns)
      | succ i =>
          rw [List.getElem?_cons_succ] at hn
          rw [List.set_cons_succ]
          exact .cons rfl (Or.inl rfl) (.refl f.children) (ih hn)

/-- **What was put in comes out again**, and leaves the page as it was, but that a list may be gone
    that was there and empty. -/
theorem takeAt_modifyChildrenAt {ns ms : Forest} {q : List Nat} {l : List Node} {k : Nat}
    {t : Node} (hl : ns.listAt q = some l) (h : ns.modifyChildrenAt (insertAt k t) q = some ms) :
    ∃ ns', ms.takeAt (q ++ [min k l.length]) = some (t, ns') ∧ Sheds ns ns' ∧
      ((∀ n, ns.nodeAt q = some n → n.list ≠ some []) → ns' = ns) := by
  induction q generalizing ns ms with
  | nil =>
      obtain rfl := Option.some.inj ((listAt_nil ns).symm.trans hl)
      obtain rfl := Option.some.inj ((modifyChildrenAt_nil _ ns).symm.trans h)
      obtain ⟨hat, herase⟩ := eraseIdx_insertAt k t ns
      exact ⟨ns, by rw [List.nil_append, takeAt_singleton, hat, Option.map_some, herase], .refl ns,
        fun _ => rfl⟩
  | cons i q ih =>
      rw [listAt_cons] at hl
      obtain ⟨n, hn, hl⟩ := Option.bind_eq_some_iff.mp hl
      rw [modifyChildrenAt_cons, hn, Option.bind_some] at h
      obtain ⟨cs, hcs, rfl⟩ := Option.map_eq_some_iff.mp h
      obtain ⟨rest, hrest, hsheds, hsame⟩ := ih hl hcs
      refine ⟨ns.set i (.ofRest n.label rest), ?_, .set_ofRest hn hsheds, fun hlist => ?_⟩
      · rw [List.cons_append, takeAt_cons, getElem?_set_self hn, Option.bind_some,
          Node.children_mk, Option.getD_some, hrest, Option.map_some, List.set_set]
        rfl
      · -- the node at the first number has a list with nodes in it, or is the one in question
        have hown : n.list ≠ some [] := by
          cases q with
          | nil => exact hlist n (by rw [nodeAt_singleton, hn])
          | cons j q =>
              intro e
              rw [Node.children, e, Option.getD_some, listAt_cons, List.getElem?_nil] at hl
              cases hl
        have hbelow : rest = n.children := by
          refine hsame fun m hm => ?_
          cases q with
          | nil => rw [nodeAt_nil] at hm; cases hm
          | cons j q => exact hlist m (by rw [nodeAt_cons_cons, hn, Option.bind_some, hm])
        rw [hbelow, Node.ofRest_children hown]
        obtain ⟨hi, rfl⟩ := List.getElem?_eq_some_iff.mp hn
        rw [List.set_getElem_self]

end Forest

end Pagewright
