import Pagewright.Markup.Element
import Pagewright.Proofs.Page.Likeness

/-!
# Conforming pages

On a conforming page, only tags that take children have any. Whether a page is of this kind can be
computed (`Forest.conforming`), and is told node by node (`Forest.Conforms`).

What keeps a page conforming:

* taking a node out, always (`Conforms.takeAt`): a node is left with fewer children, or with none;
* putting a node below a tag that takes children, or at top level (`Conforms.modifyChildrenAt`);
* changes of labels that keep the tag, at one node (`Conforms.modifyAt`) or at all of them
  (`Conforms.relabel`);
* whatever leaves the page alike (`Conforms.of_alike`).
-/

namespace Pagewright

/-! ## 1. Conforming -/

/-- The node has no children, or its tag takes some. -/
def Node.Proper (n : Node) : Prop := n.children ≠ [] → acceptsChildren n.tag = true

/-- A node of the same tag that has children only where this one has. -/
theorem Node.Proper.of_tag {n m : Node} (h : n.Proper) (htag : m.tag = n.tag)
    (hsome : m.children ≠ [] → n.children ≠ []) : m.Proper := by
  intro hm
  rw [htag]
  exact h (hsome hm)

/-- Every node of the page is of this kind. -/
def Forest.Conforms (ns : Forest) : Prop := ns.Every Node.Proper

mutual

/-- Whether a node and all below it are of this kind. -/
def Node.conforming : Node → Bool
  | ⟨_, none⟩ => true
  | ⟨l, some cs⟩ => (cs.isEmpty || acceptsChildren l.tag) && Forest.conforming cs

/-- Whether a page conforms. -/
def Forest.conforming : List Node → Bool
  | [] => true
  | n :: ns => n.conforming && Forest.conforming ns

end

namespace Forest

variable {ns ms rest : Forest} {n m t : Node}

@[simp] theorem conforms_nil : Conforms [] := every_nil

/-- Conforming, node by node. -/
theorem conforms_cons : Conforms (n :: ns) ↔ n.Proper ∧ Conforms n.children ∧ Conforms ns :=
  every_cons

/-- Conforming is computed right. -/
theorem conforming_iff (ns : Forest) : conforming ns = true ↔ Conforms ns := by
  induction ns using Forest.induct with
  | nil => simp [conforming]
  | cons n ns below rest =>
      rw [conforms_cons, conforming, Bool.and_eq_true, rest, ← and_assoc, and_congr_left_iff]
      intro _
      rcases n with ⟨l, _ | cs⟩
      · simp [Node.conforming, Node.Proper]
      · rw [Node.children_mk, Option.getD_some] at below
        rw [Node.conforming, Bool.and_eq_true, below, Node.children_mk, Option.getD_some,
          and_congr_left_iff]
        intro _
        rw [Node.Proper, Bool.or_eq_true, List.isEmpty_iff, Node.children_mk, Option.getD_some,
          or_iff_not_imp_left]
        rfl

instance (ns : Forest) : Decidable ns.Conforms := decidable_of_iff _ (conforming_iff ns)

/-- Conforming, told of the nodes side by side. -/
theorem conforms_iff_forall_mem : Conforms ns ↔ ∀ n ∈ ns, n.Proper ∧ Conforms n.children := by
  induction ns with
  | nil => simp
  | cons n ns ih => rw [conforms_cons, List.forall_mem_cons, ih, and_assoc]

theorem conforms_append : Conforms (ns ++ ms) ↔ Conforms ns ∧ Conforms ms := by
  rw [conforms_iff_forall_mem, conforms_iff_forall_mem, conforms_iff_forall_mem,
    List.forall_mem_append]

theorem Conforms.subset (h : Conforms ns) (hsub : ∀ n ∈ ms, n ∈ ns) : Conforms ms :=
  conforms_iff_forall_mem.mpr fun n hn => conforms_iff_forall_mem.mp h n (hsub n hn)

theorem Conforms.of_mem (h : Conforms ns) (hn : n ∈ ns) : n.Proper ∧ Conforms n.children :=
  conforms_iff_forall_mem.mp h n hn

theorem conforms_singleton : Conforms [n] ↔ n.Proper ∧ Conforms n.children := by
  rw [conforms_cons, and_iff_left conforms_nil]

/-- A node of the page, with all that lies below it. -/
theorem Conforms.of_nodeAt (h : Conforms ns) {p : List Nat} (hn : ns.nodeAt p = some n) :
    Conforms [n] := by
  induction p generalizing ns with
  | nil => rw [nodeAt_nil] at hn; cases hn
  | cons i p ih =>
      cases p with
      | nil =>
          rw [nodeAt_singleton] at hn
          exact conforms_singleton.mpr (h.of_mem (List.mem_of_getElem? hn))
      | cons j p =>
          rw [nodeAt_cons_cons] at hn
          obtain ⟨m, hm, hn⟩ := Option.bind_eq_some_iff.mp hn
          exact ih (h.of_mem (List.mem_of_getElem? hm)).2 hn

/-- Another node in one place of a list. -/
theorem Conforms.set (h : Conforms ns) (i : Nat) (hm : m.Proper) (hc : Conforms m.children) :
    Conforms (ns.set i m) := by
  rw [conforms_iff_forall_mem]
  intro n hn
  rcases List.mem_or_eq_of_mem_set hn with hmem | rfl
  · exact h.of_mem hmem
  · exact ⟨hm, hc⟩

theorem Conforms.insertAt (h : Conforms ns) (ht : Conforms [t]) (k : Nat) :
    Conforms (insertAt k t ns) := by
  have hperm : (Pagewright.insertAt k t ns).Perm (t :: ns) :=
    List.perm_insertIdx t ns (Nat.min_le_right k ns.length)
  have hboth : Conforms (t :: ns) := conforms_append.mpr ⟨ht, h⟩
  exact hboth.subset fun n hn => hperm.mem_iff.mp hn

/-! ## 2. Changes at a path -/

/-- **Taking a node out keeps a page conforming**, and so is the node. -/
theorem Conforms.takeAt (h : Conforms ns) {p : List Nat} (ht : ns.takeAt p = some (t, rest)) :
    Conforms [t] ∧ Conforms rest := by
  refine ⟨h.of_nodeAt (nodeAt_of_takeAt ht), ?_⟩
  induction p generalizing ns rest with
  | nil => rw [Forest.takeAt] at ht; cases ht
  | cons i p ih =>
      cases p with
      | nil =>
          rw [takeAt_singleton] at ht
          obtain ⟨n, _, he⟩ := Option.map_eq_some_iff.mp ht
          cases he
          exact h.subset fun n hn => List.mem_of_mem_eraseIdx hn
      | cons j p =>
          rw [takeAt_cons_cons] at ht
          obtain ⟨n, hn, ht⟩ := Option.bind_eq_some_iff.mp ht
          obtain ⟨⟨t', below⟩, hbelow, he⟩ := Option.map_eq_some_iff.mp ht
          cases he
          obtain ⟨hproper, hchildren⟩ := h.of_mem (List.mem_of_getElem? hn)
          -- something is taken from below, so there were children before
          have hsome : n.children ≠ [] := by
            intro hnone
            rw [hnone, takeAt_nil] at hbelow
            cases hbelow
          refine h.set i (hproper.of_tag rfl fun _ => hsome) ?_
          rw [Node.children_ofRest]
          exact ih hchildren hbelow

/-- **Changing the children of a tag that takes some**, or the top level, keeps a page conforming,
    where the new list conforms. -/
theorem Conforms.modifyChildrenAt {f : List Node → List Node} (h : Conforms ns) {q : List Nat}
    {l : List Node} (hl : ns.listAt q = some l) (hf : Conforms (f l))
    (hparent : ∀ n, ns.nodeAt q = some n → acceptsChildren n.tag = true)
    (hm : ns.modifyChildrenAt f q = some ms) : Conforms ms := by
  induction q generalizing ns ms with
  | nil =>
      rw [listAt_nil, Option.some.injEq] at hl
      rw [modifyChildrenAt_nil, Option.some.injEq] at hm
      rw [← hm, hl]
      exact hf
  | cons i q ih =>
      rw [listAt_cons] at hl
      obtain ⟨n, hn, hl⟩ := Option.bind_eq_some_iff.mp hl
      rw [modifyChildrenAt_cons, hn, Option.bind_some] at hm
      obtain ⟨cs, hcs, he⟩ := Option.map_eq_some_iff.mp hm
      obtain ⟨hproper, hchildren⟩ := h.of_mem (List.mem_of_getElem? hn)
      rw [← he]
      cases q with
      | nil =>
          have htakes := hparent n (by rw [nodeAt_singleton, hn])
          refine h.set i (fun _ => htakes) (ih hchildren hl (fun m hm => ?_) hcs)
          rw [nodeAt_nil] at hm
          cases hm
      | cons j q =>
          -- there is a node further down, so there were children before
          have hsome : n.children ≠ [] := by
            intro hnone
            rw [hnone, listAt_cons, List.getElem?_nil] at hl
            cases hl
          refine h.set i (hproper.of_tag rfl fun _ => hsome)
            (ih hchildren hl (fun m hm => ?_) hcs)
          exact hparent m (by rw [nodeAt_cons_cons, hn, Option.bind_some, hm])

/-- Changing a label but not its tag keeps a page conforming. -/
theorem Conforms.modifyAt {f : Label → Label} (hf : ∀ l, (f l).tag = l.tag) (h : Conforms ns)
    {p : List Nat} (hm : ns.modifyAt (fun n => ⟨f n.label, n.list⟩) p = some ms) :
    Conforms ms := by
  induction p generalizing ns ms with
  | nil => rw [Forest.modifyAt] at hm; cases hm
  | cons i p ih =>
      cases p with
      | nil =>
          rw [modifyAt_singleton] at hm
          obtain ⟨n, hn, he⟩ := Option.map_eq_some_iff.mp hm
          obtain ⟨hproper, hchildren⟩ := h.of_mem (List.mem_of_getElem? hn)
          rw [← he]
          exact h.set i (hproper.of_tag (hf n.label) id) hchildren
      | cons j p =>
          rw [modifyAt_cons_cons] at hm
          obtain ⟨n, hn, hm⟩ := Option.bind_eq_some_iff.mp hm
          obtain ⟨cs, hcs, he⟩ := Option.map_eq_some_iff.mp hm
          obtain ⟨hproper, hchildren⟩ := h.of_mem (List.mem_of_getElem? hn)
          have hsome : n.children ≠ [] := by
            intro hnone
            rw [hnone, modifyAt_nil] at hcs
            cases hcs
          rw [← he]
          exact h.set i (hproper.of_tag rfl fun _ => hsome) (ih hchildren hcs)

/-! ## 3. Changes throughout -/

/-- **Changes of labels that keep the tags keep a page conforming.** -/
theorem Conforms.relabel {σ : Type} {f : Label → σ → Label × σ} (hf : ∀ l s, (f l s).1.tag = l.tag)
    (h : Conforms ns) (s : σ) : Conforms (relabel f ns s).1 := by
  induction ns using Forest.induct generalizing s with
  | nil =>
      rw [Forest.relabel]
      exact conforms_nil
  | cons n ns below rest =>
      obtain ⟨hproper, hchildren, hrest⟩ := conforms_cons.mp h
      rcases n with ⟨l, _ | cs⟩
      · rw [Forest.relabel, Node.relabel, conforms_cons]
        exact ⟨fun hno => absurd rfl hno, conforms_nil, rest hrest _⟩
      · rw [Forest.relabel, Node.relabel, conforms_cons]
        refine ⟨hproper.of_tag (hf l s) fun hsome => ?_, below hchildren _, rest hrest _⟩
        rintro (rfl : cs = [])
        exact hsome (by rw [Forest.relabel]; rfl)

/-- A page like a conforming one conforms. -/
theorem Conforms.of_alike (h : Conforms ns) (ha : Alike ms ns) : Conforms ms := by
  induction ha with
  | nil => exact conforms_nil
  | @cons n m ns ms label below _ ihbelow ihrest =>
      obtain ⟨hproper, hchildren, hrest⟩ := conforms_cons.mp h
      refine conforms_cons.mpr
        ⟨hproper.of_tag label.tag fun hsome hnone => ?_, ihbelow hchildren, ihrest hrest⟩
      rw [hnone] at below
      cases hn : n.children with
      | nil => exact hsome hn
      | cons c cs => rw [hn] at below; cases below

end Forest

end Pagewright
