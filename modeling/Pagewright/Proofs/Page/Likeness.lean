import Pagewright.Proofs.Page.Shedding

/-!
# Pages that are alike

Two pages are *alike* when an editor shows no difference between them: the same nodes in the same
order, where

* attributes count by what is under each name, so that their order does not matter and absent
  attributes are as good as empty ones;
* an absent list of children is as good as an empty one;
* the absent text of a literal text is as good as the empty text.

Alike pages have the same ids and the same paths to them, and every change at a path leaves alike
pages alike. A page that has shed empty lists is like the one before (`Sheds.alike`), and so is one
with a node changed into a node like it (`alike_modifyAt`).
-/

namespace Pagewright

/-! ## 1. Alike -/

/-- Labels that differ at most in the order of attributes, in absent and empty attributes, and in
    the absent and empty text of literal texts. -/
structure Label.Alike (a b : Label) : Prop where
  id : a.id = b.id
  tag : a.tag = b.tag
  value : ∀ name, a.valueOf name = b.valueOf name
  text : a.text = b.text ∨ (a.isText = true ∧ a.textContent = b.textContent)

/-- Pages that agree node by node, with alike labels. -/
inductive Forest.Alike : List Node → List Node → Prop where
  | nil : Forest.Alike [] []
  | cons {n m : Node} {ns ms : List Node} (label : n.label.Alike m.label)
      (below : Forest.Alike n.children m.children) (rest : Forest.Alike ns ms) :
      Forest.Alike (n :: ns) (m :: ms)

/-- Nodes that agree in their labels and in all that lies below them. -/
structure Node.Alike (n m : Node) : Prop where
  label : n.label.Alike m.label
  below : Forest.Alike n.children m.children

namespace Label.Alike

theorem refl (l : Label) : l.Alike l := ⟨rfl, rfl, fun _ => rfl, Or.inl rfl⟩

theorem isText {a b : Label} (h : a.Alike b) : a.isText = b.isText := by
  rw [Label.isText, Label.isText, h.tag]

theorem ident {a b : Label} (h : a.Alike b) : a.ident = b.ident := by
  rw [Label.ident, Label.ident, h.id]

theorem textContent {a b : Label} (h : a.Alike b) : a.textContent = b.textContent := by
  rcases h.text with e | ⟨_, e⟩
  · rw [Label.textContent, Label.textContent, e]
  · exact e

theorem symm {a b : Label} (h : a.Alike b) : b.Alike a where
  id := h.id.symm
  tag := h.tag.symm
  value name := (h.value name).symm
  text := h.text.imp Eq.symm fun e => ⟨h.isText ▸ e.1, e.2.symm⟩

theorem trans {a b c : Label} (h : a.Alike b) (h' : b.Alike c) : a.Alike c where
  id := h.id.trans h'.id
  tag := h.tag.trans h'.tag
  value name := (h.value name).trans (h'.value name)
  text := by
    rcases h.text with e | ⟨ht, e⟩
    · rcases h'.text with e' | ⟨ht', e'⟩
      · exact Or.inl (e.trans e')
      · exact Or.inr ⟨h.isText ▸ ht', h.textContent.trans e'⟩
    · exact Or.inr ⟨ht, e.trans h'.textContent⟩

end Label.Alike

namespace Label

/-- A name reads as what was set, every other name as before. -/
theorem valueOf_setAttribute (l : Label) (name : String) (value : Option Json) (other : String) :
    (l.setAttribute name value).valueOf other =
      if other = name then value else l.valueOf other := by
  cases value with
  | some v =>
      rw [setAttribute, putAttribute, valueOf, Option.bind_some]
      by_cases h : other = name
      · rw [if_pos h, h, Attributes.find_put_self]
      · rw [if_neg h, Attributes.find_put_of_ne h, valueOf]
        cases l.attr with
        | none => rfl
        | some a => rfl
  | none =>
      rw [setAttribute, eraseAttribute]
      cases hl : l.attr with
      | none =>
          rw [valueOf, hl, Option.bind_none, ite_self]
      | some a =>
          have e : ({ l with
              attr := if (a.erase name).isEmpty then none else some (a.erase name) } :
              Label).valueOf other = (a.erase name).find other := by
            rw [valueOf]
            by_cases hempty : (a.erase name).isEmpty = true
            · rw [if_pos hempty, Attributes.find_of_isEmpty hempty, Option.bind_none]
            · rw [if_neg hempty, Option.bind_some]
          rw [e, valueOf, hl, Option.bind_some]
          by_cases h : other = name
          · rw [if_pos h, h, Attributes.find_erase_self]
          · rw [if_neg h, Attributes.find_erase_of_ne h]

/-- Setting an attribute changes nothing but the attributes. -/
theorem setAttribute_eq (l : Label) (name : String) (value : Option Json) :
    ∃ attr, l.setAttribute name value = { l with attr := attr } := by
  rcases l with ⟨id, tag, _ | a, text⟩
  · cases value with
    | none => exact ⟨none, rfl⟩
    | some v => exact ⟨_, rfl⟩
  · cases value with
    | none => exact ⟨_, rfl⟩
    | some v => exact ⟨_, rfl⟩

theorem Alike.setAttribute {a b : Label} (h : a.Alike b) (name : String) (value : Option Json) :
    (a.setAttribute name value).Alike (b.setAttribute name value) := by
  have hvalue : ∀ other, (a.setAttribute name value).valueOf other =
      (b.setAttribute name value).valueOf other := by
    intro other
    rw [valueOf_setAttribute, valueOf_setAttribute, h.value other]
  obtain ⟨x, hx⟩ := a.setAttribute_eq name value
  obtain ⟨y, hy⟩ := b.setAttribute_eq name value
  rw [hx, hy] at hvalue ⊢
  exact ⟨h.id, h.tag, hvalue, h.text⟩

/-- **Setting an attribute back**: with the value that it had, the label is like it was. -/
theorem setAttribute_setAttribute_alike (l : Label) (name : String) (value : Option Json) :
    ((l.setAttribute name value).setAttribute name (l.valueOf name)).Alike l := by
  have hvalue : ∀ other, ((l.setAttribute name value).setAttribute name (l.valueOf name)).valueOf
      other = l.valueOf other := by
    intro other
    rw [valueOf_setAttribute, valueOf_setAttribute]
    by_cases h : other = name
    · rw [if_pos h, h]
    · rw [if_neg h, if_neg h]
  obtain ⟨x, hx⟩ := l.setAttribute_eq name value
  obtain ⟨y, hy⟩ := Label.setAttribute_eq { l with attr := x } name (l.valueOf name)
  rw [hx, hy] at hvalue ⊢
  exact ⟨rfl, rfl, hvalue, Or.inl rfl⟩

theorem Alike.setText {a b : Label} (h : a.Alike b) (text : String) :
    Label.Alike { a with text := some text } { b with text := some text } :=
  ⟨h.id, h.tag, h.value, Or.inl rfl⟩

/-- **Setting a text back**: a literal text with the content that it had is like it was. -/
theorem setText_setText_alike {l : Label} (h : l.isText = true) :
    Label.Alike { l with text := some l.textContent } l :=
  ⟨rfl, rfl, fun _ => rfl, Or.inr ⟨h, rfl⟩⟩

end Label

namespace Forest

theorem Alike.refl (ns : Forest) : Alike ns ns := by
  induction ns using Forest.induct with
  | nil => exact .nil
  | cons n ns below rest => exact .cons (.refl n.label) below rest

theorem Alike.symm {ns ms : Forest} (h : Alike ns ms) : Alike ms ns := by
  induction h with
  | nil => exact .nil
  | cons label _ _ below rest => exact .cons label.symm below rest

theorem Alike.trans {ns ms ls : Forest} (h : Alike ns ms) (h' : Alike ms ls) : Alike ns ls := by
  induction h generalizing ls with
  | nil => exact h'
  | cons label _ _ below rest =>
      cases h' with
      | cons label' below' rest' => exact .cons (label.trans label') (below below') (rest rest')

end Forest

theorem Node.Alike.refl (n : Node) : n.Alike n := ⟨.refl n.label, .refl n.children⟩

namespace Forest.Alike

variable {ns ms : List Node}

/-! ## 2. Lists -/

theorem length_eq (h : Forest.Alike ns ms) : ns.length = ms.length := by
  induction h with
  | nil => rfl
  | cons _ _ _ _ rest => rw [List.length_cons, List.length_cons, rest]

theorem getElem? (h : Forest.Alike ns ms) {i : Nat} {n : Node} (hn : ns[i]? = some n) :
    ∃ m, ms[i]? = some m ∧ n.Alike m := by
  induction h generalizing i with
  | nil => rw [List.getElem?_nil] at hn; cases hn
  | @cons a b as bs label below _ _ rest =>
      cases i with
      | zero =>
          obtain rfl := Option.some.inj (List.getElem?_cons_zero.symm.trans hn)
          exact ⟨b, List.getElem?_cons_zero, label, below⟩
      | succ i =>
          rw [List.getElem?_cons_succ] at hn
          rw [List.getElem?_cons_succ]
          exact rest hn

theorem set (h : Forest.Alike ns ms) (i : Nat) {n m : Node} (hnm : n.Alike m) :
    Forest.Alike (ns.set i n) (ms.set i m) := by
  induction h generalizing i with
  | nil => exact .nil
  | cons label below hrest _ rest =>
      cases i with
      | zero => exact .cons hnm.label hnm.below hrest
      | succ i => exact .cons label below (rest i)

theorem eraseIdx (h : Forest.Alike ns ms) (i : Nat) :
    Forest.Alike (ns.eraseIdx i) (ms.eraseIdx i) := by
  induction h generalizing i with
  | nil => exact .nil
  | cons label below hrest _ rest =>
      cases i with
      | zero => exact hrest
      | succ i => exact .cons label below (rest i)

theorem insertIdx (h : Forest.Alike ns ms) (i : Nat) {n m : Node} (hnm : n.Alike m) :
    Forest.Alike (ns.insertIdx i n) (ms.insertIdx i m) := by
  induction h generalizing i with
  | nil =>
      cases i with
      | zero => exact .cons hnm.label hnm.below .nil
      | succ i => exact .nil
  | cons label below hrest _ rest =>
      cases i with
      | zero => exact .cons hnm.label hnm.below (.cons label below hrest)
      | succ i => exact .cons label below (rest i)

theorem insertAt (h : Forest.Alike ns ms) (k : Nat) {n m : Node} (hnm : n.Alike m) :
    Forest.Alike (Pagewright.insertAt k n ns) (Pagewright.insertAt k m ms) := by
  rw [Pagewright.insertAt, Pagewright.insertAt, h.length_eq]
  exact h.insertIdx _ hnm

/-! ## 3. Ids and paths -/

theorem idents_eq (h : Forest.Alike ns ms) :
    (labels ns).map Label.ident = (labels ms).map Label.ident := by
  induction h with
  | nil => rfl
  | cons label _ _ below rest =>
      rw [labels_cons, labels_cons, List.map_cons, List.map_cons, List.map_append,
        List.map_append, label.ident, below, rest]

theorem ids_eq (h : Forest.Alike ns ms) : ids ns = ids ms := ids_eq_of_idents h.idents_eq

theorem pathFrom_eq (h : Forest.Alike ns ms) (id : String) :
    ∀ k, pathFrom id k ns = pathFrom id k ms := by
  induction h with
  | nil => intro k; rfl
  | @cons n m ns ms label _ _ below rest =>
      intro k
      have e : n.ident = m.ident := label.ident
      rw [pathFrom_cons, pathFrom_cons, e, below 0, rest (k + 1)]

theorem pathOf_eq (h : Forest.Alike ns ms) (id : String) : pathOf ns id = pathOf ms id :=
  h.pathFrom_eq id 0

theorem nodeAt (h : Forest.Alike ns ms) {p : List Nat} {n : Node}
    (hn : Forest.nodeAt ns p = some n) : ∃ m, Forest.nodeAt ms p = some m ∧ n.Alike m := by
  induction p generalizing ns ms with
  | nil => rw [nodeAt_nil] at hn; cases hn
  | cons i p ih =>
      cases p with
      | nil =>
          rw [nodeAt_singleton] at hn
          rw [nodeAt_singleton]
          exact h.getElem? hn
      | cons j p =>
          rw [nodeAt_cons_cons] at hn
          obtain ⟨a, ha, hn⟩ := Option.bind_eq_some_iff.mp hn
          obtain ⟨b, hb, hab⟩ := h.getElem? ha
          rw [nodeAt_cons_cons, hb, Option.bind_some]
          exact ih hab.below hn

/-- What is found on a page is found on one like it, at the same number. -/
theorem find (h : Forest.Alike ns ms) {id : String} {found : Match}
    (hf : Forest.find ns id = some found) :
    ∃ found', Forest.find ms id = some found' ∧ found.node.Alike found'.node := by
  obtain ⟨q, hp, hn, _, _⟩ := pathOf_of_find hf
  obtain ⟨m, hm, hnm⟩ := h.nodeAt hn
  obtain ⟨m', q', i', _, hm', _, hf'⟩ := find_of_pathOf ((h.pathOf_eq id).symm.trans hp)
  obtain rfl := Option.some.inj (hm.symm.trans hm')
  exact ⟨_, hf', hnm⟩

/-! ## 4. Changes -/

theorem takeAt (h : Forest.Alike ns ms) {p : List Nat} {t : Node} {rest : Forest}
    (ht : Forest.takeAt ns p = some (t, rest)) :
    ∃ t' rest', Forest.takeAt ms p = some (t', rest') ∧ t.Alike t' ∧
      Forest.Alike rest rest' := by
  induction p generalizing ns ms rest with
  | nil => rw [Forest.takeAt] at ht; cases ht
  | cons i p ih =>
      cases p with
      | nil =>
          rw [takeAt_singleton] at ht
          obtain ⟨n, hn, he⟩ := Option.map_eq_some_iff.mp ht
          cases he
          obtain ⟨m, hm, hnm⟩ := h.getElem? hn
          exact ⟨m, ms.eraseIdx i, by rw [takeAt_singleton, hm, Option.map_some], hnm,
            h.eraseIdx i⟩
      | cons j p =>
          rw [takeAt_cons_cons] at ht
          obtain ⟨n, hn, ht⟩ := Option.bind_eq_some_iff.mp ht
          obtain ⟨⟨u, left⟩, hu, he⟩ := Option.map_eq_some_iff.mp ht
          cases he
          obtain ⟨m, hm, hnm⟩ := h.getElem? hn
          obtain ⟨u', left', hu', huu', hleft⟩ := ih hnm.below hu
          refine ⟨u', ms.set i (.ofRest m.label left'),
            by rw [takeAt_cons_cons, hm, Option.bind_some, hu', Option.map_some], huu',
            h.set i ⟨hnm.label, ?_⟩⟩
          rw [Node.children_ofRest, Node.children_ofRest]
          exact hleft

theorem modifyChildrenAt (h : Forest.Alike ns ms) {f g : List Node → List Node}
    (hfg : ∀ {l l' : List Node}, Forest.Alike l l' → Forest.Alike (f l) (g l')) {q : List Nat}
    {ns' : Forest} (hn : Forest.modifyChildrenAt f ns q = some ns') :
    ∃ ms', Forest.modifyChildrenAt g ms q = some ms' ∧ Forest.Alike ns' ms' := by
  induction q generalizing ns ms ns' with
  | nil =>
      obtain rfl := Option.some.inj ((modifyChildrenAt_nil f ns).symm.trans hn)
      exact ⟨g ms, modifyChildrenAt_nil g ms, hfg h⟩
  | cons i q ih =>
      rw [modifyChildrenAt_cons] at hn
      obtain ⟨n, hi, hn⟩ := Option.bind_eq_some_iff.mp hn
      obtain ⟨cs, hcs, rfl⟩ := Option.map_eq_some_iff.mp hn
      obtain ⟨m, hm, hnm⟩ := h.getElem? hi
      obtain ⟨ds, hds, hcd⟩ := ih hnm.below hcs
      exact ⟨ms.set i ⟨m.label, some ds⟩,
        by rw [modifyChildrenAt_cons, hm, Option.bind_some, hds, Option.map_some],
        h.set i ⟨hnm.label, hcd⟩⟩

theorem modifyAt (h : Forest.Alike ns ms) {f g : Node → Node}
    (hfg : ∀ {n m : Node}, n.Alike m → (f n).Alike (g m)) {p : List Nat} {ns' : Forest}
    (hn : Forest.modifyAt f ns p = some ns') :
    ∃ ms', Forest.modifyAt g ms p = some ms' ∧ Forest.Alike ns' ms' := by
  induction p generalizing ns ms ns' with
  | nil => rw [Forest.modifyAt] at hn; cases hn
  | cons i p ih =>
      cases p with
      | nil =>
          rw [modifyAt_singleton] at hn
          obtain ⟨n, hi, rfl⟩ := Option.map_eq_some_iff.mp hn
          obtain ⟨m, hm, hnm⟩ := h.getElem? hi
          exact ⟨ms.set i (g m), by rw [modifyAt_singleton, hm, Option.map_some],
            h.set i (hfg hnm)⟩
      | cons j p =>
          rw [modifyAt_cons_cons] at hn
          obtain ⟨n, hi, hn⟩ := Option.bind_eq_some_iff.mp hn
          obtain ⟨cs, hcs, rfl⟩ := Option.map_eq_some_iff.mp hn
          obtain ⟨m, hm, hnm⟩ := h.getElem? hi
          obtain ⟨ds, hds, hcd⟩ := ih hnm.below hcs
          exact ⟨ms.set i ⟨m.label, some ds⟩,
            by rw [modifyAt_cons_cons, hm, Option.bind_some, hds, Option.map_some],
            h.set i ⟨hnm.label, hcd⟩⟩

end Forest.Alike

/-! ## 5. Pages like the one before -/

namespace Forest

/-- A page that has shed empty lists is like the one before. -/
theorem Sheds.alike {ns ms : Forest} (h : Sheds ns ms) : Alike ms ns := by
  induction h with
  | nil => exact .nil
  | @cons n m ns ms label _ _ _ below rest =>
      have hlabel : m.label.Alike n.label := by
        rw [label]
        exact .refl n.label
      exact .cons hlabel below rest

/-- A change of one node into one like it leaves a page like the one before. -/
theorem alike_modifyAt {f : Node → Node} {ns ms : Forest} {p : List Nat} {n : Node}
    (hn : ns.nodeAt p = some n) (hf : (f n).Alike n) (h : ns.modifyAt f p = some ms) :
    Alike ms ns := by
  induction p generalizing ns ms with
  | nil => rw [nodeAt_nil] at hn; cases hn
  | cons i p ih =>
      -- the page is itself with the node at the first number set to itself
      have back : ∀ {m m' : Node}, ns[i]? = some m → m'.Alike m → Alike (ns.set i m') ns := by
        intro m m' hm hmm
        have hset := (Alike.refl ns).set i hmm
        obtain ⟨hi, rfl⟩ := List.getElem?_eq_some_iff.mp hm
        rw [List.set_getElem_self] at hset
        exact hset
      cases p with
      | nil =>
          rw [nodeAt_singleton] at hn
          rw [modifyAt_singleton, hn, Option.map_some] at h
          obtain rfl := Option.some.inj h
          exact back hn hf
      | cons j p =>
          rw [nodeAt_cons_cons] at hn
          obtain ⟨m, hm, hn⟩ := Option.bind_eq_some_iff.mp hn
          rw [modifyAt_cons_cons, hm, Option.bind_some] at h
          obtain ⟨cs, hcs, rfl⟩ := Option.map_eq_some_iff.mp h
          exact back hm ⟨.refl m.label, ih hn hcs⟩

end Forest

end Pagewright
