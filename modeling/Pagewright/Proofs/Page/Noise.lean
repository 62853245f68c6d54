import Pagewright.Proofs.Page.RoundTrip

/-!
# What loading passes over

Other programs write pages less sparingly than `Forest.toJson` does, and what they add to it is
passed over at every depth, in any combination:

* `WrittenAs` -- a field that is absent may be written as `null`;
* `NoisyFields` -- the fields of a node come in any order, and among fields that are not known;
* `Forest.Noisy` -- nodes side by side stand among any number of `null`s; what `Forest.toJson`
  writes is a case of it (`Forest.noisy_toItems`);
* `NodeDraft.Due` -- what carries the reading through such fields: each field of the draft is as it
  will be, or is still to come;
* `Forest.ofJson_of_noisy` -- **a page that is written with noise loads as this page**, and so does
  a single node without the array around it.
-/

namespace Pagewright

open Json (ShapeError readFields)

/-! ## 1. Pages with noise -/

/-- What may be written of a field: its value, if it has one; otherwise nothing, or `null`. -/
inductive WrittenAs (name : String) : Option Json → List (String × Json) → Prop where
  | value (v : Json) : WrittenAs name (some v) [(name, v)]
  | absent : WrittenAs name none []
  | null : WrittenAs name none [(name, .null)]

/-- What may be written of a node with this label, of whose children `list` is written: its fields
    and any fields that are not known, in any order. -/
inductive NoisyFields (l : Label) (list : Option Json) : List (String × Json) → Prop where
  | mk {id attr text children unknown ms : List (String × Json)}
      (hid : WrittenAs "id" (l.id.map .str) id)
      (hattr : WrittenAs "attr" (l.attr.map (.obj ·.entries)) attr)
      (htext : WrittenAs "text" (l.text.map .str) text)
      (hchildren : WrittenAs "children" list children)
      (hunknown : ∀ m ∈ unknown, m.1 ∉ nodeFields)
      (hms : ms.Perm (id ++ [("tag", .str l.tag)] ++ attr ++ text ++ children ++ unknown)) :
      NoisyFields l list ms

/-- What may be written of nodes side by side: their values with noise, among `null`s. -/
inductive Forest.Noisy : List Node → List Json → Prop where
  | nil : Noisy [] []
  | null {ns : List Node} {items : List Json} (h : Noisy ns items) : Noisy ns (.null :: items)
  | node {l : Label} {list : Option (List Node)} {below : List Json} {ms : List (String × Json)}
      {ns : List Node} {items : List Json}
      (fields : NoisyFields l (list.map fun _ => .arr below) ms)
      (children : Noisy (list.getD []) below) (h : Noisy ns items) :
      Noisy (⟨l, list⟩ :: ns) (.obj ms :: items)

/-! ## 2. Without noise -/

theorem writtenAs_optionalField (name : String) (x : Option Json) :
    WrittenAs name x (optionalField name x) := by
  cases x with
  | none => exact .absent
  | some v => exact .value v

theorem noisyFields_fields (l : Label) (list : Option Json) :
    NoisyFields l list (l.fields ++ optionalField "children" list) := by
  refine .mk (writtenAs_optionalField _ _) (writtenAs_optionalField _ _)
    (writtenAs_optionalField _ _) (writtenAs_optionalField _ _) (List.forall_mem_nil _) ?_
  rw [List.append_nil]
  exact List.Perm.refl _

/-- No noise at all is noise, too. -/
theorem Forest.noisy_toItems (ns : Forest) : Noisy ns (toItems ns) := by
  induction ns using Forest.induct with
  | nil =>
      rw [toItems]
      exact .nil
  | cons n ns below rest =>
      obtain ⟨l, list⟩ := n
      have hfields := noisyFields_fields l (list.map fun _ => .arr (toItems (list.getD [])))
      have hvalue : (Node.mk l list).toJson = .obj (l.fields ++
          optionalField "children" (list.map fun _ => .arr (toItems (list.getD [])))) := by
        cases list with
        | none => rw [Node.toJson, Option.map_none, optionalField, List.append_nil]
        | some cs => rw [Node.toJson]; rfl
      rw [toItems, hvalue]
      exact .node hfields below rest

/-! ## 3. Fields in any order -/

namespace NodeDraft

/-- The draft with the field of this name taken from another; it is the same draft if no field has
    this name. -/
def copy (source d : NodeDraft) (name : String) : NodeDraft :=
  if name = "id" then { d with id := source.id }
  else if name = "tag" then { d with tag := source.tag }
  else if name = "attr" then { d with attr := source.attr }
  else if name = "text" then { d with text := source.text }
  else if name = "children" then { d with list := source.list }
  else d

/-- Each field of the draft is as in the final one, or its name is among those to come. -/
structure Due (final d : NodeDraft) (names : List String) : Prop where
  id : d.id = final.id ∨ "id" ∈ names
  tag : d.tag = final.tag ∨ "tag" ∈ names
  attr : d.attr = final.attr ∨ "attr" ∈ names
  text : d.text = final.text ∨ "text" ∈ names
  list : d.list = final.list ∨ "children" ∈ names

/-- Where no name is to come, all fields are as in the final draft. -/
theorem Due.eq {final d : NodeDraft} (h : final.Due d []) : d = final := by
  obtain ⟨id, tag, attr, text, list⟩ := d
  obtain ⟨hid, htag, hattr, htext, hlist⟩ := h
  simp only [List.not_mem_nil, or_false] at hid htag hattr htext hlist
  rw [hid, htag, hattr, htext, hlist]

/-- A field that is taken from the final draft is due no longer. -/
theorem Due.copy {final d : NodeDraft} {name : String} {names : List String}
    (h : final.Due d (name :: names)) : final.Due (final.copy d name) names := by
  obtain ⟨hid, htag, hattr, htext, hlist⟩ := h
  constructor <;> grind [NodeDraft.copy]

/-- The field reads as what the final draft has in its place. -/
def Brings (final : NodeDraft) (m : String × Json) : Prop :=
  ∀ d, NodeDraft.putField d m.1 m.2 = .ok (final.copy d m.1)

/-- **Fields that each bring what the final draft has lead to it**, in any order. -/
theorem readFields_of_due {final d : NodeDraft} {ms : List (String × Json)}
    (hput : ∀ m ∈ ms, final.Brings m)
    (hdue : final.Due d (Members.names ms)) :
    readFields NodeDraft.putField d ms = .ok final := by
  induction ms generalizing d with
  | nil => rw [readFields, hdue.eq]
  | cons m ms ih =>
      rw [List.forall_mem_cons] at hput
      rw [Json.readFields_cons (hput.1 d)]
      exact ih hput.2 hdue.copy

/-- A field that is not known is passed over. -/
theorem brings_unknown {m : String × Json} (h : m.1 ∉ nodeFields) (final : NodeDraft) :
    final.Brings m := by
  obtain ⟨name, v⟩ := m
  simp only [nodeFields, List.mem_cons, List.not_mem_nil, or_false, not_or] at h
  obtain ⟨hid, htag, hattr, htext, hchildren⟩ := h
  intro d
  have hplain : d.putPlain name v = .ok (final.copy d name) := by
    rw [putPlain, copy, if_neg hid, if_neg hid, if_neg htag, if_neg htag, if_neg hattr,
      if_neg hattr, if_neg htext, if_neg htext, if_neg hchildren, if_neg hchildren]
  cases v with
  | arr items => rw [NodeDraft.putField, if_neg hchildren, hplain]
  | null | bool | num | str | obj => exact hplain

/-- An optional field brings its value where it is there, and nothing where it is absent or
    `null`. -/
theorem brings_of_writtenAs {α : Type} {name : String} {x : Option α} {f : α → Json}
    {ms : List (String × Json)} (h : WrittenAs name (x.map f) ms) {final : NodeDraft}
    (value : ∀ a, x = some a → final.Brings (name, f a))
    (null : x = none → final.Brings (name, .null)) : ∀ m ∈ ms, final.Brings m := by
  cases x with
  | some a =>
      cases h
      exact List.forall_mem_singleton.mpr (value a rfl)
  | none =>
      cases h with
      | absent => exact List.forall_mem_nil _
      | null => exact List.forall_mem_singleton.mpr (null rfl)

end NodeDraft

/-- An optional field that is there comes among the fields of which it is one. -/
theorem WrittenAs.due {α : Type} {name : String} {x : Option α} {f : α → Json}
    {part ms : List (String × Json)} (h : WrittenAs name (x.map f) part) (hsub : part ⊆ ms) :
    none = x ∨ name ∈ Members.names ms := by
  cases x with
  | none => exact .inl rfl
  | some a =>
      cases h
      exact .inr (List.mem_map_of_mem (f := Prod.fst) (hsub (List.mem_singleton_self _)))

/-! ## 4. Loading -/

section Fields

variable {l : Label} {list : Option (List Node)} {below : List Json} {ms : List (String × Json)}

/-- Every field brings what the node has in its place. -/
theorem NoisyFields.brings (h : NoisyFields l (list.map fun _ => .arr below) ms)
    (hbelow : Forest.ofItems below = .ok (list.getD [])) :
    ∀ m ∈ ms, (NodeDraft.ofLabel l list).Brings m := by
  obtain ⟨hid, hattr, htext, hchildren, hunknown, hms⟩ := h
  obtain ⟨id, tag, attr, text⟩ := l
  have hvalues : ∀ cs, list = some cs →
      (NodeDraft.ofLabel ⟨id, tag, attr, text⟩ list).Brings ("children", .arr below) := by
    rintro cs rfl d
    exact NodeDraft.putField_children d hbelow
  -- a field of the list is one of those that it is a permutation of
  intro m hm
  rw [hms.mem_iff] at hm
  simp only [List.mem_append, or_assoc] at hm
  rcases hm with hm | hm | hm | hm | hm | hm
  · exact NodeDraft.brings_of_writtenAs hid (by rintro s rfl d; rfl) (by rintro rfl d; rfl) m hm
  · rw [List.mem_singleton.mp hm]
    exact fun d => rfl
  · exact NodeDraft.brings_of_writtenAs hattr
      (by rintro a rfl d; exact NodeDraft.putField_attr d a) (by rintro rfl d; rfl) m hm
  · exact NodeDraft.brings_of_writtenAs htext (by rintro s rfl d; rfl) (by rintro rfl d; rfl) m hm
  · exact NodeDraft.brings_of_writtenAs hchildren hvalues (by rintro rfl d; rfl) m hm
  · exact NodeDraft.brings_unknown (hunknown m hm) _

/-- Every field of the node that is there is to come. -/
theorem NoisyFields.due (h : NoisyFields l (list.map fun _ => .arr below) ms) :
    (NodeDraft.ofLabel l list).Due .empty (Members.names ms) := by
  obtain ⟨hid, hattr, htext, hchildren, -, hms⟩ := h
  have hparts := hms.symm.subset
  simp only [List.append_subset] at hparts
  obtain ⟨⟨⟨⟨⟨hsub_id, hsub_tag⟩, hsub_attr⟩, hsub_text⟩, hsub_children⟩, -⟩ := hparts
  have htag : WrittenAs "tag" ((some l.tag).map .str) [("tag", .str l.tag)] := .value _
  exact ⟨hid.due hsub_id, htag.due hsub_tag, hattr.due hsub_attr, htext.due hsub_text,
    hchildren.due hsub_children⟩

/-- **The fields of a node with noise read as this node.** -/
theorem NoisyFields.ofJson (h : NoisyFields l (list.map fun _ => .arr below) ms)
    (hbelow : Forest.ofItems below = .ok (list.getD [])) :
    Node.ofJson (.obj ms) = .ok ⟨l, list⟩ := by
  rw [Node.ofJson, NodeDraft.fill_eq, NodeDraft.readFields_of_due (h.brings hbelow) h.due]
  exact NodeDraft.toNode_ofLabel l list _

end Fields

namespace Forest

/-- Nodes side by side that are written with noise read as these nodes. -/
theorem ofItems_of_noisy {ns : List Node} {items : List Json} (h : Noisy ns items) :
    ofItems items = .ok ns := by
  induction h with
  | nil => rw [ofItems]
  | null h ih => rw [ofItems, ih]
  | node fields children h hbelow hrest =>
      -- the second equation of the reader asks that the value is not `null`
      rw [ofItems, fields.ofJson hbelow, hrest]
      intro hnull
      cases hnull

/-- **A page that is written with noise loads as this page**: `null`s among the nodes, fields that
    are not known, fields in another order, and `null` for a field that is absent, at any depth.
    A single node loads the same without the array around it. -/
theorem ofJson_of_noisy :
    (∀ (ns : Forest) (items : List Json), Noisy ns items → Forest.ofJson (.arr items) = .ok ns) ∧
      ∀ (n : Node) (v : Json), Noisy [n] [v] →
        Forest.ofJson v = .ok [n] ∧ Forest.ofJson v = Forest.ofJson (.arr [v]) := by
  have hpage : ∀ (ns : Forest) (items : List Json), Noisy ns items →
      Forest.ofJson (.arr items) = .ok ns := by
    intro ns items h
    rw [Forest.ofJson, ofItems_of_noisy h]
    rfl
  refine ⟨hpage, fun n v h => ?_⟩
  have hnode : Forest.ofJson v = .ok [n] := by
    cases h with
    | null h => cases h
    | node fields children h =>
        rw [Forest.ofJson, fields.ofJson (ofItems_of_noisy children)]
        rfl
  exact ⟨hnode, hnode.trans (hpage [n] [v] h).symm⟩

/-- A paragraph with a text in it. -/
def note : Node := ⟨{ Label.ofTag "p" with id := some "note" }, some [.ofText "Hello"]⟩

/-- Its fields, as another program may write them. -/
def noteFields : List (String × Json) :=
  [("id", .str "note"), ("tag", .str "p"), ("text", .null),
    ("children", .arr [.null, .obj [("attr", .null), ("tag", .str "text"), ("text", .str "Hello"),
      ("children", .null)], .null]),
    ("version", .arr [.null])]

theorem noisy_note {items : List Json} {ns : Forest} (h : Noisy ns items) :
    Noisy (note :: ns) (.obj noteFields.reverse :: items) := by
  have hversion : ∀ m ∈ [("version", Json.arr [.null])], m.1 ∉ nodeFields :=
    List.forall_mem_singleton.mpr (by decide)
  have htext : Noisy [.ofText "Hello"] [.null, .obj [("attr", .null), ("tag", .str "text"),
      ("text", .str "Hello"), ("children", .null)], .null] :=
    .null (.node (.mk .absent .null (.value _) .null (List.forall_mem_nil _)
      (List.Perm.swap _ _ _)) .nil (.null .nil))
  exact .node (.mk (.value _) .absent .null (.value _) hversion
    (List.reverse_perm noteFields)) htext h

/-- The paragraph loads among `null`s, and without an array around it. -/
theorem ofJson_note :
    Forest.ofJson (.arr [.null, .obj noteFields.reverse, .null]) = .ok [note] ∧
      Forest.ofJson (.obj noteFields.reverse) = .ok [note] :=
  ⟨ofJson_of_noisy.1 _ _ (.null (noisy_note (.null .nil))),
    (ofJson_of_noisy.2 _ _ (noisy_note .nil)).1⟩

end Forest

end Pagewright
