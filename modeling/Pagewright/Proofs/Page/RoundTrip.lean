import Pagewright.Page.Record
import Pagewright.Proofs.Page.Walk

/-!
# Pages survive JSON

What is written of a page reads as this page, whatever its labels, texts and attributes are and
however deep it is:

* every record is read by one loop over its fields (`Json.readFields`), and what this loop makes of
  fields that were written, all of them or only where they are there;
* the fields of a label read as this label (`NodeDraft.readFields_fields`);
* `Forest.ofItems_toItems` -- nodes side by side read as themselves, by induction on the page;
* `Node.ofJson_toJson`, `Forest.ofJson_toJson` -- one node, and a whole page.

Absent and empty lists of children, attributes and texts are told apart by what is written, so the
pages are equal and not only alike.
-/

namespace Pagewright

open Json (ShapeError)

/-! ## 1. Fields in turn -/

namespace Json

section Fields

variable {δ : Type} (put : δ → String → Json → Except ShapeError δ)

/-- Reads the fields of an object in turn into a draft; `put` reads one of them. -/
def readFields (d : δ) : List (String × Json) → Except ShapeError δ
  | [] => .ok d
  | (name, v) :: rest =>
      match put d name v with
      | .error e => .error e
      | .ok d' => readFields d' rest

variable {put}

/-- A reader that takes the fields one by one, and stops at the first fault, is this loop. -/
theorem eq_readFields {read : δ → List (String × Json) → Except ShapeError δ}
    (nil : ∀ d, read d [] = .ok d)
    (fault : ∀ d name v ms e, put d name v = .error e → read d ((name, v) :: ms) = .error e)
    (next : ∀ d name v ms d', put d name v = .ok d' → read d ((name, v) :: ms) = read d' ms)
    (d : δ) (ms : List (String × Json)) : read d ms = readFields put d ms := by
  induction ms generalizing d with
  | nil => rw [nil, readFields]
  | cons field ms ih =>
      obtain ⟨name, v⟩ := field
      rw [readFields]
      cases hput : put d name v with
      | error e => exact fault d name v ms e hput
      | ok d' => exact (next d name v ms d' hput).trans (ih d')

/-- A field that reads well is one step. -/
theorem readFields_cons {d d' : δ} {name : String} {v : Json} (h : put d name v = .ok d')
    (ms : List (String × Json)) : readFields put d ((name, v) :: ms) = readFields put d' ms := by
  rw [readFields, h]

/-- Fields that are read first leave a draft from which the others are read. -/
theorem readFields_append {ms : List (String × Json)} {d d' : δ}
    (h : readFields put d ms = .ok d') (ms' : List (String × Json)) :
    readFields put d (ms ++ ms') = readFields put d' ms' := by
  induction ms generalizing d with
  | nil =>
      rw [readFields, Except.ok.injEq] at h
      rw [List.nil_append, h]
  | cons field ms ih =>
      obtain ⟨name, v⟩ := field
      rw [readFields] at h
      cases hput : put d name v with
      | error e => rw [hput] at h; cases h
      | ok next =>
          rw [hput] at h
          rw [List.cons_append, readFields_cons hput]
          exact ih h

/-- A field that is written only where it is there leaves the draft as it was where it is not. -/
theorem readFields_optionalField {α : Type} {d d' : δ} {name : String} {x : Option α}
    {f : α → Json} (absent : x = none → d' = d)
    (present : ∀ a, x = some a → put d name (f a) = .ok d') :
    readFields put d (optionalField name (x.map f)) = .ok d' := by
  cases x with
  | none => rw [absent rfl, Option.map_none, optionalField, readFields]
  | some a =>
      rw [Option.map_some, optionalField, readFields_cons (present a rfl), readFields]

end Fields

end Json

open Json (readFields eq_readFields readFields_cons readFields_append readFields_optionalField)

/-! ## 2. The fields of a node -/

namespace NodeDraft

/-- The draft in which all fields of a node have been read. -/
def ofLabel (l : Label) (list : Option (List Node)) : NodeDraft :=
  ⟨l.id, some l.tag, l.attr, l.text, list⟩

theorem toNode_ofLabel (l : Label) (list : Option (List Node)) (missing : ShapeError) :
    (ofLabel l list).toNode missing = .ok ⟨l, list⟩ := rfl

theorem fill_eq (d : NodeDraft) (ms : List (String × Json)) :
    NodeDraft.fill d ms = readFields NodeDraft.putField d ms :=
  eq_readFields (fun _ => by rw [NodeDraft.fill])
    (fun _ _ _ _ _ hput => by rw [NodeDraft.fill, hput])
    (fun _ _ _ _ _ hput => by rw [NodeDraft.fill, hput]) d ms

theorem putField_attr (d : NodeDraft) (a : Attributes) :
    NodeDraft.putField d "attr" (.obj a.entries) = .ok { d with attr := some a } := by
  have h : NodeDraft.putField d "attr" (.obj a.entries) =
      .ok { d with attr := some (Attributes.ofPairs a.entries) } := rfl
  rw [h, Attributes.ofPairs_entries]

theorem putField_children {items : List Json} {ns : List Node} (d : NodeDraft)
    (h : Forest.ofItems items = .ok ns) :
    NodeDraft.putField d "children" (.arr items) = .ok { d with list := some ns } := by
  rw [NodeDraft.putField, if_pos rfl, h]

/-- **The fields of a label read as this label**, a field that is not written as absent. -/
theorem readFields_fields (l : Label) :
    readFields NodeDraft.putField .empty l.fields = .ok (ofLabel l none) := by
  obtain ⟨id, tag, attr, text⟩ := l
  have hid : readFields NodeDraft.putField .empty (optionalField "id" (id.map .str)) =
      .ok ⟨id, none, none, none, none⟩ :=
    readFields_optionalField (by rintro rfl; rfl) (by rintro _ rfl; rfl)
  have htag : NodeDraft.putField ⟨id, none, none, none, none⟩ "tag" (.str tag) =
      .ok ⟨id, some tag, none, none, none⟩ := rfl
  have hattr : readFields NodeDraft.putField ⟨id, some tag, none, none, none⟩
      (optionalField "attr" (attr.map (.obj ·.entries))) = .ok ⟨id, some tag, attr, none, none⟩ :=
    readFields_optionalField (by rintro rfl; rfl) (by rintro a rfl; exact putField_attr _ a)
  have htext : readFields NodeDraft.putField ⟨id, some tag, attr, none, none⟩
      (optionalField "text" (text.map .str)) = .ok ⟨id, some tag, attr, text, none⟩ :=
    readFields_optionalField (by rintro rfl; rfl) (by rintro _ rfl; rfl)
  rw [Label.fields, List.append_assoc, List.append_assoc, readFields_append hid,
    List.singleton_append, readFields_cons htag, readFields_append hattr, htext]
  rfl

end NodeDraft

/-! ## 3. Nodes and pages -/

/-- The value of a node is an object: never `null`. -/
theorem Node.toJson_eq_obj (n : Node) : ∃ ms, n.toJson = .obj ms := by
  rcases n with ⟨l, _ | cs⟩
  · exact ⟨_, by rw [Node.toJson]⟩
  · exact ⟨_, by rw [Node.toJson]⟩

/-- A node reads as itself where the nodes below it do. -/
theorem Node.ofJson_toJson_of_children {n : Node}
    (below : Forest.ofItems (Forest.toItems n.children) = .ok n.children) :
    Node.ofJson n.toJson = .ok n := by
  rcases n with ⟨l, _ | cs⟩
  · rw [Node.toJson, Node.ofJson, NodeDraft.fill_eq, NodeDraft.readFields_fields]
    exact NodeDraft.toNode_ofLabel l none _
  · rw [Node.children_mk, Option.getD_some] at below
    have hlist : readFields NodeDraft.putField (NodeDraft.ofLabel l none)
        [("children", .arr (Forest.toItems cs))] = .ok (NodeDraft.ofLabel l (some cs)) :=
      readFields_cons (NodeDraft.putField_children _ below) []
    rw [Node.toJson, Node.ofJson, NodeDraft.fill_eq,
      readFields_append (NodeDraft.readFields_fields l), hlist]
    exact NodeDraft.toNode_ofLabel l (some cs) _

namespace Forest

theorem ofItems_cons {n : Node} {items : List Json} (h : Node.ofJson n.toJson = .ok n)
    {ns : List Node} (hrest : ofItems items = .ok ns) :
    ofItems (n.toJson :: items) = .ok (n :: ns) := by
  obtain ⟨ms, hms⟩ := n.toJson_eq_obj
  rw [hms] at h ⊢
  rw [ofItems, h, hrest]
  intro hnull
  cases hnull

/-- **Nodes side by side read as what was written.** -/
theorem ofItems_toItems (ns : Forest) : ofItems (toItems ns) = .ok ns := by
  induction ns using Forest.induct with
  | nil => rw [toItems, ofItems]
  | cons n ns below rest =>
      rw [toItems]
      exact ofItems_cons (Node.ofJson_toJson_of_children below) rest

end Forest

/-- **A node reads as what was written.** -/
theorem Node.ofJson_toJson (n : Node) : Node.ofJson n.toJson = .ok n :=
  Node.ofJson_toJson_of_children (Forest.ofItems_toItems n.children)

namespace Forest

/-- No node is written as `null`, so that the stricter reading of nodes gives the same. -/
theorem ofStrictItems_toItems (ns : Forest) : ofStrictItems (toItems ns) = .ok ns := by
  induction ns with
  | nil => rw [toItems, ofStrictItems]
  | cons n ns ih => rw [toItems, ofStrictItems, n.ofJson_toJson, ih]

/-- **A page reads as what was written.** -/
theorem ofJson_toJson (ns : Forest) : Forest.ofJson ns.toJson = .ok ns := by
  rw [toJson, Forest.ofJson, ofItems_toItems]
  rfl

end Forest

end Pagewright
