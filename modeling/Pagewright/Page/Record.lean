import Pagewright.Json.Reader
import Pagewright.Json.Shape
import Pagewright.Page.Node

/-!
# Pages as JSON

A node is an object with the fields `id`, `tag`, `attr`, `text` and `children`, of which only the
tag must be there (`Node.toJson`, `Node.ofJson`). Reading is generous where nothing is lost by it:

* an optional field may be `null`, which is the same as absent;
* `null` among the children, and at the top level of a page, stands for no node;
* fields that are not known are passed over;
* the fields may also come as an array, in the order above.

Of several faults in one object the first in its own order is reported, and a missing tag only
after that. A page is an array of nodes or a single node (`Forest.ofJson`).
-/

namespace Pagewright

open Json (ShapeError)

/-! ## 1. Writing -/

/-- A field that is written only where it is there. -/
def optionalField (name : String) : Option Json → List (String × Json)
  | none => []
  | some v => [(name, v)]

/-- The fields of a label that come before the children. -/
def Label.fields (l : Label) : List (String × Json) :=
  optionalField "id" (l.id.map .str) ++ [("tag", .str l.tag)] ++
    optionalField "attr" (l.attr.map (.obj ·.entries)) ++ optionalField "text" (l.text.map .str)

mutual

/-- A node as a value: absent fields are not written. -/
def Node.toJson : Node → Json
  | ⟨l, none⟩ => .obj l.fields
  | ⟨l, some cs⟩ => .obj (l.fields ++ [("children", .arr (Forest.toItems cs))])

/-- Nodes as values. -/
def Forest.toItems : List Node → List Json
  | [] => []
  | n :: ns => n.toJson :: Forest.toItems ns

end

/-- A page as a value. -/
def Forest.toJson (ns : Forest) : Json := .arr (Forest.toItems ns)

/-- A page as it is saved. -/
def Forest.save (ns : Forest) : String := ns.toJson.pretty

/-! ## 2. Reading a node -/

/-- The fields of a node as far as they are read. -/
structure NodeDraft where
  id : Option String
  tag : Option String
  attr : Option Attributes
  text : Option String
  list : Option (List Node)

namespace NodeDraft

/-- Before the first field. -/
def empty : NodeDraft := ⟨none, none, none, none, none⟩

/-- Reads attributes, or nothing for `null`. -/
def asAttributes : Json → Except ShapeError (Option Attributes)
  | .null => .ok none
  | .obj ms => .ok (some (Attributes.ofPairs ms))
  | v => Json.mismatch v "a map"

/-- Reads the list of children where it is `null`; any other value here is no list. -/
def asNoList : Json → Except ShapeError (Option (List Node))
  | .null => .ok none
  | v => Json.mismatch v "a sequence"

/-- Reads one field, unless it is a list of children. -/
def putPlain (d : NodeDraft) (name : String) (v : Json) : Except ShapeError NodeDraft :=
  if name = "id" then (Json.asOptionalText v).map fun x => { d with id := x }
  else if name = "tag" then (Json.asText v).map fun x => { d with tag := some x }
  else if name = "attr" then (asAttributes v).map fun x => { d with attr := x }
  else if name = "text" then (Json.asOptionalText v).map fun x => { d with text := x }
  else if name = "children" then (asNoList v).map fun x => { d with list := x }
  else .ok d

/-- The node, where the tag was there; otherwise the given error. -/
def toNode (d : NodeDraft) (missing : ShapeError) : Except ShapeError Node :=
  match d.tag with
  | none => .error missing
  | some tag => .ok ⟨⟨d.id, tag, d.attr, d.text⟩, d.list⟩

end NodeDraft

/-- The fields of a node, in the order of the array form. -/
def nodeFields : List String := ["id", "tag", "attr", "text", "children"]

/-- What is expected where a node is. -/
def nodeShape : String := "struct ProtypoNode"

mutual

/-- Reads a node. -/
def Node.ofJson : Json → Except ShapeError Node
  | .obj ms =>
      match NodeDraft.fill .empty ms with
      | .error e => .error e
      | .ok d => d.toNode (.missingField "tag")
  | .arr items =>
      match NodeDraft.fillInOrder .empty nodeFields items with
      | .error e => .error e
      | .ok d =>
          match d.toNode (.wrongLength 1 (nodeShape ++ " with 5 elements")) with
          | .error e => .error e
          | .ok n =>
              if nodeFields.length < items.length then Json.surplus items.length else .ok n
  | v => Json.mismatch v nodeShape

/-- Reads the fields of an object. -/
def NodeDraft.fill (d : NodeDraft) : List (String × Json) → Except ShapeError NodeDraft
  | [] => .ok d
  | (name, v) :: rest =>
      match NodeDraft.putField d name v with
      | .error e => .error e
      | .ok d' => NodeDraft.fill d' rest

/-- Reads the items of an array as the fields of these names. -/
def NodeDraft.fillInOrder (d : NodeDraft) (names : List String) :
    List Json → Except ShapeError NodeDraft
  | [] => .ok d
  | v :: rest =>
      match names with
      | [] => .ok d
      | name :: names' =>
          match NodeDraft.putField d name v with
          | .error e => .error e
          | .ok d' => NodeDraft.fillInOrder d' names' rest

/-- Reads one field. -/
def NodeDraft.putField (d : NodeDraft) (name : String) : Json → Except ShapeError NodeDraft
  | .arr items =>
      if name = "children" then
        match Forest.ofItems items with
        | .error e => .error e
        | .ok ns => .ok { d with list := some ns }
      else d.putPlain name (.arr items)
  | v => d.putPlain name v

/-- Reads nodes, `null` being none. -/
def Forest.ofItems : List Json → Except ShapeError (List Node)
  | [] => .ok []
  | .null :: rest => Forest.ofItems rest
  | v :: rest =>
      match Node.ofJson v with
      | .error e => .error e
      | .ok n =>
          match Forest.ofItems rest with
          | .error e => .error e
          | .ok ns => .ok (n :: ns)

end

/-- Reads nodes of which none may be `null`. -/
def Forest.ofStrictItems : List Json → Except ShapeError (List Node)
  | [] => .ok []
  | v :: rest =>
      match Node.ofJson v with
      | .error e => .error e
      | .ok n =>
          match Forest.ofStrictItems rest with
          | .error e => .error e
          | .ok ns => .ok (n :: ns)

/-! ## 3. Reading a page -/

/-- Why a page cannot be loaded. -/
inductive LoadError where
  | text (e : Json.ReadError)
  | shape (e : ShapeError)
  | notAPage (found : Json)

/-- The kind of a value, in words. -/
def kindInWords : Json → String
  | .null => "null"
  | .bool _ => "a boolean"
  | .num _ => "a number"
  | .str _ => "a string"
  | .arr _ => "an array"
  | .obj _ => "an object"

/-- The wording of an error, where there is one; that of a damaged text is left open. -/
def LoadError.message? : LoadError → Option String
  | .text _ => none
  | .shape e => some ("Invalid Protypo JSON: " ++ e.message)
  | .notAPage v => some ("Expected a node or an array of nodes, found " ++ kindInWords v)

/-- Reads a page: an array of nodes, or a single node. -/
def Forest.ofJson : Json → Except LoadError Forest
  | .arr items => (Forest.ofItems items).mapError .shape
  | .obj ms => ((Node.ofJson (.obj ms)).map fun n => [n]).mapError .shape
  | v => .error (.notAPage v)

/-- Reads a page from a text. -/
def Forest.load (text : String) : Except LoadError Forest :=
  match Json.read text with
  | .error e => .error (.text e)
  | .ok v => Forest.ofJson v

end Pagewright
