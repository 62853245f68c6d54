import Pagewright.Editor.Subtitle
import Pagewright.Page.Record

/-!
# The outline of a page

The tree widget shows a page as rows that can be moved about. A row names a tag and carries its
label, so that the page can be rebuilt from the rows:

* where the first child of a tag is literal text, this child gets no row of its own: it is folded
  into the row of the tag, whose subtitle is the shortened text;
* a row that stands for literal text has this text, unshortened, as its subtitle;
* the row whose id is the selected one is marked.

`Forest.outline` makes the rows, `Outline.forest` rebuilds the page from them, however they were
moved.
-/

namespace Pagewright

open Json (ShapeError)

/-! ## 1. Rows -/

/-- What a row shows and carries. -/
structure Row where
  title : String
  subtitle : Option String
  expanded : Bool
  id : String
  selected : Bool
  source : Node
  folded : Option Node

/-- A row with the rows below it. -/
inductive Outline where
  | mk (row : Row) (children : List Outline)

namespace Outline

/-- The row without the rows below it. -/
def row : Outline → Row
  | ⟨r, _⟩ => r

/-- The rows below. -/
def children : Outline → List Outline
  | ⟨_, os⟩ => os

end Outline

/-- A tag and, after a colon, a subtitle that is not empty. -/
def rowTitle (tag : String) (subtitle : Option String) : String :=
  match subtitle with
  | some s => if s = "" then tag else tag ++ ": " ++ s
  | none => tag

/-- The row of a label, with a text folded into it or not. -/
def Label.row (selected : Option String) (l : Label) (folded : Option Node) : Row :=
  let subtitle :=
    match folded with
    | some n => some (Subtitle.ofText n.label.textContent)
    | none => l.text
  { title := rowTitle l.tag subtitle
    subtitle := subtitle
    expanded := true
    id := l.ident.getD ""
    selected := selected.isSome && l.ident = selected
    source := ⟨l, none⟩
    folded := folded }

/-! ## 2. From the page -/

mutual

/-- The row of a node, with the rows below it. -/
def Node.outline (selected : Option String) : Node → Outline
  | ⟨l, none⟩ => ⟨l.row selected none, []⟩
  | ⟨l, some []⟩ => ⟨l.row selected none, []⟩
  | ⟨l, some (⟨fl, fcs⟩ :: rest)⟩ =>
      if fl.isText then ⟨l.row selected (some ⟨fl, fcs⟩), Forest.outline selected rest⟩
      else ⟨l.row selected none, Node.outline selected ⟨fl, fcs⟩ :: Forest.outline selected rest⟩

/-- The rows of nodes side by side. -/
def Forest.outline (selected : Option String) : List Node → List Outline
  | [] => []
  | n :: ns => n.outline selected :: Forest.outline selected ns

end

/-! ## 3. Back to the page -/

mutual

/-- The node that a row with the rows below it stands for. No children are written as no list. -/
def Outline.node : Outline → Node
  | ⟨r, os⟩ =>
      let below := r.folded.toList ++ Outline.forest os
      ⟨r.source.label, if below.isEmpty then none else some below⟩

/-- The nodes that rows stand for. -/
def Outline.forest : List Outline → List Node
  | [] => []
  | o :: os => o.node :: Outline.forest os

end

/-! ## 4. As JSON -/

mutual

/-- A row as a value. -/
def Outline.toJson : Outline → Json
  | ⟨r, os⟩ =>
      .obj ([("title", .str r.title)] ++ optionalField "subtitle" (r.subtitle.map .str) ++
        [("children", .arr (Outline.toItems os)), ("expanded", .bool r.expanded),
         ("id", .str r.id), ("selected", .bool r.selected), ("tag", r.source.toJson)] ++
        optionalField "collapsedText" (r.folded.map Node.toJson))

/-- Rows as values. -/
def Outline.toItems : List Outline → List Json
  | [] => []
  | o :: os => o.toJson :: Outline.toItems os

end

/-- The fields of a row as far as they are read. -/
structure RowDraft where
  title : Option String
  subtitle : Option String
  children : List Outline
  expanded : Option Bool
  id : Option String
  selected : Option Bool
  source : Option Node
  folded : Option Node

namespace RowDraft

/-- Before the first field. -/
def empty : RowDraft := ⟨none, none, [], none, none, none, none, none⟩

/-- Reads a folded text, or nothing for `null`. -/
def asOptionalNode : Json → Except ShapeError (Option Node)
  | .null => .ok none
  | v => (Node.ofJson v).map some

/-- Reads one field, unless it is a list of rows. -/
def putPlain (d : RowDraft) (name : String) (v : Json) : Except ShapeError RowDraft :=
  if name = "title" then (Json.asText v).map fun x => { d with title := some x }
  else if name = "subtitle" then (Json.asOptionalText v).map fun x => { d with subtitle := x }
  else if name = "children" then Json.mismatch v "a sequence"
  else if name = "expanded" then (Json.asBool v).map fun x => { d with expanded := some x }
  else if name = "id" then (Json.asText v).map fun x => { d with id := some x }
  else if name = "selected" then (Json.asBool v).map fun x => { d with selected := some x }
  else if name = "tag" then (Node.ofJson v).map fun x => { d with source := some x }
  else if name = "collapsedText" then (asOptionalNode v).map fun x => { d with folded := x }
  else .ok d

/-- A field that must be there; `missing` makes the error from its name and place. -/
def need {α : Type} (missing : String → Nat → ShapeError) (name : String) (place : Nat) :
    Option α → Except ShapeError α
  | some x => .ok x
  | none => .error (missing name place)

/-- The row, where no field is missing that must be there. -/
def toOutline (d : RowDraft) (missing : String → Nat → ShapeError) :
    Except ShapeError Outline := do
  let title ← need missing "title" 0 d.title
  let expanded ← need missing "expanded" 3 d.expanded
  let id ← need missing "id" 4 d.id
  let selected ← need missing "selected" 5 d.selected
  let source ← need missing "tag" 6 d.source
  .ok ⟨⟨title, d.subtitle, expanded, id, selected, source, d.folded⟩, d.children⟩

end RowDraft

/-- The fields of a row, in the order of the array form. -/
def rowFields : List String :=
  ["title", "subtitle", "children", "expanded", "id", "selected", "tag", "collapsedText"]

/-- What is expected where a row is. -/
def rowShape : String := "struct VisualTreeNode"

/-- A missing field of an object. -/
def missingByName (name : String) (_ : Nat) : ShapeError := .missingField name

/-- A missing item of the array form. -/
def missingByPlace (_ : String) (place : Nat) : ShapeError :=
  .wrongLength place (rowShape ++ " with 8 elements")

mutual

/-- Reads a row. -/
def Outline.ofJson : Json → Except ShapeError Outline
  | .obj ms =>
      match RowDraft.fill .empty ms with
      | .error e => .error e
      | .ok d => d.toOutline missingByName
  | .arr items =>
      match RowDraft.fillInOrder .empty rowFields items with
      | .error e => .error e
      | .ok d =>
          match d.toOutline missingByPlace with
          | .error e => .error e
          | .ok o => if rowFields.length < items.length then Json.surplus items.length else .ok o
  | v => Json.mismatch v rowShape

/-- Reads the fields of an object. -/
def RowDraft.fill (d : RowDraft) : List (String × Json) → Except ShapeError RowDraft
  | [] => .ok d
  | (name, v) :: rest =>
      match RowDraft.putField d name v with
      | .error e => .error e
      | .ok d' => RowDraft.fill d' rest

/-- Reads the items of an array as the fields of these names. -/
def RowDraft.fillInOrder (d : RowDraft) (names : List String) :
    List Json → Except ShapeError RowDraft
  | [] => .ok d
  | v :: rest =>
      match names with
      | [] => .ok d
      | name :: names' =>
          match RowDraft.putField d name v with
          | .error e => .error e
          | .ok d' => RowDraft.fillInOrder d' names' rest

/-- Reads one field. -/
def RowDraft.putField (d : RowDraft) (name : String) : Json → Except ShapeError RowDraft
  | .arr items =>
      if name = "children" then
        match Outline.ofItems items with
        | .error e => .error e
        | .ok os => .ok { d with children := os }
      else d.putPlain name (.arr items)
  | v => d.putPlain name v

/-- Reads rows. -/
def Outline.ofItems : List Json → Except ShapeError (List Outline)
  | [] => .ok []
  | v :: rest =>
      match Outline.ofJson v with
      | .error e => .error e
      | .ok o =>
          match Outline.ofItems rest with
          | .error e => .error e
          | .ok os => .ok (o :: os)

end

/-- Reads a list of rows. -/
def Outline.listOfJson : Json → Except ShapeError (List Outline)
  | .arr items => Outline.ofItems items
  | v => Json.mismatch v "a sequence"

end Pagewright
