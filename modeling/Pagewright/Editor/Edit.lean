import Pagewright.Markup.Element
import Pagewright.Page.Ids
import Pagewright.Page.Lookup
import Pagewright.Page.Record

/-!
# Edits

An edit changes a page in one place, which it names by an id: it inserts, moves or removes a tag,
sets an attribute or a text, or puts a whole new page in.

* An edit is checked against the page before anything changes (`Edit.check`), so it applies in
  full or not at all (`Edit.apply`). An editor has one page and changes it in place
  (`Edit.applyTo`).
* `Edit.inverse` is the edit that takes an edit back; it is worked out on the page before.
* Taking back is not bound by which tags take children (`Edit.restore`, in place `Edit.restoreTo`):
  a tag returns to where it was.

An edit without a parent works at top level. Places beyond the end mean the end. The place of a
move counts after the tag has left its old one.
-/

namespace Pagewright

open Json (ShapeError)

/-! ## 1. Edits and faults -/

/-- A change to a page. -/
inductive Edit where
  | insert (parent : Option String) (index : Nat) (tag : Node)
  | move (id : String) (parent : Option String) (index : Nat)
  | remove (id : String)
  | setAttribute (id name : String) (value : Option Json)
  | setText (id text : String)
  | replacePage (nodes : Forest)

/-- Why an edit does not apply. -/
inductive EditFault where
  | tagNotFound (id : String)
  | parentNotFound (id : String)
  | cycle
  | takesNoChildren (tag : String)
  | missingId (tag : String)
  | duplicateId (id : String)
  | notText (id : String)
  deriving DecidableEq

/-- The wording of a fault. -/
def EditFault.message : EditFault → String
  | .tagNotFound id => "Tag not found: " ++ id
  | .parentNotFound id => "Parent not found: " ++ id
  | .cycle => "Would create cycle"
  | .takesNoChildren tag => "Tag '" ++ tag ++ "' cannot have children"
  | .missingId tag => "Tag '" ++ tag ++ "' has no id"
  | .duplicateId id => "Id already in use: " ++ id
  | .notText id => "Tag " ++ id ++ " is not a text node"

/-! ## 2. Taking out and putting in -/

/-- Takes the node at a path out. A parent that is left without children loses its list. -/
def Forest.takeAt : Forest → List Nat → Option (Node × Forest)
  | _, [] => none
  | ns, [i] =>
      match ns[i]? with
      | none => none
      | some n => some (n, ns.eraseIdx i)
  | ns, i :: j :: path =>
      match ns[i]? with
      | none => none
      | some parent =>
          match Forest.takeAt parent.children (j :: path) with
          | none => none
          | some (n, rest) =>
              some (n, ns.set i ⟨parent.label, if rest.isEmpty then none else some rest⟩)

/-- Takes the first node with this id out. -/
def Forest.detach (ns : Forest) (id : String) : Except EditFault (Node × Forest) :=
  match ns.pathOf id with
  | none => .error (.tagNotFound id)
  | some path =>
      match ns.takeAt path with
      | none => .error (.tagNotFound id)
      | some taken => .ok taken

/-- Puts a node at a place of a list, or at its end. -/
def insertAt (index : Nat) (n : Node) (ns : List Node) : List Node :=
  ns.insertIdx (min index ns.length) n

/-- Puts a node among the children of the parent, or at top level. -/
def Forest.attach (ns : Forest) (parent : Option String) (index : Nat) (n : Node) :
    Except EditFault Forest :=
  match parent with
  | none => .ok (insertAt index n ns)
  | some id =>
      match ns.pathOf id with
      | none => .error (.parentNotFound id)
      | some path =>
          match ns.modifyChildrenAt (insertAt index n) path with
          | none => .error (.parentNotFound id)
          | some ns' => .ok ns'

/-- Changes the label of the first node with this id. -/
def Forest.modifyLabel (ns : Forest) (id : String) (f : Label → Label) : Except EditFault Forest :=
  match ns.pathOf id with
  | none => .error (.tagNotFound id)
  | some path =>
      match ns.modifyAt (fun n => ⟨f n.label, n.list⟩) path with
      | none => .error (.tagNotFound id)
      | some ns' => .ok ns'

/-! ## 3. Checking -/

namespace Edit

/-- The node with this id. -/
def target (page : Forest) (id : String) : Except EditFault Match :=
  match page.find id with
  | none => .error (.tagNotFound id)
  | some found => .ok found

/-- Whether the parent is there and, where the policy counts, takes children. -/
def checkParent (page : Forest) (policy : Bool) : Option String → Except EditFault Unit
  | none => .ok ()
  | some id =>
      match page.find id with
      | none => .error (.parentNotFound id)
      | some found =>
          if policy && !acceptsChildren found.node.tag then
            .error (.takesNoChildren found.node.tag)
          else .ok ()

/-- Whether none of the ids is on the page. -/
def checkNew (page : Forest) : List String → Except EditFault Unit
  | [] => .ok ()
  | id :: ids => if (page.find id).isSome then .error (.duplicateId id) else checkNew page ids

/-- Whether a tag may go below a parent: not below itself. -/
def checkAcyclic (n : Node) : Option String → Except EditFault Unit
  | none => .ok ()
  | some id => if n.contains id then .error .cycle else .ok ()

/-- Whether an edit applies to a page. `policy` says whether it counts which tags take children. -/
def check (page : Forest) (policy : Bool) : Edit → Except EditFault Unit
  | insert parent _ tag =>
      if tag.ident.isNone then .error (.missingId tag.tag)
      else
        match checkNew page (Forest.ids [tag]) with
        | .error e => .error e
        | .ok () => checkParent page policy parent
  | move id parent _ =>
      match target page id with
      | .error e => .error e
      | .ok found =>
          match checkAcyclic found.node parent with
          | .error e => .error e
          | .ok () => checkParent page policy parent
  | remove id => (target page id).map fun _ => ()
  | setAttribute id _ _ => (target page id).map fun _ => ()
  | setText id _ =>
      match target page id with
      | .error e => .error e
      | .ok found => if found.node.label.isText then .ok () else .error (.notText id)
  | replacePage _ => .ok ()

/-- Whether an edit applies to a page, the policy on children included. -/
def validate (e : Edit) (page : Forest) : Except EditFault Unit := e.check page true

/-! ## 4. Applying -/

/-- The page after an edit that has been checked. -/
def perform (page : Forest) : Edit → Except EditFault Forest
  | insert parent index tag => page.attach parent index tag
  | move id parent index =>
      match page.detach id with
      | .error e => .error e
      | .ok (n, rest) => rest.attach parent index n
  | remove id => (page.detach id).map (·.2)
  | setAttribute id name value => page.modifyLabel id (·.setAttribute name value)
  | setText id text => page.modifyLabel id fun l => { l with text := some text }
  | replacePage nodes => .ok nodes

/-- The page after an edit. -/
def apply (e : Edit) (page : Forest) : Except EditFault Forest :=
  match e.check page true with
  | .error fault => .error fault
  | .ok () => e.perform page

/-- Carries an edit that has been checked out on the page in place: the result, and the page after
    it. A move takes its tag out before it puts it in again; every other edit is one change. -/
def carryOut (page : Forest) : Edit → Except EditFault Unit × Forest
  | move id parent index =>
      match page.detach id with
      | .error fault => (.error fault, page)
      | .ok (n, rest) =>
          match rest.attach parent index n with
          | .error fault => (.error fault, rest)
          | .ok page' => (.ok (), page')
  | e =>
      match perform page e with
      | .error fault => (.error fault, page)
      | .ok page' => (.ok (), page')

/-- Checks an edit and carries it out on the page in place. -/
def applyTo (e : Edit) (page : Forest) : Except EditFault Unit × Forest :=
  match e.check page true with
  | .error fault => (.error fault, page)
  | .ok () => carryOut page e

/-- The page after an edit that replays recorded history: tags go back where they were, also
    below a tag that takes no children. -/
def restore (e : Edit) (page : Forest) : Except EditFault Forest :=
  match e.check page false with
  | .error fault => .error fault
  | .ok () => e.perform page

/-- Checks an edit without the policy and carries it out on the page in place. -/
def restoreTo (e : Edit) (page : Forest) : Except EditFault Unit × Forest :=
  match e.check page false with
  | .error fault => (.error fault, page)
  | .ok () => carryOut page e

/-- Replays edits in turn. -/
def replay (page : Forest) : List Edit → Except EditFault Forest
  | [] => .ok page
  | e :: es =>
      match e.restore page with
      | .error fault => .error fault
      | .ok page' => replay page' es

/-! ## 5. Taking back -/

/-- The id of a found node's parent; nothing at top level. -/
def parentId (found : Match) : Except EditFault (Option String) :=
  match found.parent with
  | none => .ok none
  | some parent =>
      match parent.ident with
      | none => .error (.missingId parent.tag)
      | some id => .ok (some id)

/-- The edit that takes an edit back, worked out on the page before it. -/
def inverse (page : Forest) : Edit → Except EditFault Edit
  | insert _ _ tag =>
      match tag.ident with
      | none => .error (.missingId tag.tag)
      | some id => .ok (remove id)
  | move id _ _ => do
      let found ← target page id
      let parent ← parentId found
      .ok (move id parent found.position)
  | remove id => do
      let found ← target page id
      let parent ← parentId found
      .ok (insert parent found.position found.node)
  | setAttribute id name _ => do
      let found ← target page id
      .ok (setAttribute id name (found.node.label.valueOf name))
  | setText id _ => do
      let found ← target page id
      .ok (setText id found.node.label.textContent)
  | replacePage _ => .ok (replacePage page)

/-! ## 6. As JSON -/

/-- A text, or `null` where there is none. -/
def textOrNull : Option String → Json
  | none => .null
  | some s => .str s

/-- A place as a value, which is a 64-bit word. -/
def indexJson (index : Nat) : Json := .num (.whole (.ofWord (UInt64.ofNat index)))

/-- An edit as a value: an object with the kind of edit as its one name. All fields are written. -/
def toJson : Edit → Json
  | insert parent index tag =>
      .obj [("InsertTag", .obj [("parent_id", textOrNull parent), ("index", indexJson index),
        ("tag", tag.toJson)])]
  | move id parent index =>
      .obj [("MoveTag", .obj [("tag_id", .str id), ("parent_id", textOrNull parent),
        ("index", indexJson index)])]
  | remove id => .obj [("RemoveTag", .obj [("tag_id", .str id)])]
  | setAttribute id name value =>
      .obj [("SetAttribute", .obj [("tag_id", .str id), ("name", .str name),
        ("value", value.getD .null)])]
  | setText id text => .obj [("UpdateText", .obj [("tag_id", .str id), ("text", .str text)])]
  | replacePage nodes => .obj [("ReplacePage", .obj [("nodes", nodes.toJson)])]

/-- The kinds of edits. -/
def kinds : List String :=
  ["InsertTag", "MoveTag", "RemoveTag", "SetAttribute", "UpdateText", "ReplacePage"]

/-- The fields of an edit of some kind, as far as they are read. -/
structure Draft where
  tagId : Option String
  parent : Option String
  index : Option Nat
  tag : Option Node
  name : Option String
  value : Option Json
  text : Option String
  nodes : Option Forest

namespace Draft

/-- Before the first field. -/
def empty : Draft := ⟨none, none, none, none, none, none, none, none⟩

/-- Reads a list of nodes. -/
def asNodes : Json → Except ShapeError Forest
  | .arr items => Forest.ofStrictItems items
  | v => Json.mismatch v "a sequence"

/-- Reads one field, where the kind of edit has it. -/
def putField (known : List String) (d : Draft) (name : String) (v : Json) :
    Except ShapeError Draft :=
  if !known.contains name then .ok d
  else if name = "tag_id" then (Json.asText v).map fun x => { d with tagId := some x }
  else if name = "parent_id" then (Json.asOptionalText v).map fun x => { d with parent := x }
  else if name = "index" then (Json.asWord v).map fun x => { d with index := some x.toNat }
  else if name = "tag" then (Node.ofJson v).map fun x => { d with tag := some x }
  else if name = "name" then (Json.asText v).map fun x => { d with name := some x }
  else if name = "value" then .ok { d with value := if v.isNull then none else some v }
  else if name = "text" then (Json.asText v).map fun x => { d with text := some x }
  else (asNodes v).map fun x => { d with nodes := some x }

/-- Reads the fields of an object, of which the kind of edit has some. -/
def fill (known : List String) (d : Draft) : List (String × Json) → Except ShapeError Draft
  | [] => .ok d
  | (name, v) :: rest =>
      match d.putField known name v with
      | .error e => .error e
      | .ok d' => fill known d' rest

end Draft

/-- A field that must be there. -/
def need {α : Type} (name : String) : Option α → Except ShapeError α
  | some x => .ok x
  | none => .error (.missingField name)

/-- Reads the fields under the kind of an edit. -/
def ofFields (kind : String) (ms : List (String × Json)) : Except ShapeError Edit := do
  if kind = "InsertTag" then
    let d ← Draft.fill ["parent_id", "index", "tag"] .empty ms
    let index ← need "index" d.index
    let tag ← need "tag" d.tag
    .ok (insert d.parent index tag)
  else if kind = "MoveTag" then
    let d ← Draft.fill ["tag_id", "parent_id", "index"] .empty ms
    let id ← need "tag_id" d.tagId
    let index ← need "index" d.index
    .ok (move id d.parent index)
  else if kind = "RemoveTag" then
    let d ← Draft.fill ["tag_id"] .empty ms
    let id ← need "tag_id" d.tagId
    .ok (remove id)
  else if kind = "SetAttribute" then
    let d ← Draft.fill ["tag_id", "name", "value"] .empty ms
    let id ← need "tag_id" d.tagId
    let name ← need "name" d.name
    .ok (setAttribute id name d.value)
  else if kind = "UpdateText" then
    let d ← Draft.fill ["tag_id", "text"] .empty ms
    let id ← need "tag_id" d.tagId
    let text ← need "text" d.text
    .ok (setText id text)
  else
    let d ← Draft.fill ["nodes"] .empty ms
    let nodes ← need "nodes" d.nodes
    .ok (replacePage nodes)

/-- Reads what stands under the kind of an edit. -/
def ofContent (kind : String) (content : Option Json) : Except ShapeError Edit :=
  if !kinds.contains kind then .error (.unknownVariant kind kinds)
  else
    match content with
    | some (.obj ms) => ofFields kind ms
    | some v => Json.mismatch v "struct variant"
    | none => .error (.wrongType .bare "struct variant")

/-- Reads an edit. -/
def ofJson : Json → Except ShapeError Edit
  | .obj [(kind, content)] => ofContent kind (some content)
  | .obj _ => .error (.wrongValue .map "map with a single key")
  | .str kind => ofContent kind none
  | v => Json.mismatch v "string or map"

end Edit

end Pagewright
