import Pagewright.Editor.Drop
import Pagewright.Editor.History
import Pagewright.Editor.Outline
import Pagewright.Editor.Starter
import Pagewright.Editor.TextStyle
import Pagewright.Markup.Render
import Pagewright.Markup.Sample

/-!
# Edit sessions

One open page: the tree, what is selected, the history, the drag in progress, and the source of
new ids.

* Every change of the page is an edit recorded in the history.
* Every node that enters the page has an id first; ids that the page already has are drawn anew,
  once.
* An operation gives its result beside the session after it. One that fails leaves the page, the
  selection, the history and the drag as they were; only ids may have been drawn.
  The removal of several tags takes back what it has done; where this fails, as it may on a page
  with an id twice, what was removed stays removed and is one step of the history.
* What is selected is dropped when it leaves the page.
-/

namespace Pagewright

/-! ## 1. Sessions -/

/-- How a session behaves: the greatest number of steps in its history, the window of its hovers
    in milliseconds, and the widest margin of its drop spots. -/
structure EditorOptions where
  undoLevels : Nat
  hoverWindow : Nat
  dropMargin : Float

/-- A hundred steps, and the standard window and margin. -/
def EditorOptions.standard : EditorOptions :=
  ⟨History.standardLimit, standardWindow, standardMargin⟩

/-- Why an operation of a session fails. -/
inductive SessionError where
  | load (e : LoadError)
  | edit (fault : EditFault)
  | unknownStarter (name : String)
  | tagNotFound (id : String)
  | unknownTag (tag : String)

/-- The wording of an error, where there is one. -/
def SessionError.message? : SessionError → Option String
  | .load e => e.message?.map ("Tree error: " ++ ·)
  | .edit fault => some ("Mutation error: " ++ fault.message)
  | .unknownStarter name => some ("Template error: " ++ Pagewright.unknownStarter name)
  | .tagNotFound id => some ("Tag not found: " ++ id)
  | .unknownTag tag => some ("No handler for tag '" ++ tag ++ "'")

/-- An open page, with ids from a source of this kind. -/
structure Session (σ : Type) where
  page : Forest
  selected : Option String
  history : History
  drag : Option Drag
  ids : σ
  options : EditorOptions

/-- The result of an operation, and the session after it. -/
abbrev Outcome (σ α : Type) := Except SessionError α × Session σ

namespace Session

variable {σ : Type} [IdSource σ]

/-- Opens a page. Nodes without an id are given one. -/
def ofPage (page : Forest) (options : EditorOptions) (ids : σ) : Session σ :=
  let opened := Forest.assignIds false page ids
  { page := opened.1
    selected := none
    history := .empty options.undoLevels
    drag := none
    ids := opened.2
    options := options }

/-- Opens a page from a text, with the standard options. -/
def ofText (text : String) (ids : σ) : Except SessionError (Session σ) :=
  match Forest.load text with
  | .error e => .error (.load e)
  | .ok page => .ok (ofPage page .standard ids)

/-! ## 2. Selection -/

/-- Selects the tag with this id. -/
def select (s : Session σ) (id : String) : Outcome σ Unit :=
  match s.page.find id with
  | none => (.error (.tagNotFound id), s)
  | some _ => (.ok (), { s with selected := some id })

/-- Selects nothing. -/
def clearSelection (s : Session σ) : Session σ := { s with selected := none }

/-- The tag that is selected. -/
def selectedNode (s : Session σ) : Option Node :=
  s.selected.bind fun id => (s.page.find id).map Match.node

/-- Drops the selection, where its tag has left the page. -/
def syncSelection (s : Session σ) : Session σ :=
  match s.selected with
  | none => s
  | some id => if Forest.contains id s.page then s else { s with selected := none }

/-! ## 3. Structure -/

/-- Makes an edit. -/
def make (s : Session σ) (e : Edit) : Outcome σ Unit :=
  match s.history.applyTo e s.page with
  | (.error fault, history, page) =>
      (.error (.edit fault), { s with history := history, page := page })
  | (.ok (), history, page) => (.ok (), { s with history := history, page := page })

/-- The id of a found node's parent, where it has one. -/
def parentOf (found : Match) : Option String := found.parent.bind Node.ident

/-- The parent and the place that a spot relative to a tag means: the end of the page, where no
    tag is given. -/
def placement (s : Session σ) (destination : Option String) (spot : Spot) :
    Except SessionError (Option String × Nat) :=
  match destination with
  | none => .ok (none, s.page.length)
  | some id =>
      match s.page.find id with
      | none => .error (.tagNotFound id)
      | some found =>
          match spot with
          | .inside => .ok (some id, found.node.children.length)
          | .before => .ok (parentOf found, found.position)
          | .after => .ok (parentOf found, found.position + 1)

/-- Puts a tag on the page. Its nodes are given the ids they lack, and new ones for those that the
    page already has. The result is the id of the tag. -/
def addTag (s : Session σ) (tag : Node) (destination : Option String) (spot : Spot) :
    Outcome σ String :=
  let named := tag.assignIds false s.ids
  let renamed := named.1.replaceIds (fun id => (s.page.find id).isSome) named.2
  let s' := { s with ids := renamed.2.1 }
  let id := renamed.1.ident.getD ""
  match s'.placement destination spot with
  | .error e => (.error e, s')
  | .ok (parent, index) =>
      match s'.make (.insert parent index renamed.1) with
      | (.error e, s'') => (.error e, s'')
      | (.ok (), s'') => (.ok id, s'')

/-- Puts the palette's sample of an element on the page. -/
def addSample (s : Session σ) (tag text : String) (destination : Option String) (spot : Spot) :
    Outcome σ String :=
  match Element.ofTag? tag with
  | none => (.error (.unknownTag tag), s)
  | some e =>
      let sample := e.sample text s.ids
      { s with ids := sample.2 }.addTag sample.1 destination spot

/-- Puts a starter on the page. -/
def addStarter (s : Session σ) (name : String) (destination : Option String) (spot : Spot) :
    Outcome σ String :=
  match Starter.ofName? name with
  | none => (.error (.unknownStarter name), s)
  | some t =>
      let block := t.instantiate s.ids
      { s with ids := block.2 }.addTag block.1 destination spot

/-- Moves a tag to a spot relative to another. The place counts after the tag has left. -/
def moveTag (s : Session σ) (id destination : String) (spot : Spot) : Outcome σ Unit :=
  match s.page.find id with
  | none => (.error (.tagNotFound id), s)
  | some source =>
      match s.placement (some destination) spot with
      | .error e => (.error e, s)
      | .ok (parent, index) =>
          let index' :=
            if parent = parentOf source ∧ source.position < index then index - 1 else index
          s.make (.move id parent index')

/-- Puts a copy of a tag, with new ids throughout, at a spot relative to another. -/
def copyTag (s : Session σ) (id destination : String) (spot : Spot) : Outcome σ String :=
  match s.page.find id with
  | none => (.error (.tagNotFound id), s)
  | some source =>
      let copy := source.node.assignIds true s.ids
      { s with ids := copy.2 }.addTag copy.1 (some destination) spot

/-- Takes a tag off the page. -/
def removeTag (s : Session σ) (id : String) : Outcome σ Unit :=
  match s.make (.remove id) with
  | (.error e, s') => (.error e, s')
  | (.ok (), s') => (.ok (), s'.syncSelection)

/-- Takes tags off the page in turn, up to the first that is not there. -/
def removeEach (s : Session σ) : List String → Outcome σ Unit
  | [] => (.ok (), s)
  | id :: ids =>
      match s.make (.remove id) with
      | (.error e, s') => (.error e, s')
      | (.ok (), s') => removeEach s' ids

/-- Gives up the batch that is open; the error is that of giving up or, failing this, the one
    that was the reason. -/
def giveUp (s : Session σ) (reason : SessionError) : Outcome σ Unit :=
  match s.history.abort s.page with
  | (history, .error fault) => (.error (.edit fault), { s with history := history })
  | (history, .ok page) => (.error reason, { s with history := history, page := page })

/-- Takes several tags off the page in one step, or none of them. -/
def removeTags (s : Session σ) (ids : List String) : Outcome σ Unit :=
  let described := "remove " ++ Nat.repr ids.length ++ " tags"
  match { s with history := s.history.openBatch described }.removeEach ids with
  | (.error e, s') => s'.giveUp e
  | (.ok (), s') => (.ok (), { s' with history := s'.history.closeBatch }.syncSelection)

/-! ## 4. Attributes and texts -/

/-- Sets an attribute, or takes it away. -/
def setAttribute (s : Session σ) (id name : String) (value : Option Json) : Outcome σ Unit :=
  s.make (.setAttribute id name value)

/-- Sets a text style in the class list of a tag. -/
def setStyle (s : Session σ) (id : String) (style : TextStyle) (value : String) :
    Outcome σ Unit :=
  match s.page.find id with
  | none => (.error (.tagNotFound id), s)
  | some found =>
      let classes := style.update ((found.node.label.textOf "class").getD "") value
      s.setAttribute id "class" (if classes = "" then none else some (.str classes))

/-- Sets a literal text. -/
def setText (s : Session σ) (id text : String) : Outcome σ Unit := s.make (.setText id text)

/-! ## 5. The outline -/

/-- The page as rows. -/
def outline (s : Session σ) : List Outline := Forest.outline s.selected s.page

/-- Puts the page in that the rows stand for. -/
def applyOutline (s : Session σ) (rows : List Outline) : Outcome σ Unit :=
  let named := Forest.assignIds false (Outline.forest rows) s.ids
  match { s with ids := named.2 }.make (.replacePage named.1) with
  | (.error e, s') => (.error e, s')
  | (.ok (), s') => (.ok (), s'.syncSelection)

/-! ## 6. Back and forth -/

/-- Puts what the history gave in place; false where it gave nothing. -/
def revert (s : Session σ) :
    Except EditFault (Option (History × Forest)) → Outcome σ Bool
  | .error fault => (.error (.edit fault), s)
  | .ok none => (.ok false, s.syncSelection)
  | .ok (some (history, page)) =>
      (.ok true, { s with history := history, page := page }.syncSelection)

/-- Takes the newest step back. -/
def undo (s : Session σ) : Outcome σ Bool := s.revert (s.history.undo s.page)

/-- Makes the step that was undone last again. -/
def redo (s : Session σ) : Outcome σ Bool := s.revert (s.history.redo s.page)

/-! ## 7. Source -/

/-- The page as template source. -/
def compile (s : Session σ) (o : RenderOptions) : Rendered := s.page.compile o

/-- The template source of the page, under the standard options. -/
def source (s : Session σ) : String := (s.compile .standard).source

/-! ## 8. Dragging -/

/-- Begins a drag, in place of an unfinished one. -/
def beginDrag (s : Session σ) (source : Option String) : Session σ :=
  { s with drag := some (.begin source s.options.hoverWindow) }

/-- The pointer moves: the new spot, where a drag is in progress and its gate open. -/
def hover (s : Session σ) (now : Int) (pointer : Point) (hovered : Option Box) (tag : String) :
    Option Spot × Session σ :=
  match s.drag with
  | none => (none, s)
  | some drag =>
      let (spot, drag') := drag.hover now pointer hovered tag s.options.dropMargin
      (spot, { s with drag := some drag' })

/-- Ends the drag: its last spot. -/
def endDrag (s : Session σ) : Option Spot × Session σ :=
  (s.drag.bind Drag.last, { s with drag := none })

end Session

end Pagewright
