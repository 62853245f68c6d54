import Pagewright.Markup.Parameter
import Pagewright.Text.Blank

/-!
# Rendering pages as template source

A page renders node by node, with a line end between neighbours. Literal text stands as it is, an
element becomes a call, anything else renders as nothing. Rendering carries a state along: how many
elements lie around the node, and the nodes left out so far with their diagnostics.

* A node that cannot be rendered leaves its place empty and one more diagnostic; its neighbours
  render as ever.
* Parameters are looked at before the children of plain and action elements, and after those of
  fields; so a malformed parameter hides the children's diagnostics in the first case only. The
  children of a grid are never looked at.
* An element with as many elements around it as the limit allows is not rendered.

At the end the white space at line ends may be trimmed (`Lines.trim`).
-/

namespace Pagewright

/-! ## 1. Options and state -/

/-- How a page is rendered. -/
structure RenderOptions where
  trim : Bool
  maxDepth : Nat

namespace RenderOptions

/-- No trimming, and up to 256 elements within each other. -/
def standard : RenderOptions := ⟨false, 256⟩

end RenderOptions

/-- The diagnostics among omissions. -/
def Omission.diagnostics (ms : List Omission) : List Diagnostic := ms.filterMap diagnostic?

/-- The state of a rendering: the elements around the node, and what was left out so far. -/
structure RenderState where
  depth : Nat
  omissions : List Omission

namespace RenderState

/-- What went wrong so far. -/
def diagnostics (s : RenderState) : List Diagnostic := Omission.diagnostics s.omissions

/-- Before the first node. -/
def start : RenderState := ⟨0, []⟩

/-- Into an element. -/
def enter (s : RenderState) : RenderState := { s with depth := s.depth + 1 }

/-- Out of an element. -/
def leave (s : RenderState) : RenderState := { s with depth := s.depth - 1 }

/-- One more omission. -/
def leaveOut (m : Omission) (s : RenderState) : RenderState :=
  { s with omissions := s.omissions ++ [m] }

/-- One more diagnostic. -/
def report (d : Diagnostic) (s : RenderState) : RenderState := s.leaveOut (.failed d)

end RenderState

/-- A step of a rendering. -/
abbrev Rendering (α : Type) := StateM RenderState α

/-! ## 2. Calls -/

/-- The text of a call. -/
def Element.callText (e : Element) (arguments : List String) (suffix : String) : String :=
  e.callName ++ "(" ++ String.intercalate ", " arguments ++ ")" ++ suffix ++ " "

/-- The body as an argument, unless it is empty. -/
def bodyArgument (body : String) : List String := if body = "" then [] else ["Body: " ++ body]

/-- What follows the body of a plain call. -/
def Element.closePlain (e : Element) (l : Label) (before : List String) (body : String) :
    Except Diagnostic String := do
  let style ← l.styleSuffix
  .ok (e.callText (before ++ bodyArgument body) style)

/-- What follows the body of an action's call. -/
def Element.closeAction (e : Element) (l : Label) (before : List String) (body : String) :
    Except Diagnostic String := do
  let params ← l.pageParameters "params" "Params"
  let pageParams ← l.pageParameters "pageparams" "PageParams"
  let style ← l.styleSuffix
  let alert ← l.alertSuffix
  .ok (e.callText (before ++ bodyArgument body ++ params ++ pageParams) (style ++ alert))

/-- The call of a grid. -/
def Element.gridCall (e : Element) (l : Label) : Except Diagnostic String := do
  let before ← l.parameterTexts e.parameters
  let columns ← l.columns
  let style ← l.styleSuffix
  .ok (e.callText (before ++ columns) style)

/-- What follows the body of a field's call. -/
def Element.closeField (e : Element) (l : Label) (body : String) : Except Diagnostic String := do
  let params ← l.parameterTexts e.parameters
  let validation ← l.validationSuffix
  let style ← l.styleSuffix
  .ok (e.callText (bodyArgument body ++ params) (validation ++ style))

/-- A node as a call of the element. The body is rendered in its place among the checks. -/
def Element.call (e : Element) (l : Label) (body : Rendering String) :
    Rendering (Except Diagnostic String) :=
  match e.layout with
  | .plain =>
      match l.parameterTexts e.parameters with
      | .error d => pure (.error d)
      | .ok before => do
          let inner ← body
          pure (e.closePlain l before inner)
  | .action =>
      match l.parameterTexts e.parameters with
      | .error d => pure (.error d)
      | .ok before => do
          let inner ← body
          pure (e.closeAction l before inner)
  | .grid => pure (e.gridCall l)
  | .field => do
      let inner ← body
      pure (e.closeField l inner)

/-! ## 3. Nodes -/

/-- A call, or an empty place and a diagnostic. -/
def settle : Except Diagnostic String → Rendering String
  | .ok source => pure source
  | .error d => do
      modify (RenderState.report d)
      pure ""

/-- An element with this label, whose children render as `body`. -/
def Element.render (o : RenderOptions) (e : Element) (l : Label) (body : Rendering String) :
    Rendering String := do
  if o.maxDepth ≤ (← get).depth then
    settle (.error (.tooDeep l.tag l.ident o.maxDepth))
  else
    modify RenderState.enter
    let result ← e.call l body
    modify RenderState.leave
    settle result

/-- A node with this label, whose children render as `body`. -/
def Label.render (o : RenderOptions) (l : Label) (body : Rendering String) : Rendering String :=
  if l.isText then pure l.textContent
  else
    match Element.ofTag? l.tag with
    | none => do
        modify (RenderState.leaveOut (.unknown l.tag))
        pure ""
    | some e => e.render o l body

/-- Texts with line ends between them. -/
def joinLines (ss : List String) : String := String.intercalate "\n" ss

mutual

/-- A node. -/
def Node.render (o : RenderOptions) : Node → Rendering String
  | ⟨l, none⟩ => l.render o (pure "")
  | ⟨l, some cs⟩ => l.render o (joinLines <$> Forest.renderEach o cs)

/-- Nodes side by side, each on its own. -/
def Forest.renderEach (o : RenderOptions) : List Node → Rendering (List String)
  | [] => pure []
  | n :: ns => do
      let first ← n.render o
      let rest ← Forest.renderEach o ns
      pure (first :: rest)

end

/-- Nodes side by side, with line ends between them. -/
def Forest.render (o : RenderOptions) (ns : Forest) : Rendering String :=
  joinLines <$> Forest.renderEach o ns

/-! ## 4. Lines -/

namespace Lines

/-- The lines of a text. A line end that closes the text opens no further line. -/
def split : List Char → List (List Char)
  | [] => []
  | c :: cs =>
      if c = '\n' then [] :: split cs
      else
        match split cs with
        | [] => [[c]]
        | line :: rest => (c :: line) :: rest

/-- The text with the white space at the end of each line taken away. -/
def trim (s : String) : String :=
  joinLines ((split s.toList).map fun line => String.ofList (Text.dropEndBlanks line))

end Lines

/-! ## 5. Pages -/

/-- The source of a page, and what was left out of it. -/
structure Rendered where
  source : String
  omissions : List Omission

/-- What went wrong. -/
def Rendered.diagnostics (r : Rendered) : List Diagnostic := Omission.diagnostics r.omissions

/-- Whether nothing went wrong. -/
def Rendered.isClean (r : Rendered) : Bool := r.diagnostics.isEmpty

/-- A page as template source. -/
def Forest.compile (o : RenderOptions) (ns : Forest) : Rendered :=
  let (source, s) := (Forest.render o ns).run .start
  ⟨if o.trim then Lines.trim source else source, s.omissions⟩

/-- The template source of a page, under the standard options. -/
def Forest.source (ns : Forest) : String := (Forest.compile .standard ns).source

end Pagewright
