import Pagewright.Page.Node
import Pagewright.Text.Blank

/-!
# Text styles

Four properties of a tag's text are kept in its class list: alignment, letter case, wrapping and
colour. Each value of a property has one class.

* A property is read by looking for its classes anywhere in the list (`TextStyle.valueIn`).
* It is written by taking one occurrence of each of its classes out, adding the class of the new
  value, and setting the list with single blanks (`TextStyle.update`). A value that the property
  does not have only clears it.
-/

namespace Pagewright

/-! ## 1. The properties -/

/-- The properties of a tag's text. -/
inductive TextStyle where
  | align
  | transform
  | wrap
  | color
  deriving DecidableEq

namespace TextStyle

/-- Every property, in menu order. -/
def all : List TextStyle := [align, transform, wrap, color]

/-- The name of a property. -/
def name : TextStyle → String
  | align => "align"
  | transform => "transform"
  | wrap => "wrap"
  | color => "color"

/-- The property of a name, where there is one. -/
def ofName? (name : String) : Option TextStyle := all.find? fun p => p.name = name

/-- The values of a property with their classes, in menu order. -/
def values : TextStyle → List (String × String)
  | align => [("left", "text-left"), ("center", "text-center"), ("right", "text-right")]
  | transform => [("lowercase", "text-lowercase"), ("uppercase", "text-uppercase")]
  | wrap => [("nowrap", "text-nowrap")]
  | color =>
      [("muted", "text-muted"), ("primary", "text-primary"), ("success", "text-success"),
       ("info", "text-info"), ("warning", "text-warning"), ("danger", "text-danger")]

/-- The class of a value. -/
def classFor (p : TextStyle) (value : String) : Option String := Members.find value p.values

/-! ## 2. Texts within texts -/

/-- Whether a text stands somewhere in another. -/
def occursIn (part : List Char) : List Char → Bool
  | [] => part.isEmpty
  | c :: cs => part.isPrefixOf (c :: cs) || occursIn part cs

/-- The text without the first occurrence of a part of it. -/
def withoutFirst (part : List Char) : List Char → List Char
  | [] => []
  | c :: cs =>
      if part.isPrefixOf (c :: cs) then (c :: cs).drop part.length
      else c :: withoutFirst part cs

/-- The text with a single blank for each run of white space; `within` says that one is open. -/
def singleBlanks (within : Bool) : List Char → List Char
  | [] => []
  | c :: cs =>
      if Text.isBlank c then
        if within then singleBlanks true cs else ' ' :: singleBlanks true cs
      else c :: singleBlanks false cs

/-! ## 3. Reading and writing -/

/-- The first value of a property whose class stands somewhere in the list. -/
def valueIn (p : TextStyle) (classes : String) : Option String :=
  (p.values.find? fun v => occursIn v.2.toList classes.toList).map (·.1)

/-- The value of a property on a tag, read from its class list. -/
def initialValue (p : TextStyle) (l : Label) : Option String :=
  match l.textOf "class" with
  | none => none
  | some classes => if classes = "" then none else p.valueIn classes

/-- The class list without one occurrence of each class of the property. -/
def cleared (p : TextStyle) (classes : List Char) : List Char :=
  p.values.foldl (fun cs v => withoutFirst v.2.toList cs) classes

/-- The class list with the property set to a value. -/
def update (p : TextStyle) (classes value : String) : String :=
  let rest := p.cleared classes.toList
  let added :=
    match p.classFor value with
    | none => rest
    | some c => rest ++ ' ' :: c.toList
  String.ofList (Text.trimBlanks (singleBlanks false added))

end TextStyle

end Pagewright
