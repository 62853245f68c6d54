import Pagewright.Page.Node

/-!
# Elements

The tags that have a meaning in template source. For each of the thirteen elements this file gives

* the tag in lower case and the name of its call (`Element.tag`, `Element.callName`);
* the attributes that become parameters of the call, in order (`Element.parameters`);
* whether a tag may be dropped into it (`Element.holdsChildren`);
* how its call is laid out (`Element.layout`).

Tags are looked up exactly (`Element.ofTag?`); literal text and unknown tags are no elements.
-/

namespace Pagewright

/-! ## 1. The elements -/

/-- The elements of a page. -/
inductive Element where
  | button
  | div
  | em
  | form
  | image
  | imageInput
  | input
  | label
  | p
  | radioGroup
  | span
  | strong
  | table
  deriving DecidableEq

namespace Element

/-- Every element, in the order of the palette. -/
def all : List Element :=
  [.button, .div, .em, .form, .image, .imageInput, .input, .label, .p, .radioGroup, .span,
   .strong, .table]

/-- The tag of the nodes that are this element. -/
def tag : Element → String
  | button => "button"
  | div => "div"
  | em => "em"
  | form => "form"
  | image => "image"
  | imageInput => "imageinput"
  | input => "input"
  | label => "label"
  | p => "p"
  | radioGroup => "radiogroup"
  | span => "span"
  | strong => "strong"
  | table => "table"

/-- The name of the call in template source. -/
def callName : Element → String
  | button => "Button"
  | div => "Div"
  | em => "Em"
  | form => "Form"
  | image => "Image"
  | imageInput => "ImageInput"
  | input => "Input"
  | label => "Label"
  | p => "P"
  | radioGroup => "RadioGroup"
  | span => "Span"
  | strong => "Strong"
  | table => "Table"

/-- The element of a tag, where there is one. -/
def ofTag? (tag : String) : Option Element := all.find? fun e => e.tag = tag

/-- **Every element is found by its tag**, and by no other. -/
theorem ofTag?_eq_some_iff {tag : String} {e : Element} : ofTag? tag = some e ↔ e.tag = tag := by
  constructor
  · intro h
    have hfound := List.find?_some h
    simpa using hfound
  · rintro rfl
    cases e <;> decide

/-! ## 2. Parameters, children, layout -/

/-- The attributes that become parameters of the call, with the names of the parameters. -/
def parameters : Element → List (String × String)
  | button => [("class", "Class"), ("page", "Page"), ("contract", "Contract")]
  | table => [("source", "Source")]
  | image => [("source", "Source"), ("src", "Src"), ("alt", "Alt")]
  | imageInput =>
      [("class", "Class"), ("format", "Format"), ("name", "Name"), ("ratio", "Ratio"),
       ("width", "Width")]
  | input =>
      [("class", "Class"), ("name", "Name"), ("placeholder", "Placeholder"), ("type", "Type"),
       ("value", "Value")]
  | radioGroup =>
      [("name", "Name"), ("source", "Source"), ("namecolumn", "NameColumn"),
       ("valuecolumn", "ValueColumn"), ("value", "Value"), ("class", "Class")]
  | div | em | form | label | p | span | strong => [("class", "Class")]

/-- Whether other tags may be put into nodes of this element. -/
def holdsChildren : Element → Bool
  | table | image | imageInput | input | radioGroup => false
  | _ => true

/-- How a call is laid out.

    * `plain`: parameters, the body, the style.
    * `action`: parameters, the body, page parameters, the style, the alert.
    * `grid`: parameters, columns, the style; the children are not rendered.
    * `field`: the body, parameters, the validation, the style. -/
inductive Layout where
  | plain
  | action
  | grid
  | field
  deriving DecidableEq

/-- The layout of an element's call. -/
def layout : Element → Layout
  | button => .action
  | table => .grid
  | input | radioGroup => .field
  | _ => .plain

end Element

/-- Whether other tags may be put into nodes with this tag: literal text and unknown tags take
    none. -/
def acceptsChildren (tag : String) : Bool := (Element.ofTag? tag).any Element.holdsChildren

end Pagewright
