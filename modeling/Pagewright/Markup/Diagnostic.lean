import Pagewright.Page.Node

/-!
# Diagnostics

What can keep a node from being rendered: an attribute of the wrong shape, or too many elements
around it. A diagnostic belongs to one node and never affects another. A node with a tag that no
element has is left out without a diagnostic; a log has both (`Omission`).
-/

namespace Pagewright

/-- What is wrong with the shape of an attribute. -/
inductive AttributeFault where
  | notPlain
  | notAStyle
  | notAnObject
  | notColumns
  | badColumn
  | rule (name : String)
  | alertField (name : String)
  deriving DecidableEq

/-- The wording of what is wrong. -/
def AttributeFault.message : AttributeFault → String
  | .notPlain => "expected a plain value, found an object or array"
  | .notAStyle => "expected a style string"
  | .notAnObject => "expected an object"
  | .notColumns => "expected an array of \x7b Name, Title \x7d"
  | .badColumn => "every column needs a plain Name and Title"
  | .rule name => "rule '" ++ name ++ "' must be a plain value"
  | .alertField name => "'" ++ name ++ "' must be a plain value"

/-- Why a node is not rendered. The node is named by its tag and, where it has one, its id. -/
inductive Diagnostic where
  | malformed (tag : String) (id : Option String) (name : String) (fault : AttributeFault)
  | tooDeep (tag : String) (id : Option String) (limit : Nat)
  deriving DecidableEq

namespace Diagnostic

/-- The tag of the node. -/
def tag : Diagnostic → String
  | malformed tag _ _ _ => tag
  | tooDeep tag _ _ => tag

/-- How messages name the node. -/
def nodeName : Diagnostic → String
  | malformed _ id _ _ => id.getD "<no id>"
  | tooDeep _ id _ => id.getD "<no id>"

/-- Whether the nesting is what is wrong. -/
def isTooDeep : Diagnostic → Bool
  | tooDeep _ _ _ => true
  | malformed _ _ _ _ => false

/-- The wording of a diagnostic. -/
def message (d : Diagnostic) : String :=
  match d with
  | malformed tag _ name fault =>
      "Malformed attribute '" ++ name ++ "' on '" ++ tag ++ "' (node " ++ d.nodeName ++ "): " ++
        fault.message
  | tooDeep tag _ limit =>
      "Maximum nesting depth (" ++ Nat.repr limit ++ ") exceeded at '" ++ tag ++ "' (node " ++
        d.nodeName ++ ")"

end Diagnostic

/-- A node that leaves nothing in the source: what is wrong with it, or its tag, which no element
    has. -/
inductive Omission where
  | failed (d : Diagnostic)
  | unknown (tag : String)
  deriving DecidableEq

namespace Omission

/-- The diagnostic of an omission; an unknown tag has none. -/
def diagnostic? : Omission → Option Diagnostic
  | failed d => some d
  | unknown _ => none

/-- The wording of an omission in a log, which says of a malformed node that it is passed over. -/
def logMessage : Omission → String
  | failed d => if d.isTooDeep then d.message else "Skipping node: " ++ d.message
  | unknown tag => "No handler for tag '" ++ tag ++ "', rendering empty"

end Omission

end Pagewright
