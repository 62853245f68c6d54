import Pagewright.Json.Printer
import Pagewright.Text.Quoted

/-!
# Values of an expected shape

A record is read from a value that has the right shape. Where it has not, the error says what was
found and what was expected (`ShapeError`). This file holds the errors, their wording, and the
readings of the simple shapes: texts, truth values and words.
-/

namespace Pagewright

namespace Json

/-! ## 1. What can be wrong -/

/-- What a value was found to be. `bare` is the name of a variant with nothing under it. -/
inductive Found where
  | null
  | bool (b : Bool)
  | num (n : Number)
  | str (s : String)
  | sequence
  | map
  | bare

/-- Why a value has not the expected shape. -/
inductive ShapeError where
  | wrongType (found : Found) (expected : String)
  | wrongValue (found : Found) (expected : String)
  | wrongLength (length : Nat) (expected : String)
  | unknownVariant (name : String) (known : List String)
  | missingField (name : String)
  | repeatedField (name : String)

/-- What a value is, as far as an error says it. -/
def found : Json → Found
  | .null => .null
  | .bool b => .bool b
  | .num n => .num n
  | .str s => .str s
  | .arr _ => .sequence
  | .obj _ => .map

/-- A text between backquotes. -/
def backquoted (s : String) : String := "`" ++ s ++ "`"

/-- The wording of what was found. -/
def Found.message : Found → String
  | .null => "null"
  | .bool b => "boolean " ++ backquoted (if b then "true" else "false")
  | .num (.whole n) => "integer " ++ backquoted (numberText (.whole n))
  | .num (.real x) => "floating point " ++ backquoted (numberText (.real x))
  | .str s => "string " ++ Text.quotedForMessage s
  | .sequence => "sequence"
  | .map => "map"
  | .bare => "unit variant"

/-- The wording of an error. -/
def ShapeError.message : ShapeError → String
  | .wrongType f e => "invalid type: " ++ f.message ++ ", expected " ++ e
  | .wrongValue f e => "invalid value: " ++ f.message ++ ", expected " ++ e
  | .wrongLength n e => "invalid length " ++ Nat.repr n ++ ", expected " ++ e
  | .unknownVariant name known =>
      "unknown variant " ++ backquoted name ++ ", expected one of " ++
        String.intercalate ", " (known.map backquoted)
  | .missingField name => "missing field " ++ backquoted name
  | .repeatedField name => "duplicate field " ++ backquoted name

/-! ## 2. Simple shapes -/

/-- A value of another type than the expected one. -/
def mismatch {α : Type} (v : Json) (expected : String) : Except ShapeError α :=
  .error (.wrongType v.found expected)

/-- More items than a record has fields. -/
def surplus {α : Type} (length : Nat) : Except ShapeError α :=
  .error (.wrongLength length "fewer elements in array")

/-- A text. -/
def asText : Json → Except ShapeError String
  | .str s => .ok s
  | v => mismatch v "a string"

/-- A text, or nothing for `null`. -/
def asOptionalText : Json → Except ShapeError (Option String)
  | .null => .ok none
  | .str s => .ok (some s)
  | v => mismatch v "a string"

/-- A truth value. -/
def asBool : Json → Except ShapeError Bool
  | .bool b => .ok b
  | v => mismatch v "a boolean"

/-- An unsigned 64-bit word. -/
def asWord : Json → Except ShapeError UInt64
  | .num (.whole n) =>
      if 0 ≤ n.val then .ok (UInt64.ofNat n.val.toNat)
      else .error (.wrongValue (.num (.whole n)) "usize")
  | v => mismatch v "usize"

end Json

end Pagewright
