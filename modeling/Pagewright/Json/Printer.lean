import Pagewright.Decimal.Shortest
import Pagewright.Json.Value

/-!
# Writing values as text

The two written forms of a value: on one line without blanks (`Json.compact`), and spread over
lines with two blanks for each level (`Json.pretty`). Both share

* numbers: whole numbers as digits; doubles by the fewest digits that read back, positional with
  a fraction (`1.0`, `0.00001`) while the leading digit stands between `10^-5` and `10^15`, and
  otherwise with a signed exponent (`1e-6`, `1.5e+300`);
* strings: quotes, backslashes and characters below U+0020 are escaped, nothing else is.
-/

namespace Pagewright

namespace Json

/-! ## 1. Numbers -/

/-- Which doubles are written without an exponent: those whose leading digit stands at a power
    of ten in this range. -/
structure Positional where
  least : Int
  greatest : Int

/-- Doubles from `0.00001` up to below `10^16` are written without an exponent. -/
def positional : Positional := ⟨-5, 15⟩

/-- A text of zeros. -/
def zeros (n : Nat) : String := String.ofList (List.replicate n '0')

/-- A digit string with a point after the leading digit of exponent `e`, and a fraction always. -/
def withPoint (digits : List Char) (e : Int) : String :=
  if e < 0 then
    "0." ++ zeros ((-e).toNat - 1) ++ String.ofList digits
  else
    let places := e.toNat + 1
    if digits.length ≤ places then
      String.ofList digits ++ zeros (places - digits.length) ++ ".0"
    else
      String.ofList (digits.take places) ++ "." ++ String.ofList (digits.drop places)

/-- A digit string in scientific form; the exponent always has a sign. -/
def withExponent (digits : List Char) (e : Int) : String :=
  let mantissa :=
    if digits.length ≤ 1 then String.ofList digits
    else String.ofList (digits.take 1) ++ "." ++ String.ofList (digits.drop 1)
  mantissa ++ (if e < 0 then "e-" else "e+") ++ Nat.repr e.natAbs

/-- The text of a decimal above zero. -/
def scaledText (d : Decimal.Scaled) : String :=
  let all := Nat.toDigits 10 d.digits
  let e := (all.length : Int) - 1 + d.exponent
  let digits := (all.reverse.dropWhile (· == '0')).reverse
  if positional.least ≤ e && e ≤ positional.greatest then withPoint digits e
  else withExponent digits e

/-- The bits of a double from here on have its sign set. -/
def signBit : Nat := 9223372036854775808

/-- The text of a finite double. -/
def realText (x : Float) : String :=
  let bits := x.toBits
  let sign := if bits.toNat < signBit then "" else "-"
  let magnitude := Decimal.Binary.ofBits bits
  if magnitude.significand = 0 then sign ++ "0.0"
  else sign ++ scaledText magnitude.shortest

/-- The text of a number. -/
def numberText : Number → String
  | .whole n => toString n.val
  | .real x => realText x

/-! ## 2. Strings -/

/-- A digit of base sixteen, in lower case. -/
def hexDigit (n : Nat) : Char :=
  if n < 10 then Char.ofNat (48 + n) else Char.ofNat (87 + n)

/-- A character as it stands between quotes. -/
def escape (c : Char) : List Char :=
  if c = '"' then ['\\', '"']
  else if c = '\\' then ['\\', '\\']
  else if c = '\x08' then ['\\', 'b']
  else if c = '\x0c' then ['\\', 'f']
  else if c = '\n' then ['\\', 'n']
  else if c = '\r' then ['\\', 'r']
  else if c = '\t' then ['\\', 't']
  else if c.toNat < 32 then ['\\', 'u', '0', '0', hexDigit (c.toNat / 16), hexDigit (c.toNat % 16)]
  else [c]

/-- A string between quotes. -/
def quoted (s : String) : String := "\"" ++ String.ofList (s.toList.flatMap escape) ++ "\""

/-! ## 3. Values -/

/-- The text of a value that is neither an array nor an object with members. -/
def atomText : Json → String
  | .null => "null"
  | .bool true => "true"
  | .bool false => "false"
  | .num n => numberText n
  | .str s => quoted s
  | .arr _ => "[]"
  | .obj _ => "\x7b\x7d"

mutual

/-- The text on one line, without blanks. -/
def compact : Json → String
  | .arr items => "[" ++ compactItems items ++ "]"
  | .obj ms => "\x7b" ++ compactMembers ms ++ "\x7d"
  | v => atomText v

/-- The items, with commas between them. -/
def compactItems : List Json → String
  | [] => ""
  | [v] => compact v
  | v :: rest => compact v ++ "," ++ compactItems rest

/-- The members, with commas between them. -/
def compactMembers : List (String × Json) → String
  | [] => ""
  | [(k, v)] => quoted k ++ ":" ++ compact v
  | (k, v) :: rest => quoted k ++ ":" ++ compact v ++ "," ++ compactMembers rest

end

/-- A line end and the blanks of a level. -/
def newLine (level : Nat) : String := "\n" ++ String.ofList (List.replicate (2 * level) ' ')

mutual

/-- The text over several lines, for a value that stands at this level. -/
def prettyAt (level : Nat) : Json → String
  | .arr [] => "[]"
  | .arr items => "[" ++ prettyItems (level + 1) items ++ newLine level ++ "]"
  | .obj [] => "\x7b\x7d"
  | .obj ms => "\x7b" ++ prettyMembers (level + 1) ms ++ newLine level ++ "\x7d"
  | v => atomText v

/-- The items, each on a line of its own. -/
def prettyItems (level : Nat) : List Json → String
  | [] => ""
  | [v] => newLine level ++ prettyAt level v
  | v :: rest => newLine level ++ prettyAt level v ++ "," ++ prettyItems level rest

/-- The members, each on a line of its own. -/
def prettyMembers (level : Nat) : List (String × Json) → String
  | [] => ""
  | [(k, v)] => newLine level ++ quoted k ++ ": " ++ prettyAt level v
  | (k, v) :: rest =>
      newLine level ++ quoted k ++ ": " ++ prettyAt level v ++ "," ++ prettyMembers level rest

end

/-- A value that is no array and no object stands on one line, at every level. -/
theorem prettyAt_eq_atomText (level : Nat) (v : Json) (harr : ∀ items, v ≠ .arr items)
    (hobj : ∀ ms, v ≠ .obj ms) : prettyAt level v = atomText v := by
  rw [prettyAt]
  · exact harr []
  · exact harr
  · exact hobj []
  · exact hobj

/-- The text over several lines, two blanks for each level; empty arrays and objects stay on
    one line. -/
def pretty (v : Json) : String := prettyAt 0 v

end Json

end Pagewright
