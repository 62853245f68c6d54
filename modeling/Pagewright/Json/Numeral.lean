import Pagewright.Json.Value

/-!
# Reading number literals

A literal is collected part by part (`Numeral`) and valued at its end:

* without fraction and exponent it is a whole number, where the 64-bit words hold it; `-0` and
  everything larger is a double;
* a double is worked out from the leading digits that fit in an unsigned 64-bit word, taken as a
  double, and scaled by a power of ten in one multiplication or division (in several where the
  power is below `10^-308`). Further digits of the whole part count as powers of ten, further
  digits of the fraction are dropped;
* a literal beyond the doubles has no value, one too close to zero is zero.
-/

namespace Pagewright

namespace Json

/-! ## 1. The parts of a literal -/

/-- Where a literal stands after its last character. -/
inductive NumeralPart where
  | sign
  | zero
  | whole
  | point
  | fraction
  | mark
  | markSign
  | exponent

/-- A literal as far as it is read. The digits of each part stand last first. -/
structure Numeral where
  negative : Bool
  part : NumeralPart
  whole : List Char
  fraction : List Char
  shrinks : Bool
  exponent : List Char

namespace Numeral

/-- The literal that a minus sign opens. -/
def minus : Numeral := ⟨true, .sign, [], [], false, []⟩

/-- The literal that a digit opens. -/
def digit (c : Char) : Numeral := ⟨false, if c = '0' then .zero else .whole, [c], [], false, []⟩

/-- Whether the literal may end here. -/
def complete (n : Numeral) : Bool :=
  match n.part with
  | .zero | .whole | .fraction | .exponent => true
  | _ => false

/-- What the next character does to a literal. -/
inductive Next where
  | more (n : Numeral)
  | ends
  | refused

/-- Goes on to an exponent. -/
def toMark (n : Numeral) : Next := .more { n with part := .mark }

/-- The next character: part of the literal, the first one after it, or out of place. -/
def next (n : Numeral) (c : Char) : Next :=
  match n.part with
  | .sign =>
      if c = '0' then .more { n with part := .zero, whole := [c] }
      else if c.isDigit then .more { n with part := .whole, whole := [c] }
      else .refused
  | .zero =>
      if c = '.' then .more { n with part := .point }
      else if c = 'e' ∨ c = 'E' then n.toMark
      else if c.isDigit then .refused
      else .ends
  | .whole =>
      if c.isDigit then .more { n with whole := c :: n.whole }
      else if c = '.' then .more { n with part := .point }
      else if c = 'e' ∨ c = 'E' then n.toMark
      else .ends
  | .point =>
      if c.isDigit then .more { n with part := .fraction, fraction := [c] } else .refused
  | .fraction =>
      if c.isDigit then .more { n with fraction := c :: n.fraction }
      else if c = 'e' ∨ c = 'E' then n.toMark
      else .ends
  | .mark =>
      if c = '+' then .more { n with part := .markSign }
      else if c = '-' then .more { n with part := .markSign, shrinks := true }
      else if c.isDigit then .more { n with part := .exponent, exponent := [c] }
      else .refused
  | .markSign =>
      if c.isDigit then .more { n with part := .exponent, exponent := [c] } else .refused
  | .exponent =>
      if c.isDigit then .more { n with exponent := c :: n.exponent } else .ends

/-! ## 2. Scaling by powers of ten -/

/-- A power of ten as a double. -/
def tenTo (k : Nat) : Float := Float.ofScientific 1 false k

/-- A double times a power of ten; nothing, where that is beyond the doubles. -/
def scaleUp? (x : Float) (k : Nat) : Option Float :=
  if k ≤ 308 then
    let y := x * tenTo k
    if y.isInf then none else some y
  else if x == 0.0 then some x
  else none

/-- A double divided by a power of ten. -/
def scaleDown (x : Float) (k : Nat) : Float :=
  if k ≤ 308 then x / tenTo k
  else if x == 0.0 then x
  else scaleDown (x / tenTo 308) (k - 308)
termination_by k

/-! ## 3. The value -/

/-- The greatest unsigned 64-bit word. -/
def greatestWord : Nat := 18446744073709551615

/-- The value of a digit. -/
def digitValue (c : Char) : Nat := c.toNat - 48

/-- The word that leading digits make, continued from `word`, and the digits that do not fit. -/
def leading (word : Nat) : List Char → Nat × List Char
  | [] => (word, [])
  | c :: cs =>
      let longer := word * 10 + digitValue c
      if longer ≤ greatestWord then leading longer cs else (word, c :: cs)

/-- The double of a word and a power of ten; nothing, where that is beyond the doubles. -/
def scaled? (word : Nat) (e : Int) : Option Float :=
  let x := Float.ofScientific word false 0
  if 0 ≤ e then scaleUp? x e.toNat else some (scaleDown x (-e).toNat)

/-- The literal as a double. -/
def real? (n : Numeral) : Option Float :=
  let (head, surplus) := leading 0 n.whole.reverse
  let (word, dropped) := leading head n.fraction.reverse
  let kept := n.fraction.length - dropped.length
  let e : Int := Nat.ofDigitChars 10 n.exponent.reverse 0
  let scale := (surplus.length : Int) - kept + (if n.shrinks then -e else e)
  (scaled? word scale).map fun x => if n.negative then -x else x

/-- The literal as a whole number, where it is written as one and the words hold it. -/
def whole? (n : Numeral) : Option Whole :=
  match n.part with
  | .zero | .whole =>
      let magnitude : Int := Nat.ofDigitChars 10 n.whole.reverse 0
      if n.negative then
        if magnitude = 0 then none else Whole.ofInt? (-magnitude)
      else Whole.ofInt? magnitude
  | _ => none

/-- The value of a literal that may end. -/
def value? (n : Numeral) : Option Number :=
  match n.whole? with
  | some w => some (.whole w)
  | none => n.real?.map .real

end Numeral

end Json

end Pagewright
