/-!
# The fewest digits that read back

A finite double above zero is `m · 2^q` with `m < 2^53`. The reals that round to it form an
interval around it: halfway to the doubles next to it, the ends included exactly when `m` is even.
This file finds the shortest decimal in that interval:

* on the grid of multiples of a power of ten, the value lies between two neighbours
  (`Binary.onGrid?`); if any point of the grid is in the interval, one of these two is;
* the grids are tried from the coarsest that can hold a point, one digit more at a time
  (`Binary.shortest`); of two points the nearer is taken, and the even one when both are as near.

All of it is exact arithmetic on natural numbers.
-/

namespace Pagewright

namespace Decimal

/-! ## 1. Doubles as scaled integers -/

/-- The number `significand · 2^scale`. `narrow` says that the next double below lies half as far
    away as the next above, which is so at a power of two. -/
structure Binary where
  significand : Nat
  scale : Int
  narrow : Bool

/-- The least significand of a normal double, `2^52`. -/
def leastNormal : Nat := 4503599627370496

/-- How many exponents the bits of a double tell apart. -/
def exponentCount : Nat := 2048

/-- The magnitude in the bits of a finite double. -/
def Binary.ofBits (bits : UInt64) : Binary :=
  let fraction : Nat := bits.toNat % leastNormal
  let exponent : Nat := bits.toNat / leastNormal % exponentCount
  if exponent = 0 then
    ⟨fraction, -1074, false⟩
  else
    ⟨leastNormal + fraction, (exponent : Int) - 1075, fraction = 0 ∧ exponent ≠ 1⟩

/-! ## 2. Grids -/

/-- The number `digits · 10^exponent`. -/
structure Scaled where
  digits : Nat
  exponent : Int

/-- A power with an exponent that counts only above zero. -/
def power (base : Nat) (exponent : Int) : Nat := Nat.pow base exponent.toNat

/-- What a quarter of the significand's unit weighs on the grid of multiples of `10^g`, as a
    numerator. The denominator is `Binary.gridDen`. -/
def Binary.gridNum (x : Binary) (g : Int) : Nat := power 2 (x.scale - 2) * power 10 (-g)

/-- The denominator that belongs to `Binary.gridNum`. -/
def Binary.gridDen (x : Binary) (g : Int) : Nat := power 2 (2 - x.scale) * power 10 g

/-- Whether the `c`th point of the grid rounds to the number. -/
def Binary.roundsFrom (x : Binary) (g : Int) (c : Nat) : Bool :=
  let point := c * x.gridDen g
  let low := (4 * x.significand - if x.narrow then 1 else 2) * x.gridNum g
  let high := (4 * x.significand + 2) * x.gridNum g
  if x.significand % 2 = 0 then low ≤ point && point ≤ high else low < point && point < high

/-- The point of the grid of multiples of `10^g` that rounds to the number and is nearest to it. -/
def Binary.onGrid? (x : Binary) (g : Int) : Option Scaled :=
  let value := 4 * x.significand * x.gridNum g
  let c := value / x.gridDen g
  match x.roundsFrom g c, x.roundsFrom g (c + 1) with
  | true, true =>
      let twice := 2 * (value % x.gridDen g)
      if twice < x.gridDen g || (twice == x.gridDen g && c % 2 == 0) then some ⟨c, g⟩
      else some ⟨c + 1, g⟩
  | true, false => some ⟨c, g⟩
  | false, true => some ⟨c + 1, g⟩
  | false, false => none

/-! ## 3. The search -/

/-- How many decimal digits a natural number has. -/
def digitCount (n : Nat) : Nat := (Nat.toDigits 10 n).length

/-- The exponent `e` with `10^e ≤ x < 10^(e+1)`, for a number above zero. -/
def Binary.leadingExponent (x : Binary) : Int :=
  let num := x.significand * power 2 x.scale
  let den := power 2 (-x.scale)
  if den ≤ num then
    (digitCount (num / den) : Int) - 1
  else
    let k := digitCount (den / num) - 1
    if den ≤ num * power 10 k then -(k : Int) else -(k : Int) - 1

/-- The shortest decimal that rounds to the number. Seventeen digits are enough for any double. -/
def Binary.shortest (x : Binary) : Scaled :=
  let e := x.leadingExponent
  ((List.range 17).findSome? fun (n : Nat) => x.onGrid? (e - n)).getD ⟨0, 0⟩

end Decimal

end Pagewright
