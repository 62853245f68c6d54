/-!
# White space

The characters that count as white space in class lists and at line ends: the property White_Space
of Unicode, as a list of ranges. The zero-width space U+200B and the mark U+FEFF do not have it.
-/

namespace Pagewright

namespace Text

/-- The code points that are white space: first and last of each range. -/
def blankRanges : List (Nat × Nat) :=
  [(0x09, 0x0D), (0x20, 0x20), (0x85, 0x85), (0xA0, 0xA0), (0x1680, 0x1680), (0x2000, 0x200A),
   (0x2028, 0x2029), (0x202F, 0x202F), (0x205F, 0x205F), (0x3000, 0x3000)]

/-- Whether a character is white space. -/
def isBlank (c : Char) : Bool :=
  blankRanges.any fun r => r.1 ≤ c.toNat && c.toNat ≤ r.2

/-- The characters without the white space at their end. -/
def dropEndBlanks (cs : List Char) : List Char := (cs.reverse.dropWhile isBlank).reverse

/-- The characters without the white space at either end. -/
def trimBlanks (cs : List Char) : List Char := dropEndBlanks (cs.dropWhile isBlank)

end Text

end Pagewright
