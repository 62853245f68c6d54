import Pagewright.Page.Node

/-!
# Ids

Every node of a page that is edited has an id. New ids come from a source (`IdSource`):

* the numbering hands out `tag_10000000`, `tag_10000001`, … and starts over after
  `tag_99999999`; it counts in a 32-bit word;
* the draw hands out random numbers of the same range, and does not look whether one comes twice.

Both hand out ids of one shape: `tag_` and eight digits, the first of which is not zero. Such ids
are told from others by the number that they write (`isGenerated`). Ids are given in pre-order: to
the nodes that lack one, or to all (`Forest.assignIds`), or to those whose id is taken
(`Forest.replaceIds`).
-/

namespace Pagewright

/-! ## 1. Sources -/

/-- Something that hands out ids. -/
class IdSource (σ : Type) where
  next : σ → String × σ

/-- The first text of every generated id. -/
def idStem : String := "tag_"

/-- The least number in a generated id. -/
def leastIdNumber : Nat := 10000000

/-- The greatest number in a generated id. -/
def greatestIdNumber : Nat := 99999999

/-- How many generated ids there are. -/
def idCount : Nat := greatestIdNumber - leastIdNumber + 1

/-- The id with this number. -/
def numberedId (n : Nat) : String := idStem ++ Nat.repr n

/-- Ids in numerical order. -/
structure Numbering where
  count : UInt32
  deriving DecidableEq

namespace Numbering

/-- A numbering that has handed out nothing. -/
def fresh : Numbering := ⟨0⟩

/-- The next id. -/
def next (s : Numbering) : String × Numbering :=
  (numberedId (leastIdNumber + s.count.toNat % idCount), ⟨s.count + 1⟩)

instance : IdSource Numbering := ⟨next⟩

/-- The next ids, as many as asked for. -/
def take : Nat → Numbering → List String × Numbering
  | 0, s => ([], s)
  | n + 1, s =>
      let rest := take n s.next.2
      (s.next.1 :: rest.1, rest.2)

end Numbering

/-- Ids at random. -/
structure Draw where
  gen : StdGen

namespace Draw

/-- The next id. -/
def next (s : Draw) : String × Draw :=
  let drawn := randNat s.gen leastIdNumber greatestIdNumber
  (numberedId drawn.1, ⟨drawn.2⟩)

instance : IdSource Draw := ⟨next⟩

end Draw

/-! ## 2. The shape of generated ids -/

/-- A number as it is written, without the plus sign that it may begin with. -/
def withoutPlus : List Char → List Char
  | '+' :: ds => ds
  | ds => ds

/-- The number that is written with digits, after a plus sign or not, if it fits in a 32-bit word. -/
def wordOf? (cs : List Char) : Option Nat :=
  let ds := withoutPlus cs
  if ds ≠ [] ∧ ds.all Char.isDigit ∧ Nat.ofDigitChars 10 ds 0 < UInt32.size then
    some (Nat.ofDigitChars 10 ds 0)
  else none

/-- Whether the characters take eight octets and write a number in the range of generated ids. -/
def isIdNumber (cs : List Char) : Bool :=
  match wordOf? cs with
  | none => false
  | some n => (String.ofList cs).utf8ByteSize = 8 && (leastIdNumber ≤ n && n ≤ greatestIdNumber)

/-- Whether an id has the shape of a generated one. -/
def isGenerated (id : String) : Bool :=
  match idStem.toList.isPrefixOf? id.toList with
  | none => false
  | some cs => isIdNumber cs

/-! ## 3. The ids of a page -/

/-- The ids on a page that are not empty, in pre-order. -/
def Forest.ids (ns : Forest) : List String := (Forest.labels ns).filterMap Label.ident

/-- Gives the label a new id, where `force` says so or it has none. -/
def Label.assignId {σ : Type} [IdSource σ] (force : Bool) (l : Label) (s : σ) : Label × σ :=
  if force || l.ident.isNone then (l.withId (IdSource.next s).1, (IdSource.next s).2) else (l, s)

/-- Gives ids to the nodes that lack one, or to every node. -/
def Forest.assignIds {σ : Type} [IdSource σ] (force : Bool) (ns : Forest) (s : σ) : Forest × σ :=
  Forest.relabel (Label.assignId force) ns s

/-- Gives ids within one node and all below it. -/
def Node.assignIds {σ : Type} [IdSource σ] (force : Bool) (n : Node) (s : σ) : Node × σ :=
  n.relabel (Label.assignId force) s

/-- Gives the label a new id where its id is taken, and counts. -/
def Label.replaceId {σ : Type} [IdSource σ] (taken : String → Bool) (l : Label) (s : σ × Nat) :
    Label × (σ × Nat) :=
  if l.ident.any taken then
    (l.withId (IdSource.next s.1).1, ((IdSource.next s.1).2, s.2 + 1))
  else (l, s)

/-- Gives a new id to every node whose id is taken; the number says how many they were. -/
def Forest.replaceIds {σ : Type} [IdSource σ] (taken : String → Bool) (ns : Forest) (s : σ) :
    Forest × (σ × Nat) :=
  Forest.relabel (Label.replaceId taken) ns (s, 0)

/-- Gives new ids within one node and all below it, where the id is taken. -/
def Node.replaceIds {σ : Type} [IdSource σ] (taken : String → Bool) (n : Node) (s : σ) :
    Node × (σ × Nat) :=
  n.relabel (Label.replaceId taken) (s, 0)

end Pagewright
