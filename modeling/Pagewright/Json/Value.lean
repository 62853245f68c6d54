import Pagewright.Json.Members

/-!
# JSON values

A value as the page files hold it: the six shapes of JSON, with

* whole numbers apart from doubles (`1` and `1.0` are two values), whole numbers in the range of
  the 64-bit words, signed below zero and unsigned above;
* the members of an object in written order (see `Members`).

Two values are the *same* (`Json.same`) when they agree up to the order of members; doubles are
compared as numbers, so `0.0` and `-0.0` are the same.
-/

namespace Pagewright

/-! ## 1. Numbers -/

/-- The least signed 64-bit word, `-2^63`. -/
def leastWhole : Int := -9223372036854775808

/-- The greatest unsigned 64-bit word, `2^64 - 1`. -/
def greatestWhole : Int := 18446744073709551615

/-- A whole number that one of the 64-bit words holds. -/
structure Whole where
  val : Int
  lower : leastWhole ≤ val
  upper : val ≤ greatestWhole

namespace Whole

theorem ext {a b : Whole} (h : a.val = b.val) : a = b := by
  cases a
  cases b
  cases h
  rfl

instance : DecidableEq Whole := fun a b =>
  if h : a.val = b.val then isTrue (ext h) else isFalse (fun e => h (congrArg Whole.val e))

/-- The whole number with this value, where there is one. -/
def ofInt? (i : Int) : Option Whole :=
  if h : leastWhole ≤ i ∧ i ≤ greatestWhole then some ⟨i, h.1, h.2⟩ else none

theorem ofInt?_val (n : Whole) : ofInt? n.val = some n := by
  have h : leastWhole ≤ n.val ∧ n.val ≤ greatestWhole := ⟨n.lower, n.upper⟩
  rw [ofInt?, dif_pos h]

/-- A 64-bit word as a whole number. -/
def ofWord (w : UInt64) : Whole where
  val := w.toNat
  lower := by
    unfold leastWhole
    omega
  upper := by
    have h := w.toNat_lt
    unfold greatestWhole
    omega

end Whole

/-- A number: whole, or a finite double. -/
inductive Number where
  | whole (n : Whole)
  | real (x : Float)

/-! ## 2. Values -/

/-- A JSON value. -/
inductive Json where
  | null
  | bool (b : Bool)
  | num (n : Number)
  | str (s : String)
  | arr (items : List Json)
  | obj (members : List (String × Json))

namespace Json

instance : Inhabited Json := ⟨.null⟩

/-- The value of a member; nothing, where the value is no object or has no such member. -/
def member (name : String) : Json → Option Json
  | .obj ms => Members.find name ms
  | _ => none

/-- The text of a string. -/
def text? : Json → Option String
  | .str s => some s
  | _ => none

/-- Whether the value is `null`. -/
def isNull : Json → Bool
  | .null => true
  | _ => false

/-! ## 3. Sameness -/

/-- Whole numbers agree as numbers, doubles as doubles, and never one with the other. -/
def sameNumber : Number → Number → Bool
  | .whole a, .whole b => a == b
  | .real x, .real y => x == y
  | _, _ => false

mutual

/-- Whether two values agree up to the order of members. -/
def same : Json → Json → Bool
  | .null, .null => true
  | .bool a, .bool b => a == b
  | .num a, .num b => sameNumber a b
  | .str a, .str b => a == b
  | .arr as, .arr bs => sameItems as bs
  | .obj as, .obj bs => as.length == bs.length && sameMembers as bs
  | _, _ => false

/-- Whether two lists of values agree place by place. -/
def sameItems : List Json → List Json → Bool
  | [], [] => true
  | a :: as, b :: bs => same a b && sameItems as bs
  | _, _ => false

/-- Whether every member on the left has its like on the right. -/
def sameMembers : List (String × Json) → List (String × Json) → Bool
  | [], _ => true
  | (k, a) :: as, bs =>
      (match Members.find k bs with
        | some b => same a b
        | none => false) && sameMembers as bs

end

/-! ## 4. Depth and repeated names -/

mutual

/-- How many arrays and objects lie around the innermost value. -/
def depth : Json → Nat
  | .arr items => depthItems items + 1
  | .obj ms => depthMembers ms + 1
  | _ => 0

/-- The greatest depth among the items. -/
def depthItems : List Json → Nat
  | [] => 0
  | a :: as => max (depth a) (depthItems as)

/-- The greatest depth among the members. -/
def depthMembers : List (String × Json) → Nat
  | [] => 0
  | (_, a) :: as => max (depth a) (depthMembers as)

end

mutual

/-- No object in the value repeats a name. -/
def Distinct : Json → Prop
  | .arr items => DistinctItems items
  | .obj ms => (Members.names ms).Nodup ∧ DistinctMembers ms
  | _ => True

/-- No object in the items repeats a name. -/
def DistinctItems : List Json → Prop
  | [] => True
  | a :: as => Distinct a ∧ DistinctItems as

/-- No object in the values of the members repeats a name. -/
def DistinctMembers : List (String × Json) → Prop
  | [] => True
  | (_, a) :: as => Distinct a ∧ DistinctMembers as

end

end Json

end Pagewright
