import Pagewright.Json.Numeral

/-!
# Reading values from text

The reader is a machine that takes one character at a time. Its state is the stack of arrays and
objects that wait for a value, and a phase that says what may come next. So reading a text is one
fold over its characters, and reading `s ++ t` is reading `s` and going on with `t` (`run_append`).

Two things can be wrong with a text: it stops before the value is complete (`truncated`), or a
character is out of place (`malformed`). The first character out of place decides.

* Only the blank, the tab, the line feed and the carriage return stand between tokens.
* Below U+0020 no character stands unescaped in a string; the two halves of a surrogate pair are
  escaped one after the other, and neither stands alone.
* Arrays and objects nest up to a limit; the one beyond it is out of place.
* Of a name that an object repeats, the first place and the last value count.
-/

namespace Pagewright

namespace Json

/-! ## 1. The states of the machine -/

/-- What is wrong with a text. -/
inductive ReadError where
  | malformed
  | truncated
  deriving DecidableEq

/-- How strict the reading is. `depth` bounds the nesting; `tolerant` takes any escaped unit and
    any size of number, for values that nobody will look at. -/
structure ReadRules where
  depth : Option Nat
  tolerant : Bool

/-- An array or object that waits for a value. What is complete stands last first. -/
inductive Frame where
  | item (before : List Json)
  | member (before : List (String × Json)) (name : String)

/-- What a string is read for: a value, or the name of a member after these. -/
inductive StringUse where
  | value
  | name (before : List (String × Json))

/-- The four octets after `\u`: how many are left, what they make so far, whether one of them was
    no digit, and the first half of the pair, where this is the second. -/
structure UnitEscape where
  left : Nat
  value : Nat
  spoilt : Bool
  first : Option Nat

/-- Where the machine stands within a string. -/
inductive StringPart where
  | plain
  | backslash
  | unit (u : UnitEscape)
  | pairBackslash (first : Nat)
  | pairUnit (first : Nat)

/-- What may come next. -/
inductive Phase where
  | value
  | firstItem
  | afterItem (before : List Json)
  | firstName
  | nextName (before : List (String × Json))
  | afterName (before : List (String × Json)) (name : String)
  | afterMember (before : List (String × Json))
  | word (rest : List Char) (v : Json)
  | number (n : Numeral)
  | text (use : StringUse) (read : List Char) (part : StringPart)
  | done (v : Json)

/-- The machine: who waits, and for what. -/
structure ReadState where
  stack : List Frame
  phase : Phase

/-- Before the first character. -/
def ReadState.start : ReadState := ⟨[], .value⟩

/-! ## 2. Steps that need no character -/

/-- Hands a complete value to whoever waits for it. -/
def deliver (v : Json) : List Frame → ReadState
  | [] => ⟨[], .done v⟩
  | .item before :: stack => ⟨stack, .afterItem (v :: before)⟩
  | .member before name :: stack => ⟨stack, .afterMember ((name, v) :: before)⟩

/-- Whether one more array or object may be opened. -/
def mayOpen (rules : ReadRules) (stack : List Frame) : Bool :=
  match rules.depth with
  | none => true
  | some limit => stack.length < limit

/-- The first character of a value. -/
def openValue (rules : ReadRules) (stack : List Frame) (c : Char) : Except ReadError ReadState :=
  if c = 'n' then .ok ⟨stack, .word ['u', 'l', 'l'] .null⟩
  else if c = 't' then .ok ⟨stack, .word ['r', 'u', 'e'] (.bool true)⟩
  else if c = 'f' then .ok ⟨stack, .word ['a', 'l', 's', 'e'] (.bool false)⟩
  else if c = '"' then .ok ⟨stack, .text .value [] .plain⟩
  else if c = '-' then .ok ⟨stack, .number .minus⟩
  else if c.isDigit then .ok ⟨stack, .number (.digit c)⟩
  else if c = '[' then
    if mayOpen rules stack then .ok ⟨.item [] :: stack, .firstItem⟩ else .error .malformed
  else if c = '\x7b' then
    if mayOpen rules stack then .ok ⟨stack, .firstName⟩ else .error .malformed
  else .error .malformed

/-- The end of a number: its value, unless it is beyond the doubles. -/
def closeNumber (rules : ReadRules) (stack : List Frame) (n : Numeral) :
    Except ReadError ReadState :=
  match n.value? with
  | some v => .ok (deliver (.num v) stack)
  | none => if rules.tolerant then .ok (deliver .null stack) else .error .malformed

/-- The closing quote of a string. -/
def closeString (stack : List Frame) (use : StringUse) (read : List Char) : ReadState :=
  let s := String.ofList read.reverse
  match use with
  | .value => deliver (.str s) stack
  | .name before => ⟨stack, .afterName before s⟩

/-! ## 3. Escapes -/

/-- The value of a hexadecimal digit. -/
def hexValue? (c : Char) : Option Nat :=
  if c.isDigit then some (c.toNat - 48)
  else if 'a' ≤ c ∧ c ≤ 'f' then some (c.toNat - 87)
  else if 'A' ≤ c ∧ c ≤ 'F' then some (c.toNat - 55)
  else none

/-- The character that a backslash and one more character stand for. -/
def escaped? (c : Char) : Option Char :=
  if c = '"' ∨ c = '\\' ∨ c = '/' then some c
  else if c = 'b' then some '\x08'
  else if c = 'f' then some '\x0c'
  else if c = 'n' then some '\n'
  else if c = 'r' then some '\r'
  else if c = 't' then some '\t'
  else none

/-- Whether a unit is the first half of a pair. -/
def isFirstHalf (u : Nat) : Bool := 0xD800 ≤ u && u ≤ 0xDBFF

/-- Whether a unit is the second half of a pair. -/
def isSecondHalf (u : Nat) : Bool := 0xDC00 ≤ u && u ≤ 0xDFFF

/-- What the four octets after `\u` make of the string. -/
def closeUnit (rules : ReadRules) (read : List Char) (u : UnitEscape) :
    Except ReadError (List Char × StringPart) :=
  if u.spoilt then .error .malformed
  else if rules.tolerant then .ok (Char.ofNat u.value :: read, .plain)
  else
    match u.first with
    | none =>
        if isSecondHalf u.value then .error .malformed
        else if isFirstHalf u.value then .ok (read, .pairBackslash u.value)
        else .ok (Char.ofNat u.value :: read, .plain)
    | some first =>
        if isSecondHalf u.value then
          .ok (Char.ofNat (0x10000 + (first - 0xD800) * 0x400 + (u.value - 0xDC00)) :: read, .plain)
        else .error .malformed

/-- One character after `\u`. -/
def stepUnit (rules : ReadRules) (read : List Char) (u : UnitEscape) (c : Char) :
    Except ReadError (List Char × StringPart) :=
  let digit := hexValue? c
  let u' : UnitEscape :=
    ⟨u.left - c.utf8Size, u.value * 16 + digit.getD 0, u.spoilt || digit.isNone, u.first⟩
  if u'.left = 0 then closeUnit rules read u' else .ok (read, .unit u')

/-- One character within a string, the closing quote apart. -/
def stepString (rules : ReadRules) (read : List Char) (part : StringPart) (c : Char) :
    Except ReadError (List Char × StringPart) :=
  match part with
  | .plain =>
      if c = '\\' then .ok (read, .backslash)
      else if c.toNat < 32 then .error .malformed
      else .ok (c :: read, .plain)
  | .backslash =>
      if c = 'u' then .ok (read, .unit ⟨4, 0, false, none⟩)
      else
        match escaped? c with
        | some e => .ok (e :: read, .plain)
        | none => .error .malformed
  | .unit u => stepUnit rules read u c
  | .pairBackslash first => if c = '\\' then .ok (read, .pairUnit first) else .error .malformed
  | .pairUnit first =>
      if c = 'u' then .ok (read, .unit ⟨4, 0, false, some first⟩) else .error .malformed

/-- Whether a character closes the string it is met in. -/
def closesString : StringPart → Char → Bool
  | .plain, c => c = '"'
  | _, _ => false

/-! ## 4. One character -/

/-- Whether a character may stand between tokens. -/
def isBlank (c : Char) : Bool := c = ' ' || c = '\t' || c = '\n' || c = '\r'

/-- One character in a phase in which no word, number or string is open. -/
def stepBetween (rules : ReadRules) (q : ReadState) (c : Char) : Except ReadError ReadState :=
  if isBlank c then .ok q
  else
    match q.phase with
    | .value => openValue rules q.stack c
    | .firstItem =>
        if c = ']' then .ok (deliver (.arr []) q.stack.tail) else openValue rules q.stack c
    | .afterItem before =>
        if c = ',' then .ok ⟨.item before :: q.stack, .value⟩
        else if c = ']' then .ok (deliver (.arr before.reverse) q.stack)
        else .error .malformed
    | .firstName =>
        if c = '"' then .ok ⟨q.stack, .text (.name []) [] .plain⟩
        else if c = '\x7d' then .ok (deliver (.obj []) q.stack)
        else .error .malformed
    | .nextName before =>
        if c = '"' then .ok ⟨q.stack, .text (.name before) [] .plain⟩ else .error .malformed
    | .afterName before name =>
        if c = ':' then .ok ⟨.member before name :: q.stack, .value⟩ else .error .malformed
    | .afterMember before =>
        if c = ',' then .ok ⟨q.stack, .nextName before⟩
        else if c = '\x7d' then .ok (deliver (.obj (Members.ofPairs before.reverse)) q.stack)
        else .error .malformed
    | _ => .error .malformed

/-- One character. -/
def step (rules : ReadRules) (q : ReadState) (c : Char) : Except ReadError ReadState :=
  match q.phase with
  | .word [] _ => .error .malformed
  | .word (expected :: rest) v =>
      if c = expected then
        if rest = [] then .ok (deliver v q.stack) else .ok ⟨q.stack, .word rest v⟩
      else .error .malformed
  | .number n =>
      match n.next c with
      | .more n' => .ok ⟨q.stack, .number n'⟩
      | .refused => .error .malformed
      | .ends =>
          match closeNumber rules q.stack n with
          | .ok q' => stepBetween rules q' c
          | .error e => .error e
  | .text use read part =>
      if closesString part c then .ok (closeString q.stack use read)
      else
        match stepString rules read part c with
        | .ok (read', part') => .ok ⟨q.stack, .text use read' part'⟩
        | .error e => .error e
  | _ => stepBetween rules q c

/-! ## 5. A whole text -/

/-- Reads the characters in turn. -/
def run (rules : ReadRules) : ReadState → List Char → Except ReadError ReadState
  | q, [] => .ok q
  | q, c :: cs =>
      match step rules q c with
      | .ok q' => run rules q' cs
      | .error e => .error e

/-- **Reading goes on where it stopped.** -/
theorem run_append (rules : ReadRules) (cs ds : List Char) (q : ReadState) :
    run rules q (cs ++ ds) =
      match run rules q cs with
      | .ok q' => run rules q' ds
      | .error e => .error e := by
  induction cs generalizing q with
  | nil => rfl
  | cons c cs ih =>
      rw [List.cons_append, run, run]
      split
      · exact ih _
      · rfl

/-- The end of the text: a number that may end does so. -/
def closeText (rules : ReadRules) (q : ReadState) : Except ReadError ReadState :=
  match q.phase with
  | .number n => if n.complete then closeNumber rules q.stack n else .error .truncated
  | _ => .ok q

/-- The value that a text holds, under the given rules. -/
def readWith (rules : ReadRules) (text : String) : Except ReadError Json :=
  match run rules .start text.toList with
  | .error e => .error e
  | .ok q =>
      match closeText rules q with
      | .error e => .error e
      | .ok q' =>
          match q'.phase with
          | .done v => .ok v
          | _ => .error .truncated

/-- Page files nest up to 127 arrays and objects. -/
def pageRules : ReadRules := ⟨some 127, false⟩

/-- The value that a text holds. -/
def read (text : String) : Except ReadError Json := readWith pageRules text

end Json

end Pagewright
