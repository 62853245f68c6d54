import Pagewright.Json.Reader
import Pagewright.Json.Shape
import Pagewright.Markup.Render
import Pagewright.Project.Path

/-!
# Project settings

A project keeps its settings in one JSON file: where the pages are, where template source goes,
the extension of generated files, and whether white space at line ends is trimmed. Every setting
has a default; settings that are not known are passed over, whatever stands under them. The
settings may also come as an array, in this order.

The text is judged while it is read. Of a setting of the wrong shape and a text that is damaged
later on, the setting is reported, and a setting that comes twice is reported at its second name.
-/

namespace Pagewright

open Json (ShapeError)

/-! ## 1. The settings -/

/-- The settings of a project. -/
structure Config where
  srcDir : String
  outDir : String
  extension : String
  trim : Bool

namespace Config

/-- The name of the settings file. -/
def fileName : String := "protypo.config.json"

/-- The settings of a project that has no settings file. -/
def standard : Config := ⟨"src", "dist", "ptp", false⟩

/-- The folder of the pages. -/
def srcPath (c : Config) (cwd : String) : String := Path.join cwd c.srcDir

/-- The folder of the template source. -/
def outPath (c : Config) (cwd : String) : String := Path.join cwd c.outDir

/-- How pages are rendered under the settings. -/
def renderOptions (c : Config) : RenderOptions := { RenderOptions.standard with trim := c.trim }

/-- The settings as a value. -/
def toJson (c : Config) : Json :=
  .obj [("srcDir", .str c.srcDir), ("outDir", .str c.outDir), ("extension", .str c.extension),
    ("trimTrailingWhitespace", .bool c.trim)]

/-! ## 2. Single settings -/

/-- The names of the settings, in the order of the array form. -/
def fieldNames : List String := ["srcDir", "outDir", "extension", "trimTrailingWhitespace"]

/-- What is expected under a name; nothing, where the name is not known. -/
def expected? (name : String) : Option String :=
  if name = "trimTrailingWhitespace" then some "a boolean"
  else if fieldNames.contains name then some "a string"
  else none

/-- What is wrong with a value under a name. -/
def fault? (name : String) (v : Json) : Option ShapeError :=
  match expected? name, v with
  | none, _ => none
  | some "a boolean", .bool _ => none
  | some "a string", .str _ => none
  | some expected, v => some (.wrongType v.found expected)

/-- The text under a name, or the default. -/
def textUnder (ms : List (String × Json)) (name default : String) : String :=
  ((Members.find name ms).bind Json.text?).getD default

/-- The settings that the members of an object give. -/
def ofMembers (ms : List (String × Json)) : Config where
  srcDir := textUnder ms "srcDir" standard.srcDir
  outDir := textUnder ms "outDir" standard.outDir
  extension := textUnder ms "extension" standard.extension
  trim :=
    match Members.find "trimTrailingWhitespace" ms with
    | some (.bool b) => b
    | _ => standard.trim

/-- The settings that a complete value gives. -/
def ofJson : Json → Config
  | .obj ms => ofMembers ms
  | .arr items => ofMembers (fieldNames.zip items)
  | _ => standard

/-! ## 3. Judging a text while it is read -/

/-- The first fault among members, given the names before them. -/
def memberFault? (seen : List String) : List (String × Json) → Option ShapeError
  | [] => none
  | (name, v) :: rest =>
      if (expected? name).isSome && seen.contains name then some (.repeatedField name)
      else
        match fault? name v with
        | some e => some e
        | none => memberFault? (name :: seen) rest

/-- The fault of a name that is about to get a value. -/
def nameFault? (before : List (String × Json)) (name : String) : Option ShapeError :=
  match memberFault? [] before.reverse with
  | some e => some e
  | none =>
      if (expected? name).isSome && (Members.names before).contains name then
        some (.repeatedField name)
      else none

/-- The first fault among the items of the array form. -/
def itemFault? (items : List Json) : Option ShapeError :=
  memberFault? [] (fieldNames.zip items)

/-- The array or object that is open right within the outermost one, with nothing in it. -/
def openedWithin (q : Json.ReadState) : Option Json :=
  match q.stack.reverse with
  | _ :: .item _ :: _ => some (.arr [])
  | _ :: .member _ _ :: _ => some (.obj [])
  | _ =>
      match q.phase with
      | .afterItem _ => some (.arr [])
      | .firstName => some (.obj [])
      | .nextName _ => some (.obj [])
      | .afterName _ _ => some (.obj [])
      | .afterMember _ => some (.obj [])
      | .text (.name _) _ _ => some (.obj [])
      | _ => none

/-- What is wrong with the text as far as it is read. -/
def stateFault? (q : Json.ReadState) : Option ShapeError :=
  match q.stack.getLast? with
  | some (.member before name) =>
      match nameFault? before name with
      | some e => some e
      | none => (openedWithin q).bind (fault? name)
  | some (.item before) =>
      match itemFault? before.reverse with
      | some e => some e
      | none =>
          match openedWithin q, fieldNames[before.length]? with
          | some v, some name => fault? name v
          | _, _ => none
  | none =>
      match q.phase with
      | .afterItem before => itemFault? before.reverse
      | .nextName before => memberFault? [] before.reverse
      | .afterName before name => nameFault? before name
      | .afterMember before => memberFault? [] before.reverse
      | .text (.name before) _ _ => memberFault? [] before.reverse
      | .done (.obj _) => none
      | .done (.arr _) => none
      | .done v => some (.wrongType v.found "struct Config")
      | _ => none

/-- Whether the array form has an item that no setting is left for. -/
def isOverfull (q : Json.ReadState) : Bool :=
  match q.stack.getLast? with
  | some (.item before) => fieldNames.length ≤ before.length
  | _ => false

/-- How strict the next character is read: under a name that is not known anything goes. -/
def rulesAt (q : Json.ReadState) : Json.ReadRules :=
  match q.stack.getLast? with
  | some (.member _ name) => ⟨none, (expected? name).isNone⟩
  | _ => ⟨none, false⟩

/-- Why settings cannot be read. A fault of shape comes with the number of characters before it. -/
inductive ReadFault where
  | text (e : Json.ReadError)
  | shape (e : ShapeError) (place : Nat)

/-- The state in which a number that the next character ends is complete. -/
def endNumber (q : Json.ReadState) (c : Char) : Except Json.ReadError Json.ReadState :=
  match q.phase with
  | .number n =>
      match n.next c with
      | .ends => Json.closeNumber (rulesAt q) q.stack n
      | _ => .ok q
  | _ => .ok q

/-- Where a fault is reported that shows after `place` characters, with these to come: an array or
    object before its bracket, a name that comes twice after the blanks behind it. -/
def faultPlace (place : Nat) (rest : List Char) : ShapeError → Nat
  | .wrongType .sequence _ => place - 1
  | .wrongType .map _ => place - 1
  | .repeatedField _ =>
      let blanks := (rest.takeWhile Json.isBlank).length
      place + blanks + (if (rest.drop blanks).head? = some '\x7d' then 1 else 0)
  | _ => place

/-- Reads characters in turn, and stops at the first fault. -/
def scan (q : Json.ReadState) (place : Nat) : List Char → Except ReadFault Json.ReadState
  | [] => .ok q
  | c :: cs =>
      match endNumber q c with
      | .error e => .error (.text e)
      | .ok ended =>
          match stateFault? ended with
          | some e => .error (.shape e place)
          | none =>
              match Json.step (rulesAt q) q c with
              | .error e => .error (.text e)
              | .ok q' =>
                  match stateFault? q' with
                  | some e => .error (.shape e (faultPlace (place + 1) cs e))
                  | none =>
                      if isOverfull q' then .error (.text .malformed)
                      else scan q' (place + 1) cs

/-- Reads settings from a text. -/
def read (text : String) : Except ReadFault Config :=
  match scan .start 0 text.toList with
  | .error e => .error e
  | .ok q =>
      match Json.closeText (rulesAt q) q with
      | .error e => .error (.text e)
      | .ok q' =>
          match stateFault? q' with
          | some e => .error (.shape e text.length)
          | none =>
              match q'.phase with
              | .done v => .ok (ofJson v)
              | _ => .error (.text .truncated)

/-! ## 4. Messages -/

/-- The line and the column after some characters; the column counts octets. -/
def position (before : List Char) : Nat × Nat :=
  let line := before.reverse.takeWhile (· ≠ '\n')
  ((before.filter (· = '\n')).length + 1, (String.ofList line).utf8ByteSize)

/-- The wording of a fault, where there is one. -/
def ReadFault.message? : ReadFault → Option String
  | .text _ => none
  | .shape e _ => some e.message

/-- The wording of a fault within a text, with its line and column. -/
def ReadFault.messageIn (text : String) : ReadFault → String
  | .text .malformed => "malformed JSON"
  | .text .truncated => "unexpected end of JSON"
  | .shape e place =>
      let (line, column) := position (text.toList.take place)
      e.message ++ " at line " ++ Nat.repr line ++ " column " ++ Nat.repr column

end Config

end Pagewright
