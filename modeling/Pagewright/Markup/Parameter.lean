import Pagewright.Json.Printer
import Pagewright.Markup.Diagnostic
import Pagewright.Markup.Element

/-!
# Attributes in template source

How the attributes of a node are written into its call:

* plain parameters (`Class: row`): a missing value and a falsy one (`null`, `false`, a zero, the
  empty text) are written as nothing, arrays and objects are refused;
* `params` and `pageparams` as one quoted text each (`Params: "a=1,b="`);
* `columns` as one quoted text (`Columns: "id=Id"`), every column with a name and a title;
* the suffixes `.Style(…)`, `.Validate(…)` and `.Alert(…)`.

Values within `validate` and `columns` are written literally, so `false` and `0` show there.
-/

namespace Pagewright

/-! ## 1. Values as text -/

/-- Whether a number is a zero. -/
def Json.isZero : Number → Bool
  | .whole n => n.val = 0
  | .real x => x == 0.0

/-- Whether a value counts as given: not `null`, not `false`, no zero and no empty text. -/
def Json.truthy : Json → Bool
  | .null => false
  | .bool b => b
  | .num n => !isZero n
  | .str s => s ≠ ""
  | .arr _ => true
  | .obj _ => true

/-- A plain value as it stands in template source, also where it is falsy. -/
def Json.literal? : Json → Option String
  | .str s => some s
  | .arr _ => none
  | .obj _ => none
  | v => some v.compact

/-- A plain value as the text of a parameter: nothing where it is falsy. -/
def Json.plain? : Json → Option String
  | .arr _ => none
  | .obj _ => none
  | v => if v.truthy then v.literal? else some ""

namespace Label

/-- The diagnostic of an attribute of this node. -/
def malformed {α : Type} (l : Label) (name : String) (fault : AttributeFault) :
    Except Diagnostic α :=
  .error (.malformed l.tag l.ident name fault)

/-- The value of an attribute, where it counts as given. -/
def givenValue (l : Label) (name : String) : Option Json := (l.valueOf name).filter Json.truthy

/-! ## 2. Parameters -/

/-- The text of a plain parameter. -/
def parameterText (l : Label) (name : String) : Except Diagnostic String :=
  match l.valueOf name with
  | none => .ok ""
  | some v =>
      match v.plain? with
      | some s => .ok s
      | none => l.malformed name .notPlain

/-- The plain parameters, in order. -/
def parameterTexts (l : Label) : List (String × String) → Except Diagnostic (List String)
  | [] => .ok []
  | (name, shown) :: rest =>
      match l.parameterText name with
      | .error d => .error d
      | .ok s =>
          match l.parameterTexts rest with
          | .error d => .error d
          | .ok ss => .ok ((shown ++ ": " ++ s) :: ss)

/-- The style, as a suffix. -/
def styleSuffix (l : Label) : Except Diagnostic String :=
  match l.givenValue "style" with
  | none => .ok ""
  | some (.str s) => .ok (".Style(" ++ s ++ ")")
  | some _ => l.malformed "style" .notAStyle

/-- One entry of page parameters: its name, and the text under it where there is a plain one. -/
def pageParameter (entry : String × Json) : String :=
  entry.1 ++ "=" ++ ((entry.2.member "text").bind Json.plain?).getD ""

/-- Page parameters as one quoted text; nothing where there are none. -/
def pageParameters (l : Label) (name shown : String) : Except Diagnostic (List String) :=
  match l.givenValue name with
  | none => .ok []
  | some (.obj ms) =>
      .ok [shown ++ ": \"" ++ String.intercalate "," (ms.map pageParameter) ++ "\""]
  | some _ => l.malformed name .notAnObject

/-- The text of a column's field. -/
def columnField (column : Json) (name : String) : Option String :=
  match column.member name with
  | some .null => none
  | some v => v.literal?
  | none => none

/-- One column: its name and its title. -/
def columnText (column : Json) : Option String :=
  match columnField column "Name", columnField column "Title" with
  | some name, some title => some (name ++ "=" ++ title)
  | _, _ => none

/-- The columns, in order; nothing where one of them lacks its name or title. -/
def columnTexts : List Json → Option (List String)
  | [] => some []
  | column :: rest =>
      match columnText column, columnTexts rest with
      | some s, some ss => some (s :: ss)
      | _, _ => none

/-- The columns as one quoted text; nothing where there are none. -/
def columns (l : Label) : Except Diagnostic (List String) :=
  match l.givenValue "columns" with
  | none => .ok []
  | some (.arr items) =>
      match columnTexts items with
      | some ss => .ok ["Columns: \"" ++ String.intercalate "," ss ++ "\""]
      | none => l.malformed "columns" .badColumn
  | some _ => l.malformed "columns" .notColumns

/-! ## 3. Suffixes -/

/-- The name of a validation rule in template source. -/
def ruleName (name : String) : String :=
  if name = "minlength" then "minLength"
  else if name = "maxlength" then "maxLength"
  else name

/-- The validation rules, in order. -/
def ruleTexts (l : Label) : List (String × Json) → Except Diagnostic (List String)
  | [] => .ok []
  | (name, v) :: rest =>
      match v.literal? with
      | none => l.malformed "validate" (.rule name)
      | some s =>
          match l.ruleTexts rest with
          | .error d => .error d
          | .ok ss => .ok ((ruleName name ++ ": " ++ s) :: ss)

/-- The validation, as a suffix; nothing where there are no rules. -/
def validationSuffix (l : Label) : Except Diagnostic String :=
  match l.givenValue "validate" with
  | none => .ok ""
  | some (.obj ms) =>
      match l.ruleTexts ms with
      | .error d => .error d
      | .ok [] => .ok ""
      | .ok ss => .ok (".Validate(" ++ String.intercalate "," ss ++ ")")
  | some _ => l.malformed "validate" .notAnObject

/-- The fields of an alert, in the order in which they are written. -/
def alertFields : List (String × String) :=
  [("text", "Text"), ("confirmbutton", "ConfirmButton"), ("cancelbutton", "CancelButton"),
   ("icon", "Icon")]

/-- The fields of an alert that are given. -/
def alertTexts (l : Label) (ms : List (String × Json)) :
    List (String × String) → Except Diagnostic (List String)
  | [] => .ok []
  | (name, shown) :: rest =>
      match Members.find name ms with
      | none => l.alertTexts ms rest
      | some v =>
          match v.plain? with
          | none => l.malformed "alert" (.alertField name)
          | some s =>
              match l.alertTexts ms rest with
              | .error d => .error d
              | .ok ss => .ok (if s = "" then ss else (shown ++ ": " ++ s) :: ss)

/-- The alert, as a suffix. -/
def alertSuffix (l : Label) : Except Diagnostic String :=
  match l.givenValue "alert" with
  | none => .ok ""
  | some (.obj ms) =>
      match l.alertTexts ms alertFields with
      | .error d => .error d
      | .ok ss => .ok (".Alert(" ++ String.intercalate ", " ss ++ ")")
  | some _ => l.malformed "alert" .notAnObject

end Label

end Pagewright
