/-!
# Paths

Paths are texts with slashes between components, and stay as they were written: nothing is
normalised. This file joins paths, takes them apart, finds the paths of the folders above them, and
changes the extension of their last component.
-/

namespace Pagewright

namespace Path

/-! ## 1. Joining and splitting -/

/-- Whether a path starts at the root. -/
def isAbsolute (path : String) : Bool := path.toList.head? = some '/'

/-- A path continued by another. An absolute one takes its place; otherwise a single slash stands
    between the two, and none after an empty path. -/
def join (base path : String) : String :=
  if isAbsolute path then path
  else if base = "" then path
  else if base.toList.getLast? = some '/' then base ++ path
  else base ++ "/" ++ path

/-- The texts between the slashes, from the left. -/
def pieces : List Char → List (List Char)
  | [] => [[]]
  | c :: cs =>
      if c = '/' then [] :: pieces cs
      else
        match pieces cs with
        | [] => [[c]]
        | piece :: rest => (c :: piece) :: rest

/-- The pieces of a path. -/
def parts (path : String) : List String := (pieces path.toList).map String.ofList

/-- Whether a piece leads nowhere: nothing between two slashes, or a single dot. -/
def isIdle (piece : String) : Bool := piece = "" || piece = "."

/-- The components of a path: its pieces but the idle ones. -/
def components (path : String) : List String := (parts path).filter fun piece => !isIdle piece

/-- The last component, unless it leads upwards. -/
def fileName (path : String) : Option String := (components path).getLast?.filter (· ≠ "..")

/-- What leads to each component among some pieces, as it is written, with a text before all. -/
def leadsFrom (before : String) : List String → List String
  | [] => []
  | piece :: rest =>
      let here := before ++ piece
      let further := leadsFrom (here ++ "/") rest
      if isIdle piece then further else here :: further

/-- What leads to each component of a path, the longest first. -/
def leads (path : String) : List String := (leadsFrom "" (parts path)).reverse

/-- The path and the paths of the folders above it, as far as they have components. -/
def ancestors (path : String) : List String :=
  match leads path with
  | [] => []
  | _ :: above => path :: above

/-- The path of the folder above: what leads to the component before the last one. -/
def parent? (path : String) : Option String :=
  match leads path with
  | [] => none
  | [_] => some (if isAbsolute path then "/" else "")
  | _ :: above :: _ => some above

/-! ## 2. Extensions -/

/-- The text up to the last dot and the text after it; nothing where there is no dot. -/
def splitAtLastDot : List Char → Option (List Char × List Char)
  | [] => none
  | c :: cs =>
      match splitAtLastDot cs with
      | some (before, after) => some (c :: before, after)
      | none => if c = '.' then some ([], cs) else none

/-- The extension of a file name: what follows the last dot, unless the name starts with it. -/
def extension (name : String) : Option String :=
  match splitAtLastDot name.toList with
  | some (_ :: _, after) => some (String.ofList after)
  | _ => none

/-- A file name without its extension. -/
def stem (name : String) : String :=
  match splitAtLastDot name.toList with
  | some (c :: before, _) => String.ofList (c :: before)
  | _ => name

/-- A file name with another extension; an empty one leaves no dot. A stem that is a single dot
    keeps the dot behind it and nothing more, for two dots lead upwards and take no extension. -/
def withExtension (name extension : String) : String :=
  if stem name = "." then ".."
  else if extension = "" then stem name
  else stem name ++ "." ++ extension

end Path

end Pagewright
