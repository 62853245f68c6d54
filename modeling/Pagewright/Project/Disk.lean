import Pagewright.Project.Path

/-!
# Files and folders

The part of a file system that a project lives in: folders and text files, each named by the list
of components that lead to it from the root. The list of entries is sorted by these names, so a
folder stands right before what it holds.

A path is followed component by component (`Disk.follow`): `.` stays, `..` goes up, and anything
else must be there, except perhaps at the end. Names and paths have a greatest length in octets, and
no path holds a NUL. What cannot be done is reported as the operating system would word it
(`FileFault`).
-/

namespace Pagewright

/-! ## 1. Entries and faults -/

/-- What stands under a name. -/
inductive Entry where
  | folder
  | file (content : String)
  deriving DecidableEq

/-- What can be at a path: a folder, or a file of any content. -/
inductive FileKind where
  | folder
  | file
  deriving DecidableEq

/-- The kind of an entry. -/
def Entry.kind : Entry → FileKind
  | .folder => .folder
  | .file _ => .file

/-- Why something cannot be done with a file. -/
inductive FileFault where
  | notFound
  | alreadyThere
  | notAFolder
  | isAFolder
  | nameTooLong
  | holdsNul
  deriving DecidableEq

/-- The wording of a fault. -/
def FileFault.message : FileFault → String
  | .notFound => "No such file or directory (os error 2)"
  | .alreadyThere => "File exists (os error 17)"
  | .notAFolder => "Not a directory (os error 20)"
  | .isAFolder => "Is a directory (os error 21)"
  | .nameTooLong => "File name too long (os error 36)"
  | .holdsNul => "file name contained an unexpected NUL byte"

/-- Folders and files, sorted by name. The root is always there. -/
structure Disk where
  entries : List (List String × Entry)

namespace Disk

/-- Nothing but the root. -/
def empty : Disk := ⟨[]⟩

/-- What stands under a name. -/
def entryAt (d : Disk) (name : List String) : Option Entry :=
  if name = [] then some .folder else d.entries.lookup name

/-- Whether one name stands before another. -/
def nameBefore (a b : List String) : Bool := decide (a < b)

/-- An entry put into its place in a sorted list. -/
def place (name : List String) (e : Entry) :
    List (List String × Entry) → List (List String × Entry)
  | [] => [(name, e)]
  | (k, v) :: rest =>
      if k = name then (name, e) :: rest
      else if nameBefore name k then (name, e) :: (k, v) :: rest
      else (k, v) :: place name e rest

/-- The disk with an entry written. -/
def write (d : Disk) (name : List String) (e : Entry) : Disk := ⟨place name e d.entries⟩

/-! ## 2. Following paths -/

/-- Where a path leads: to something that is there, or to a free name in a folder. -/
inductive Target where
  | present (name : List String) (e : Entry)
  | free (name : List String)

/-- The greatest length of a name in a folder, in octets. -/
def longestName : Nat := 255

/-- The greatest length of a path, in octets. -/
def longestPath : Nat := 4095

/-- Follows the pieces of a path from a name with this entry. A name that is too long is refused
    where it is looked up, so what comes before it is judged first. -/
def follow (d : Disk) (here : List String) (e : Entry) : List String → Except FileFault Target
  | [] => .ok (.present here e)
  | piece :: rest =>
      if e ≠ .folder then .error .notAFolder
      else if Path.isIdle piece then follow d here e rest
      else if piece = ".." then follow d here.dropLast .folder rest
      else if longestName < piece.utf8ByteSize then .error .nameTooLong
      else
        match d.entryAt (here ++ [piece]) with
        | some e' => follow d (here ++ [piece]) e' rest
        | none => if rest = [] then .ok (.free (here ++ [piece])) else .error .notFound

/-- Follows the pieces of a path from the root, where the path as a whole is one. -/
def targetOf (d : Disk) (path : String) (pieces : List String) : Except FileFault Target :=
  if path.toList.contains '\x00' then .error .holdsNul
  else if path = "" then .error .notFound
  else if longestPath < path.utf8ByteSize then .error .nameTooLong
  else follow d [] .folder pieces

/-- Where a path leads. -/
def target (d : Disk) (path : String) : Except FileFault Target :=
  targetOf d path (Path.parts path)

/-- What is there at a path. -/
def entry? (d : Disk) (path : String) : Option Entry :=
  match d.target path with
  | .ok (.present _ e) => some e
  | _ => none

/-! ## 3. Reading and writing -/

/-- The content of a file. -/
def readText (d : Disk) (path : String) : Except FileFault String :=
  match d.target path with
  | .error fault => .error fault
  | .ok (.free _) => .error .notFound
  | .ok (.present _ .folder) => .error .isAFolder
  | .ok (.present _ (.file content)) => .ok content

/-- Writes a file, in place of one that is there. -/
def writeText (d : Disk) (path content : String) : Except FileFault Disk :=
  match d.target path with
  | .error fault => .error fault
  | .ok (.free name) => .ok (d.write name (.file content))
  | .ok (.present _ .folder) => .error .isAFolder
  | .ok (.present name (.file _)) => .ok (d.write name (.file content))

/-- Pieces without the empty ones at the end. -/
def dropEndSlashes (pieces : List String) : List String :=
  (pieces.reverse.dropWhile (· = "")).reverse

/-- Makes a folder where nothing stands yet. Slashes at the end of its path say nothing. -/
def makeFolder (d : Disk) (path : String) : Except FileFault Disk :=
  match targetOf d path (dropEndSlashes (Path.parts path)) with
  | .error fault => .error fault
  | .ok (.free name) => .ok (d.write name .folder)
  | .ok (.present _ _) => .error .alreadyThere

/-- The names below a folder at a path, itself included, relative to it and in order. -/
def namesUnder (d : Disk) (path : String) : List (List String) :=
  match d.target path with
  | .ok (.present name .folder) =>
      [] :: d.entries.filterMap fun (k, _) =>
        if name.isPrefixOf k && name.length < k.length then some (k.drop name.length) else none
  | _ => []

end Disk

end Pagewright
