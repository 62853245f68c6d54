import Pagewright.Project.Command

/-!
# The program

The commands of a project on the files and streams of the system. Ids are drawn from a seed that
the system gives, and log records begin with the milliseconds of the system's clock. What goes wrong
with a file is a fault of the command where the command words it (`FileFault.ofError?`), and
otherwise ends the program.
-/

namespace Pagewright

/-- The code with which the system says that a file is a folder. -/
def folderCode : UInt32 := 21

/-- The code with which the system says that a name is too long. -/
def longNameCode : UInt32 := 36

/-- Whether a code is a known one. Some calls of the system give it with the sign turned. -/
def isCode (known code : UInt32) : Bool := code = known || code = 0 - known

/-- The fault that an error of the system is, where commands have a wording for it. -/
def FileFault.ofError? : IO.Error → Option FileFault
  | .noFileOrDirectory _ _ _ => some .notFound
  | .alreadyExists _ _ _ => some .alreadyThere
  | .inappropriateType _ code _ => some (if isCode folderCode code then .isAFolder else .notAFolder)
  | .invalidArgument _ code _ => if isCode longNameCode code then some .nameTooLong else none
  | _ => none

/-- An action on the file at a path, with its faults as results. -/
def faulty {α : Type} (path : String) (act : IO α) : IO (Except FileFault α) := do
  if path.toList.contains '\x00' then return .error .holdsNul
  try
    pure (.ok (← act))
  catch e =>
    match FileFault.ofError? e with
    | some fault => pure (.error fault)
    | none => throw e

/-- The names below a folder, relative to it. A folder that cannot be listed has none. -/
partial def namesBelow (path : String) : IO (List (List String)) := do
  try
    let entries ← ((← IO.currentDir) / path).readDir
    let each ← entries.toList.mapM fun e => do
      let below ← if ← e.path.isDir then namesBelow e.path.toString else pure []
      pure ([e.fileName] :: below.map (e.fileName :: ·))
    pure each.flatten
  catch _ => pure []

/-- The kind of what is at a path of the system. -/
def kindOnSystem? (path : String) : IO (Option FileKind) := do
  if path.toList.contains '\x00' then return none
  let place := (← IO.currentDir) / path
  if ← place.isDir then pure (some .folder)
  else if ← place.pathExists then pure (some .file)
  else pure none

instance : Host IO where
  kind? := kindOnSystem?
  readText path := faulty path (IO.FS.readFile path)
  writeText path content := faulty path (IO.FS.writeFile path content)
  makeFolder path := faulty path (IO.FS.createDir path)
  namesUnder path := do
    let names ← namesBelow path
    pure ([] :: names.mergeSort fun a b => !Disk.nameBefore b a)
  print text := IO.print text
  complain text := IO.eprint text
  log record := do
    IO.eprintln (Nat.repr (← IO.monoMsNow) ++ "ms " ++ record)

/-- A draw from a seed that the system gives. -/
def systemDraw : IO Draw := do
  let seed ← IO.getRandomBytes 8
  pure ⟨mkStdGen (seed.foldl (fun n b => 256 * n + b.toNat) 0)⟩

end Pagewright

/-- Runs a command line in the current folder; the result is the exit code. -/
def main (args : List String) : IO UInt32 := do
  let ids ← Pagewright.systemDraw
  Pagewright.runWords ids (← IO.currentDir).toString args
