import Pagewright.Editor.Outline
import Pagewright.Editor.Starter
import Pagewright.Project.Arguments
import Pagewright.Project.Config
import Pagewright.Project.Disk

/-!
# Commands

What the commands of a project do, over any host that has files and two streams of text (`Host`):

* `init` makes the folder of the pages, an example page and the settings file;
* `compile` turns a page file, or all page files of a folder, into template source, in files or on
  the first stream;
* `tree` prints the outline of a page, as text or as JSON;
* `template` prints a starter, or the names of all.

A page that cannot be loaded is reported and passed over. Anything else that goes wrong ends the
command with a message on the second stream and exit code 1; a wrong command line has exit code 2.
A host that lives in memory (`Desk`) is given at the end.
-/

namespace Pagewright

/-! ## 1. Hosts -/

/-- What a command needs from the system it runs on. Names below a folder are relative to it, in
    order, and begin with the folder itself. The log shares the second stream; a record of it begins
    with the time. -/
class Host (m : Type → Type) where
  kind? : String → m (Option FileKind)
  readText : String → m (Except FileFault String)
  writeText : String → String → m (Except FileFault Unit)
  makeFolder : String → m (Except FileFault Unit)
  namesUnder : String → m (List (List String))
  print : String → m Unit
  complain : String → m Unit
  log : String → m Unit

/-- A command under way: it may end with a message. -/
abbrev Running (m : Type → Type) (α : Type) := ExceptT String m α

section Commands

variable {m : Type → Type} [Monad m] [Host m]

/-- Makes a folder, unless there is one. -/
def ensureFolder (path : String) : m (Except FileFault Unit) := do
  match ← Host.makeFolder path with
  | .ok () => pure (.ok ())
  | .error fault =>
      if (← Host.kind? path) = some .folder then pure (.ok ()) else pure (.error fault)

/-- Makes the first of some folders that lead to one another, the last one first. Those above it
    are made only where it cannot be made without them, and stay even if it cannot be made then. -/
def ensureFolders : List String → m (Except FileFault Unit)
  | [] => pure (.ok ())
  | path :: above => do
      match ← ensureFolder path with
      | .error .notFound =>
          match ← ensureFolders above with
          | .ok () => ensureFolder path
          | .error fault => pure (.error fault)
      | result => pure result

/-- Makes a folder and all folders above it that are not there. -/
def makeFolders (path : String) : m (Except FileFault Unit) := ensureFolders (Path.ancestors path)

/-- Prints a text. -/
def put (text : String) : Running m Unit := (Host.print text : m Unit)

/-- Prints a line. -/
def say (line : String) : Running m Unit := put (line ++ "\n")

/-- Prints a line on the second stream. -/
def warn (line : String) : Running m Unit := (Host.complain (line ++ "\n") : m Unit)

/-- Logs a warning. -/
def logWarning (message : String) : Running m Unit :=
  (Host.log (" WARN " ++ Text.forLog message) : m Unit)

/-- Logs a detail, where details are asked for. -/
def logDetail (verbose : Bool) (message : String) : Running m Unit :=
  if verbose then (Host.log ("DEBUG " ++ Text.forLog message) : m Unit) else pure ()

/-- Logs that a node was left out. -/
def logOmission (verbose : Bool) (left : Omission) : Running m Unit :=
  if left.diagnostic?.isSome then logWarning left.logMessage
  else logDetail verbose left.logMessage

/-- Whether something is at a path. -/
def isThere (path : String) : Running m Bool := do
  let kind ← (Host.kind? path : m (Option FileKind))
  pure kind.isSome

/-- Whether a file is at a path. -/
def isFile (path : String) : Running m Bool := do
  let kind ← (Host.kind? path : m (Option FileKind))
  pure (kind = some .file)

/-- A result of the file system; a fault ends the command. -/
def orEnd {α : Type} (r : Except FileFault α) : Running m α :=
  match r with
  | .ok x => pure x
  | .error fault => throw fault.message

/-- The wording of an error with its cause. -/
def loadMessage : LoadError → String
  | .text .malformed => "Invalid Protypo JSON: malformed JSON"
  | .text .truncated => "Invalid Protypo JSON: unexpected end of JSON"
  | .shape e => "Invalid Protypo JSON: " ++ e.message ++ ": " ++ e.message
  | .notAPage v => ((LoadError.notAPage v).message?).getD ""

/-- The settings of the project in a folder. -/
def loadConfig (cwd : String) : Running m Config := do
  let path := Path.join cwd Config.fileName
  if ← isThere path then
    let text ← orEnd (← (Host.readText path : m (Except FileFault String)))
    match Config.read text with
    | .ok c => pure c
    | .error fault => throw (fault.messageIn text)
  else pure .standard

/-! ## 2. The commands -/

/-- Sets a project up. -/
def runInit (ids : Draw) (cwd srcDir outDir : String) (force : Bool) : Running m Unit := do
  let configPath := Path.join cwd Config.fileName
  if (← isThere configPath) && !force then
    say ("⚠️ " ++ Config.fileName ++ " already exists")
    say "Use --force to overwrite"
  else
    say "📝 Initializing Protypo project..."
    let srcPath := Path.join cwd srcDir
    if !(← isThere srcPath) then
      orEnd (← (makeFolders srcPath : m (Except FileFault Unit)))
      say ("  ✓ Created " ++ srcDir ++ "/")
    let exampleFile := Path.join srcPath "example.json"
    if !(← isThere exampleFile) then
      let page : Forest := [(Starter.searchForm.instantiate ids).1]
      orEnd (← (Host.writeText exampleFile page.save : m (Except FileFault Unit)))
      say "  ✓ Created example.json"
    let config : Config := { Config.standard with srcDir := srcDir, outDir := outDir }
    orEnd (← (Host.writeText configPath config.toJson.pretty : m (Except FileFault Unit)))
    say ("  ✓ Created " ++ Config.fileName)
    say ""
    say "✅ Project initialized!"
    say ""
    say "Next steps:"
    say ("  1. Edit " ++ srcDir ++ "/example.json")
    say "  2. Run: protypo compile"
    say ("  3. Check output in " ++ outDir ++ "/")

/-- A page file: its path, and the components that lead to it from the folder of the pages. -/
structure PageFile where
  path : String
  name : List String

/-- The name of a page file, as messages show it. -/
def PageFile.shown (f : PageFile) : String := String.intercalate "/" f.name

/-- Where the source of a page goes. -/
def PageFile.outPath (f : PageFile) (outDir extension : String) : String :=
  match f.name.getLast? with
  | none => outDir
  | some last =>
      let name := f.name.dropLast ++ [Path.withExtension last extension]
      Path.join outDir (String.intercalate "/" name)

/-- The page files at a path: the file there, or all below the folder there whose extension is
    that of pages. -/
def pageFiles (path : String) : Running m (List PageFile) := do
  if ← isFile path then
    pure [⟨path, ((Path.components path).getLast?).toList⟩]
  else
    let names ← (Host.namesUnder path : m (List (List String)))
    pure (names.filterMap fun name =>
      let full := name.foldl Path.join path
      if (Path.fileName full).bind Path.extension = some "json" then some ⟨full, name⟩ else none)

/-- A page file as template source. -/
def compileFile (path : String) (o : RenderOptions) : Running m (Except String Rendered) := do
  let text ← (Host.readText path : m (Except FileFault String))
  match text with
  | .error fault => pure (.error fault.message)
  | .ok text =>
      match Forest.load text with
      | .error e => pure (.error ("invalid page tree in " ++ path ++ ": " ++ loadMessage e))
      | .ok page => pure (.ok (page.compile o))

/-- Compiles page files in turn and counts those that can be loaded and those that cannot. -/
def compileEach (verbose : Bool) (o : RenderOptions) (stdout : Bool) (outDir extension : String)
    (done failed : Nat) : List PageFile → Running m (Nat × Nat)
  | [] => pure (done, failed)
  | f :: rest => do
      match ← compileFile f.path o with
      | .error message =>
          warn ("  ✗ " ++ f.shown ++ " - " ++ message)
          compileEach verbose o stdout outDir extension done (failed + 1) rest
      | .ok r =>
          for left in r.omissions do
            logOmission verbose left
          for d in r.diagnostics do
            warn ("  ⚠ " ++ f.shown ++ " - " ++ d.message)
          if stdout then
            say r.source
          else
            let path := f.outPath outDir extension
            if let some above := Path.parent? path then
              orEnd (← (makeFolders above : m (Except FileFault Unit)))
            orEnd (← (Host.writeText path r.source : m (Except FileFault Unit)))
            say ("  ✓ " ++ f.shown ++ " → " ++ path)
          compileEach verbose o stdout outDir extension (done + 1) failed rest

/-- Compiles pages. -/
def runCompile (verbose : Bool) (cwd : String) (path : Option String) (stdout : Bool)
    (outDir : Option String) (trim : Bool) : Running m Unit := do
  let config ← loadConfig cwd
  let source :=
    match path with
    | some p => Path.join cwd p
    | none => config.srcPath cwd
  if !(← isThere source) then
    throw ("Source path does not exist: " ++ Text.quotedForMessage source)
  let options := { config.renderOptions with trim := config.trim || trim }
  if !stdout then say "🔨 Compiling Protypo pages..."
  let files ← pageFiles source
  if files.isEmpty then
    say "⚠️  No .json page files found"
  else
    logDetail verbose ("Found " ++ Nat.repr files.length ++ " page files under " ++
      Text.quotedForMessage source)
    let out :=
      match outDir with
      | some o => Path.join cwd o
      | none => config.outPath cwd
    let (done, failed) ← compileEach verbose options stdout out config.extension 0 0 files
    if !stdout then
      say ""
      if failed = 0 then
        say ("✅ Compiled " ++ Nat.repr done ++ " pages successfully")
      else
        say ("⚠️ Compiled " ++ Nat.repr done ++ " pages, " ++ Nat.repr failed ++ " errors")

mutual

/-- The lines of a row and of those below it. -/
def Outline.lines (depth : Nat) : Outline → String
  | ⟨r, os⟩ =>
      String.ofList (List.replicate (2 * depth) ' ') ++ r.title ++ " #" ++ r.id ++ "\n" ++
        Outline.listLines (depth + 1) os

/-- The lines of rows. -/
def Outline.listLines (depth : Nat) : List Outline → String
  | [] => ""
  | o :: os => o.lines depth ++ Outline.listLines depth os

end

/-- Prints the outline of a page. -/
def runTree (ids : Draw) (cwd file : String) (selected : Option String) (json : Bool) :
    Running m Unit := do
  let path := Path.join cwd file
  let text ← (Host.readText path : m (Except FileFault String))
  match text with
  | .error fault => throw ("cannot read " ++ path ++ ": " ++ fault.message)
  | .ok text =>
      match Forest.load text with
      | .error e => throw (loadMessage e)
      | .ok page =>
          let rows := Forest.outline selected (Forest.assignIds false page ids).1
          if json then say (Json.arr (Outline.toItems rows)).pretty
          else put (Outline.listLines 0 rows)

/-- Prints a starter, or the names of all. -/
def runTemplate (ids : Draw) (name : Option String) (list sequential : Bool) :
    Running m Unit := do
  if list then
    say "Starter templates:"
    for t in Starter.all do
      say ("  " ++ t.name)
  else
    let name := name.getD ""
    match Starter.ofName? name with
    | none => throw (unknownStarter name)
    | some t =>
        let block := if sequential then (t.instantiate Numbering.fresh).1 else (t.instantiate ids).1
        say (Forest.save [block])

/-- Runs a command in a folder. -/
def Command.run (verbose : Bool) (ids : Draw) (cwd : String) : Command → Running m Unit
  | .init srcDir outDir force => runInit ids cwd srcDir outDir force
  | .compile path stdout outDir trim => runCompile verbose cwd path stdout outDir trim
  | .tree file selected json => runTree ids cwd file selected json
  | .template name list sequential => runTemplate ids name list sequential

/-- How the command line is used. -/
def usage : String :=
  "Usage: protypo [-v] <init|compile|tree|template> [options]\n"

/-- Runs a command line in a folder; the result is the exit code. -/
def runWords (ids : Draw) (cwd : String) (words : List String) : m UInt32 :=
  match Invocation.ofWords words with
  | .help => do
      Host.print usage
      pure 0
  | .wrong => do
      Host.complain usage
      pure 2
  | .run c verbose => do
      match ← (Command.run verbose ids cwd c : Running m Unit).run with
      | .ok () => pure 0
      | .error message =>
          Host.complain ("\nError: " ++ message ++ "\n\n")
          pure 1

end Commands

/-! ## 3. A host in memory -/

/-- Files and folders, and what has been printed on each stream. -/
structure Desk where
  disk : Disk
  out : String
  err : String

namespace Desk

/-- The time of all log records: a desk has no clock. -/
def time : String := "0000-00-00T00:00:00Z"

/-- Changes the disk, where that can be done. -/
def change (f : Disk → Except FileFault Disk) : StateM Desk (Except FileFault Unit) := fun d =>
  match f d.disk with
  | .ok disk => (.ok (), { d with disk := disk })
  | .error fault => (.error fault, d)

instance : Host (StateM Desk) where
  kind? path := fun d => ((d.disk.entry? path).map Entry.kind, d)
  readText path := fun d => (d.disk.readText path, d)
  writeText path content := change (·.writeText path content)
  makeFolder path := change (·.makeFolder path)
  namesUnder path := fun d => (d.disk.namesUnder path, d)
  print text := fun d => ((), { d with out := d.out ++ text })
  complain text := fun d => ((), { d with err := d.err ++ text })
  log record := fun d => ((), { d with err := d.err ++ time ++ " " ++ record ++ "\n" })

end Desk

end Pagewright
