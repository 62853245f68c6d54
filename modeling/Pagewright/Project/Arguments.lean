/-!
# The command line

The words of a command line name a command and give it options and operands.

* An option has a long name and perhaps a letter. It is a flag, takes a value, or calls for help or
  the version. A value follows its option as the next word, after an equals sign, or right after the
  letter. Flags may share one dash.
* No option is given twice. A word with a dash is never the value of an option before it.
* A command takes so many operands and no more. After two dashes alone every word is an operand.
* The word `help` in place of a command calls for help with the command after it.

Words are judged from the left: the first that does not fit makes a usage error, and the first call
for help ends the reading (`Invocation.ofWords`).
-/

namespace Pagewright

/-! ## 1. Options -/

/-- What an option is for. -/
inductive OptionKind where
  | flag
  | value
  | help
  deriving DecidableEq

/-- An option of a command. -/
structure OptionSpec where
  name : String
  letter : Option Char
  kind : OptionKind

/-- What may be given: options, and how many operands. -/
structure Grammar where
  options : List OptionSpec
  operandLimit : Nat

namespace Grammar

/-- The option of a long name. -/
def ofName? (gr : Grammar) (name : String) : Option OptionSpec :=
  gr.options.find? fun s => s.name = name

/-- The option of a letter. -/
def ofLetter? (gr : Grammar) (c : Char) : Option OptionSpec :=
  gr.options.find? fun s => s.letter = some c

end Grammar

/-- What the words of a command give: its options with their values, and its operands. What came
    first stands first. -/
structure Given where
  options : List (String × String)
  operands : List String

namespace Given

/-- No word yet. -/
def none : Given := ⟨[], []⟩

/-- Whether an option was given. -/
def has (g : Given) (name : String) : Bool := (g.options.lookup name).isSome

/-- The value of an option. -/
def value? (g : Given) (name : String) : Option String := g.options.lookup name

/-- One more option, unless it was given before. -/
def addOption? (g : Given) (name value : String) : Option Given :=
  if g.has name then Option.none else some { g with options := g.options ++ [(name, value)] }

/-- One more operand, unless there are as many as may be. -/
def addOperand? (limit : Nat) (g : Given) (word : String) : Option Given :=
  if limit ≤ g.operands.length then Option.none
  else some { g with operands := g.operands ++ [word] }

/-- Many more operands, unless there are then more than may be. -/
def addOperands? (limit : Nat) (g : Given) : List String → Option Given
  | [] => some g
  | word :: words => (g.addOperand? limit word).bind fun g' => g'.addOperands? limit words

end Given

/-- What a word does to the reading of a command. -/
inductive WordEffect where
  | go (g : Given)
  | wait (g : Given) (name : String)
  | rest (g : Given)
  | help
  | wrong

/-- A reading that goes on, unless it is wrong. -/
def WordEffect.ofGiven? : Option Given → WordEffect
  | some g => .go g
  | none => .wrong

/-- The characters before the first equals sign and, where there is one, those after it. -/
def splitAtEquals : List Char → List Char × Option (List Char)
  | [] => ([], none)
  | c :: cs =>
      if c = '=' then ([], some cs)
      else
        let split := splitAtEquals cs
        (c :: split.1, split.2)

/-- A word with two dashes, without them. -/
def longOption (gr : Grammar) (g : Given) (word : List Char) : WordEffect :=
  let split := splitAtEquals word
  match gr.ofName? (String.ofList split.1) with
  | none => .wrong
  | some s =>
      match s.kind, split.2 with
      | .help, none => .help
      | .flag, none => .ofGiven? (g.addOption? s.name "")
      | .value, none => if g.has s.name then .wrong else .wait g s.name
      | .value, some value => .ofGiven? (g.addOption? s.name (String.ofList value))
      | _, some _ => .wrong

/-- The letters of a word with one dash. -/
def shortOptions (gr : Grammar) (g : Given) : List Char → WordEffect
  | [] => .go g
  | c :: cs =>
      match gr.ofLetter? c with
      | none => .wrong
      | some s =>
          match s.kind, cs with
          | .help, _ => .help
          | .value, [] => if g.has s.name then .wrong else .wait g s.name
          | .value, '=' :: value => .ofGiven? (g.addOption? s.name (String.ofList value))
          | .value, value => .ofGiven? (g.addOption? s.name (String.ofList value))
          | .flag, _ =>
              match g.addOption? s.name "" with
              | none => .wrong
              | some g' => shortOptions gr g' cs

/-- One word, where no value is waited for. -/
def readWord (gr : Grammar) (g : Given) (word : String) : WordEffect :=
  match word.toList with
  | ['-', '-'] => .rest g
  | '-' :: '-' :: name => longOption gr g name
  | ['-'] => .ofGiven? (g.addOperand? gr.operandLimit word)
  | '-' :: letters => shortOptions gr g letters
  | _ => .ofGiven? (g.addOperand? gr.operandLimit word)

/-- Whether a word has a dash before something else. -/
def hasDash (word : String) : Bool :=
  match word.toList with
  | '-' :: _ :: _ => true
  | _ => false

/-- The result of reading the words of a command. -/
inductive Reading where
  | given (g : Given)
  | help
  | wrong

/-- What was given, unless that is wrong. -/
def Reading.ofGiven? : Option Given → Reading
  | some g => .given g
  | none => .wrong

/-- Reads the words of a command; `waiting` is the option whose value comes next. -/
def readWords (gr : Grammar) (g : Given) (waiting : Option String) : List String → Reading
  | [] => if waiting.isSome then .wrong else .given g
  | word :: words =>
      match waiting with
      | some name =>
          if hasDash word then .wrong
          else
            match g.addOption? name word with
            | none => .wrong
            | some g' => readWords gr g' none words
      | none =>
          match readWord gr g word with
          | .go g' => readWords gr g' none words
          | .wait g' name => readWords gr g' (some name) words
          | .rest g' => .ofGiven? (g'.addOperands? gr.operandLimit words)
          | .help => .help
          | .wrong => .wrong

/-! ## 2. Commands -/

/-- A command with its options. -/
inductive Command where
  | init (srcDir outDir : String) (force : Bool)
  | compile (path : Option String) (stdout : Bool) (outDir : Option String) (trim : Bool)
  | tree (file : String) (selected : Option String) (json : Bool)
  | template (name : Option String) (list sequential : Bool)
  deriving DecidableEq

/-- The flag that all commands share. -/
def verboseSpec : OptionSpec := ⟨"verbose", some 'v', .flag⟩

/-- The call for help, which all commands know. -/
def helpSpec : OptionSpec := ⟨"help", some 'h', .help⟩

/-- What may stand before the name of a command. -/
def leadGrammar : Grammar := ⟨[verboseSpec, helpSpec, ⟨"version", some 'V', .help⟩], 0⟩

/-- What may follow the name of a command; nothing, where there is no such command. -/
def commandGrammar? (name : String) : Option Grammar :=
  if name = "init" then
    some ⟨[verboseSpec, helpSpec, ⟨"src-dir", some 's', .value⟩, ⟨"out-dir", some 'o', .value⟩,
      ⟨"force", some 'f', .flag⟩], 0⟩
  else if name = "compile" then
    some ⟨[verboseSpec, helpSpec, ⟨"stdout", none, .flag⟩, ⟨"out-dir", some 'o', .value⟩,
      ⟨"trim", none, .flag⟩], 1⟩
  else if name = "tree" then
    some ⟨[verboseSpec, helpSpec, ⟨"selected", some 's', .value⟩, ⟨"json", none, .flag⟩], 1⟩
  else if name = "template" then
    some ⟨[verboseSpec, helpSpec, ⟨"list", some 'l', .flag⟩, ⟨"sequential-ids", none, .flag⟩], 1⟩
  else none

/-- The command that a name and what was given make; nothing, where an operand is missing. -/
def command? (name : String) (g : Given) : Option Command :=
  let operand := g.operands.head?
  if name = "init" then
    some (.init ((g.value? "src-dir").getD "src") ((g.value? "out-dir").getD "dist")
      (g.has "force"))
  else if name = "compile" then
    some (.compile operand (g.has "stdout") (g.value? "out-dir") (g.has "trim"))
  else if name = "tree" then
    operand.map fun file => .tree file (g.value? "selected") (g.has "json")
  else if operand.isSome || g.has "list" then
    some (.template operand (g.has "list") (g.has "sequential-ids"))
  else none

/-! ## 3. The whole line -/

/-- What a command line asks for. -/
inductive Invocation where
  | run (c : Command) (verbose : Bool)
  | help
  | wrong

namespace Invocation

/-- Reads the words after the name of a command. It may be `verbose` by a word before or after its
    name. -/
def ofCommand (verbose : Bool) (name : String) (words : List String) : Invocation :=
  match commandGrammar? name with
  | none => .wrong
  | some gr =>
      match readWords gr .none none words with
      | .help => .help
      | .wrong => .wrong
      | .given g =>
          match command? name g with
          | some c => .run c (verbose || g.has "verbose")
          | none => .wrong

/-- Reads the words after `help`: the name of one command, or none. -/
def ofHelp : List String → Invocation
  | [] => .help
  | [name] => if name = "help" || (commandGrammar? name).isSome then .help else .wrong
  | _ => .wrong

/-- Reads a command line, given what has come already. -/
def ofWordsFrom (g : Given) : List String → Invocation
  | [] => .wrong
  | word :: words =>
      if hasDash word then
        match readWord leadGrammar g word with
        | .go g' => ofWordsFrom g' words
        | .help => .help
        | _ => .wrong
      else if word = "help" then ofHelp words
      else ofCommand (g.has "verbose") word words

/-- Reads a command line. -/
def ofWords (words : List String) : Invocation := ofWordsFrom .none words

end Invocation

end Pagewright
