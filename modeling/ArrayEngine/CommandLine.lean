import ArrayEngine.Directory
import ArrayEngine.Shell.Run

/-!
# Command line

The arguments say what to carry out: the text of an option, a file, or else the lines of the
standard input, for each of which a prompt is printed. Outputs go to the standard output and
errors to the standard error output, and the exit code of a text or file says whether there were
any.

Arguments are read from left to right, and the first that cannot be read decides. An option and
its value may be two arguments or one; letters of options may be joined.

## Main definitions

* `Request`: what the arguments ask for
* `Report`: what a run prints, and its exit code
* `run`: the whole of a run, given what the files hold
-/

namespace ArrayEngine.CommandLine

open Shell (State)

/-! ### Arguments -/

/-- An option that takes a value. -/
inductive ValueOption where
  | eval
  | sparseGap
  | maxRelinks
deriving DecidableEq, Repr

/-- An option that takes none. -/
inductive Switch where
  | verbose
  | version
  | help
deriving DecidableEq, Repr

/-- What the arguments read so far say. -/
structure Settings where
  eval : Option String := none
  file : Option String := none
  verbose : Bool := false
  sparseGap : Option Nat := none
  maxRelinks : Option Nat := none
deriving DecidableEq, Repr, Inhabited

/-- What a run is to do. -/
inductive Request where
  | version
  | help
  /-- The arguments cannot be read. -/
  | refuse
  | perform (settings : Settings)
deriving DecidableEq, Repr

/-- Tuning of a run. -/
def Settings.config (settings : Settings) : Config :=
  let default : Config := {}
  { default with
    sparseGap := settings.sparseGap.getD default.sparseGap
    maxRelinks := settings.maxRelinks.getD default.maxRelinks }

/-- The option with a long name. -/
def longOption? (name : String) : Option (ValueOption ⊕ Switch) :=
  match name with
  | "eval" => some (.inl .eval)
  | "sparse-gap" => some (.inl .sparseGap)
  | "max-relinks" => some (.inl .maxRelinks)
  | "verbose" => some (.inr .verbose)
  | "version" => some (.inr .version)
  | "help" => some (.inr .help)
  | _ => none

/-- The option with a letter. -/
def shortOption? (letter : Char) : Option (ValueOption ⊕ Switch) :=
  match letter with
  | 'e' => some (.inl .eval)
  | 'v' => some (.inr .verbose)
  | 'V' => some (.inr .version)
  | 'h' => some (.inr .help)
  | _ => none

/-- A whole number of 32 bits. A minus sign may stand before a zero. -/
def number? (value : List Char) : Option Nat :=
  match value with
  | '-' :: digits => (Decimal.digitsValue? 10 digits).filter (· = 0)
  | _ => Decimal.unsigned? 10 32 value

/-- The settings with a value given to an option that has none yet. -/
def Settings.give (settings : Settings) (option : ValueOption) (value : List Char) :
    Except Request Settings :=
  match option with
  | .eval =>
    if settings.eval.isSome then .error .refuse
    else .ok { settings with eval := some (String.ofList value) }
  | .sparseGap =>
    match settings.sparseGap, number? value with
    | none, some n => .ok { settings with sparseGap := some n }
    | _, _ => .error .refuse
  | .maxRelinks =>
    match settings.maxRelinks, number? value with
    | none, some n => .ok { settings with maxRelinks := some n }
    | _, _ => .error .refuse

/-- The settings with a switch turned on that was not on yet. -/
def Settings.turn (settings : Settings) (switch : Switch) : Except Request Settings :=
  match switch with
  | .verbose => if settings.verbose then .error .refuse else .ok { settings with verbose := true }
  | .version => .error .version
  | .help => .error .help

/-- The settings with a file, unless there is one already. -/
def Settings.name (settings : Settings) (file : List Char) : Except Request Settings :=
  if settings.file.isSome || file.isEmpty then .error .refuse
  else .ok { settings with file := some (String.ofList file) }

/-- Settings after an argument, and the option whose value the next argument is. -/
abbrev Progress := Except Request (Settings × Option ValueOption)

/-- Takes a long option, which may bring its value along. -/
def takeLong (settings : Settings) (text : List Char) : Progress :=
  let name := text.takeWhile (· ≠ '=')
  let value? := (text.dropWhile (· ≠ '=')).tail?
  match longOption? (String.ofList name), value? with
  | some (.inl option), some value => return (← settings.give option value, none)
  | some (.inl option), none => return (settings, some option)
  | some (.inr switch), none => return (← settings.turn switch, none)
  | some (.inr _), some _ | none, _ => throw .refuse

/-- Takes letters of options, the last of which may bring its value along. -/
def takeShort (settings : Settings) : List Char → Progress
  | [] => return (settings, none)
  | letter :: rest =>
    match shortOption? letter, rest with
    | some (.inr switch), rest =>
      match settings.turn switch with
      | .ok settings => takeShort settings rest
      | .error request => .error request
    | some (.inl option), [] => return (settings, some option)
    | some (.inl option), '=' :: value => return (← settings.give option value, none)
    | some (.inl option), value => return (← settings.give option value, none)
    | none, _ => throw .refuse

/-- Reads arguments. `pending` is the option whose value comes next, and behind `--` every
argument is a file. -/
def readFrom (settings : Settings) (pending : Option ValueOption) (onlyFiles : Bool) :
    List (List Char) → Except Request Settings
  | [] => if pending.isSome then throw .refuse else return settings
  | argument :: rest =>
    let progress : Progress × Bool :=
      if onlyFiles then (if pending.isSome then throw .refuse else do
        return (← settings.name argument, none), true)
      else
        match argument, pending with
        | ['-', '-'], _ => (return (settings, pending), true)
        | '-' :: '-' :: long, none => (takeLong settings long, false)
        | '-' :: letter :: letters, none => (takeShort settings (letter :: letters), false)
        | '-' :: _ :: _, some _ => (throw .refuse, false)
        | value, some option => (do return (← settings.give option value, none), false)
        | file, none => (do return (← settings.name file, none), false)
    match progress with
    | (.ok (settings, pending), onlyFiles) => readFrom settings pending onlyFiles rest
    | (.error request, _) => .error request

/-- What the arguments ask for. -/
def Request.ofArgs (args : List String) : Request :=
  match readFrom {} none false (args.map String.toList) with
  | .ok settings => .perform settings
  | .error request => request

/-! ### Runs -/

/-- What a run has printed, and its exit code. -/
structure Report where
  exitCode : Nat
  output : String
  errors : String
deriving DecidableEq, Repr

namespace Report

/-- Nothing printed yet. -/
def silent : Report := ⟨0, "", ""⟩

/-- A line is printed. -/
def print (report : Report) (line : String) : Report :=
  { report with output := report.output ++ line ++ "\n" }

/-- A line is printed as an error, and the run has failed. -/
def fail (report : Report) (line : String) : Report :=
  { report with exitCode := 1, errors := report.errors ++ line ++ "\n" }

/-- The outcome of a statement is printed. -/
def printOutcome (report : Report) (outcome : Except Shell.ShellError String) : Report :=
  match outcome with
  | .ok output => if output.isEmpty then report else report.print output
  | .error e => report.fail s!"error: {e.message}"

end Report

/-- Name of the program. -/
def programName : String := "jsse-arrays"

/-- Version of the program. -/
def programVersion : String := "0.1.0"

/-- What is printed about the arguments. -/
def usageText : String :=
  "\n".intercalate [
    "Array element storage and typed views, driven from a shell",
    "",
    s!"Usage: {programName} [OPTIONS] [FILE]",
    "",
    "Arguments:",
    "  [FILE]  Script of shell commands to execute",
    "",
    "Options:",
    "  -e, --eval <EVAL>                Evaluate inline commands, separated by `;`",
    "  -v, --verbose                    Log call-site and representation transitions",
    "      --sparse-gap <SPARSE_GAP>    Largest gap a write past the end may open before the array turns into a dictionary [default: 1024]",
    "      --max-relinks <MAX_RELINKS>  Relinks a call site tolerates before it stops speculating [default: 8]",
    "  -h, --help                       Print help",
    "  -V, --version                    Print version"]

/-- Carries out a text, and prints what comes of each statement. -/
def execute (report : Report) (state : State) (source : List Char) : Report × State :=
  let (outcomes, state) := state.evalLines (Shell.statements source)
  (outcomes.foldl Report.printOutcome report, state)

/-! ### Lines of the standard input -/

/-- What is printed before the first line. -/
def banner : String :=
  s!"{programName} v{programVersion}\nType `help` for commands. Press Ctrl-D to exit.\n"

/-- What is printed before each line. -/
def prompt : String := "> "

/-- Carries out a line. Errors leave the exit code as it is. -/
def executeLine (state : State) (line : List Char) : Report × State :=
  let (report, state) := execute .silent state (Text.trim line)
  ({ report with exitCode := 0 }, state)

/-- Lines of a text. A line break ends a line, and the last line may have none. -/
def inputLines (line : List Char) : List Char → List (List Char)
  | [] => if line.isEmpty then [] else [line.reverse]
  | c :: rest =>
    if c = '\n' then line.reverse :: inputLines [] rest else inputLines (c :: line) rest

/-- Carries out all lines, with a prompt before each and one at the end. -/
def executeLines (report : Report) (state : State) : List (List Char) → Report
  | [] => { report with output := report.output ++ prompt ++ "\n" }
  | line :: rest =>
    let (printed, state) := executeLine state line
    executeLines { report with
      output := report.output ++ prompt ++ printed.output
      errors := report.errors ++ printed.errors } state rest

/-- A run on the standard input. -/
def interact (state : State) (input : String) : Report :=
  executeLines { Report.silent with output := banner } state (inputLines [] input.toList)

/-! ### The whole of a run -/

/-- A run on a file, given what it holds, or why it cannot be read. -/
def executeFile (state : State) (name : String) (contents : Except FileProblem String) : Report :=
  match contents with
  | .ok source => (execute .silent state source.toList).1
  | .error problem => Report.silent.fail s!"Error reading {name}: {problem.message}"

/-- A run with the given arguments, standard input and files. -/
def run (args : List String) (input : String) (read : String → Except FileProblem String) :
    Report :=
  match Request.ofArgs args with
  | .version => Report.silent.print s!"{programName} {programVersion}"
  | .help => Report.silent.print usageText
  | .refuse => { Report.silent with exitCode := 2 }
  | .perform settings =>
    let state := State.fresh settings.config
    match settings.eval, settings.file with
    | some source, _ => (execute .silent state source.toList).1
    | none, some name => executeFile state name (read name)
    | none, none => interact state input

end ArrayEngine.CommandLine
