import ArrayEngine.CommandLine

/-!
# The program

Reads arguments, files and lines, and prints what `CommandLine` makes of them. On the standard
input each line is answered before the next is read.
-/

namespace ArrayEngine

open CommandLine (Report Request)

/-- Why a file cannot be read. -/
def fileProblem : IO.Error → FileProblem
  | .noFileOrDirectory .. => .notFound
  | .permissionDenied .. => .denied
  | .inappropriateType _ _ "is a directory" => .isDirectory
  | .inappropriateType .. => .notDirectory
  | .invalidArgument _ _ "name too long" => .nameTooLong
  | e => .other (toString e)

/-- The text that a file holds. -/
def readText (name : String) : IO (Except FileProblem String) := do
  match ← (IO.FS.readBinFile name).toBaseIO with
  | .error e => return .error (fileProblem e)
  | .ok bytes =>
    match String.fromUTF8? bytes with
    | some contents => return .ok contents
    | none => return .error .notText

/-- Prints a report, and answers its exit code. -/
def deliver (report : Report) : IO UInt32 := do
  IO.print report.output
  IO.eprint report.errors
  (← IO.getStdout).flush
  return UInt32.ofNat report.exitCode

/-- Answers lines until there are no more. -/
partial def answerLines (input : IO.FS.Stream) (state : Shell.State) : IO Unit := do
  IO.print CommandLine.prompt
  (← IO.getStdout).flush
  let line ← input.getLine
  if line.isEmpty then IO.println ""
  else
    let (report, state) := CommandLine.executeLine state line.toList
    let _ ← deliver report
    answerLines input state

/-- A run of the program. -/
def runProgram (args : List String) : IO UInt32 := do
  match Request.ofArgs args with
  | .perform settings =>
    match settings.eval, settings.file with
    | none, none =>
      IO.print CommandLine.banner
      answerLines (← IO.getStdin) (.fresh settings.config)
      return 0
    | none, some name =>
      let contents ← readText name
      deliver (CommandLine.run args "" fun _ => contents)
    | some _, _ => deliver (CommandLine.run args "" fun _ => .ok "")
  | _ => deliver (CommandLine.run args "" fun _ => .ok "")

end ArrayEngine

/-- The program itself. -/
def main (args : List String) : IO UInt32 := ArrayEngine.runProgram args
