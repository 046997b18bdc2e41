import ArrayEngine.Shell.Run

/-!
# Lines in one pass

The shell reads a line as a command first, and carries the command out then. Another way to treat a
line is to go through it once: each operand is read where it is needed, handles are looked up on the
way, and the array, the memory, the views and the sites are changed as soon as all that a change
needs is known. Nothing in its form keeps such a program from changing something and then finding
that the rest of the line cannot be read.

It does not happen. Each command reads all of its operands before it changes anything, and what it
changes after that, in one step or in two, can only be stopped by the engine. So going through the
line once and reading it first come to the same.

## Main definitions

* `Program`: what works on the state of a shell and may stop with an error
* `Program.Finds`: a program that only reads
* `Program.Does`: a program that finds a command and carries it out
* `evalInOnePass`: a line, gone through once

## Main results

* `Program.Does.find`: what is read first may be read before the command is carried out
* `does_evalWords`: every command
* `perform_evalInOnePass`: every line
-/

namespace ArrayEngine.Shell

open Binary (Double)

/-! ### Programs -/

/-- What works on the state of a shell and may stop with an error. What it has changed before it
stops stays changed. -/
abbrev Program (α : Type) := ExceptT ShellError (StateM State) α

namespace Program

variable {α β : Type} {state : State}

/-- Outcome of a program, and the state that it leaves. -/
def perform (program : Program α) (state : State) : Except ShellError α × State :=
  program.run.run state

/-- Reads words. -/
def parse (outcome : Except ReadError α) : Program α := fun state => (reading outcome, state)

/-- Looks something up in the state. -/
def look (find : State → Except ShellError α) : Program α := fun state => (find state, state)

/-- Changes the state, which nothing but the engine can stop. -/
def effect (change : State → Except EngineError α × State) : Program α := fun state =>
  match change state with
  | (result, state) => (result.mapError .engine, state)

/-- Carries out a command. -/
def carryOut (command : Command) : Program String := effect (·.run command)

theorem perform_bind (program : Program α) (next : α → Program β) (state : State) :
    (program >>= next).perform state =
      match program.perform state with
      | (.ok a, after) => (next a).perform after
      | (.error e, after) => (.error e, after) := by
  simp only [perform, ExceptT.run, bind, ExceptT.bind, ExceptT.mk, StateT.run, StateT.bind,
    ExceptT.bindCont]
  cases program state with
  | mk r after => cases r <;> rfl

/-- The program only reads: it comes to the outcome, and leaves the state as it is. -/
def Finds (state : State) (program : Program α) (outcome : Except ShellError α) : Prop :=
  program.perform state = (outcome, state)

namespace Finds

theorem pure (a : α) : Finds state (Pure.pure a) (Pure.pure a) := rfl

theorem throw (e : ShellError) : Finds state (MonadExcept.throw e : Program α) (.error e) := rfl

theorem parse (outcome : Except ReadError α) : Finds state (parse outcome) (reading outcome) := rfl

theorem look (find : State → Except ShellError α) : Finds state (look find) (find state) := rfl

theorem bind {program : Program α} {outcome : Except ShellError α} {next : α → Program β}
    {next' : α → Except ShellError β} (h : Finds state program outcome)
    (hnext : ∀ a, Finds state (next a) (next' a)) :
    Finds state (program >>= next) (outcome >>= next') := by
  rw [Finds, perform_bind, show program.perform state = (outcome, state) from h]
  cases outcome with
  | ok a => exact hnext a
  | error e => rfl

end Finds

/-- The program finds a command, or an error, and carries the command out. -/
def Does (state : State) (program : Program String) (outcome : Except ShellError Command) : Prop :=
  program.perform state =
    match outcome with
    | .ok command => (carryOut command).perform state
    | .error e => (.error e, state)

namespace Does

theorem carryOut (command : Command) :
    Does state (carryOut command) (Pure.pure command) := rfl

theorem throw (e : ShellError) : Does state (MonadExcept.throw e) (.error e) := rfl

/-- What a program reads before it finds its command may as well be read before it starts. -/
theorem find {program : Program α} {outcome : Except ShellError α} {next : α → Program String}
    {next' : α → Except ShellError Command} (h : Finds state program outcome)
    (hnext : ∀ a, Does state (next a) (next' a)) :
    Does state (program >>= next) (outcome >>= next') := by
  unfold Does
  rw [perform_bind, show program.perform state = (outcome, state) from h]
  cases outcome with
  | ok a => exact hnext a
  | error e => rfl

end Does

end Program

open Program

/-! ### Commands -/

/-- Start and end of a range. -/
def evalRange (form : Form) : List Token → Program (Double × Option Double)
  | [start] => return (← parse (readNumber start), none)
  | [start, stop] => return (← parse (readNumber start), some (← parse (readNumber stop)))
  | _ => throw (.usage form)

/-- A lane of a buffer, and the words after it. -/
def evalLane (form : Form) : List Token → Program (DataView × LaneKind × Nat × List Token)
  | buffer :: kind :: position :: rest => do
    let buffer ← look (·.findBuffer buffer)
    let view ← look fun state => (DataView.ofBuffer state.memory buffer 0 none).mapError .engine
    return (view, ← parse (readLaneKind kind), ← parse (readCount position), rest)
  | _ => throw (.usage form)

/-- A splice. -/
def evalSplice (operands : List Token) : Program String := do
  let start ← parse (readNumber? operands[0]?)
  let count ← parse (readNumber? operands[1]?)
  carryOut (.splice start count (← parse (readValues (operands.drop 2))))

/-- A fill. -/
def evalFill : List Token → Program String
  | [] => throw (.usage Form.fill)
  | value :: range => do
    let value ← parse (readValue value)
    let start ← parse (readNumber? range[0]?)
    carryOut (.fill value (start.getD .zero) (← parse (readNumber? range[1]?)))

/-- Makes a view with a buffer of its own. -/
def makeView (kind : LaneKind) (length : Nat) : Program View := effect fun state =>
  match (View.zeroed kind length).perform state.memory with
  | (result, memory) => (result, { state with memory })

/-- Makes a view over a buffer. -/
def makeViewOver (kind : LaneKind) (buffer : BufferId) (offset : Nat) (length : Option Nat) :
    Program View :=
  effect fun state => (View.ofBuffer state.memory buffer kind offset length, state)

/-- Keeps a view under the next handle. -/
def keepView (view : View) : Program String := effect (·.addView view)

/-- A view, which is made first and kept then. -/
def evalView : List Token → Program String
  | [] => throw (.usage Form.view)
  | kind :: rest => do
    let kind ← parse (readLaneKind kind)
    match rest with
    | [] => throw (.usage Form.view)
    | word :: more =>
      if more.isEmpty && !State.bufferPart.isPrefixOf word then
        keepView (← makeView kind (← parse (readCount word)))
      else if more.length ≤ 2 then
        let buffer ← look (·.findBuffer word)
        let offset ← parse (readCount? more[0]?)
        let length ← parse (readCount? more[1]?)
        keepView (← makeViewOver kind buffer (offset.getD 0) length)
      else throw (.usage Form.view)

/-- A copy to a view. -/
def evalCopy : List Token → Program String
  | [view, start, source] => do
    let start ← parse (readCount start)
    let view ← look (·.findView view)
    if isList source then carryOut (.copyValues view start (← parse (readList source)))
    else carryOut (.copyView view start (← look (·.findView source)))
  | _ => throw (.usage Form.vcopy)

/-- A read of a lane of a buffer. -/
def evalGetBytes (operands : List Token) : Program String := do
  let (view, kind, position, rest) ← evalLane Form.dvget operands
  carryOut (.getBytes view kind position (← parse (readByteOrder rest)))

/-- A write of a lane of a buffer. -/
def evalSetBytes (operands : List Token) : Program String := do
  let (view, kind, position, rest) ← evalLane Form.dvset operands
  match rest with
  | [] => throw (.usage Form.dvset)
  | value :: rest =>
    let value ← parse (readValue value)
    carryOut (.setBytes view kind position value (← parse (readByteOrder rest)))

/-- Words of a line, the first of which names the command. -/
def evalWords (name : Token) (operands : List Token) : Program String :=
  match String.ofList name, operands with
  | "push", values => do carryOut (.push (← parse (readValues values)))
  | "pop", _ => carryOut .pop
  | "shift", _ => carryOut .shift
  | "unshift", values => do carryOut (.unshift (← parse (readValues values)))
  | "get", [index] => do carryOut (.get (← parse (readIndex index)))
  | "get", _ => throw (.usage Form.get)
  | "set", [index, value] => do
    carryOut (.set (← parse (readIndex index)) (← parse (readValue value)))
  | "set", _ => throw (.usage Form.set)
  | "delete", [index] => do carryOut (.delete (← parse (readIndex index)))
  | "delete", _ => throw (.usage Form.delete)
  | "length", [] => carryOut .length
  | "length", [value] => do carryOut (.assignLength (← parse (readValue value)))
  | "length", _ => throw (.usage Form.length)
  | "kind", _ => carryOut .kind
  | "show", _ => carryOut .showArray
  | "concat", operands => do
    carryOut (.concat (← look fun state => operands.mapM (readOperand state.config)))
  | "slice", range => do
    let (start, stop) ← evalRange Form.slice range
    carryOut (.slice start stop)
  | "splice", operands => evalSplice operands
  | "sort", [] => carryOut (.sort false)
  | "sort", [mode] =>
    if mode = "numeric".toList then carryOut (.sort true) else throw (.usage Form.sort)
  | "sort", _ => throw (.usage Form.sort)
  | "reverse", _ => carryOut .reverse
  | "fill", operands => evalFill operands
  | "inherit", [index, value] => do
    carryOut (.inherit (← parse (readIndex index)) (← parse (readValue value)))
  | "inherit", _ => throw (.usage Form.inherit)
  | "seal", [index] => do carryOut (.pin (← parse (readIndex index)))
  | "seal", _ => throw (.usage Form.pin)
  | "buffer", [size] => do carryOut (.newBuffer (← parse (readCount size)))
  | "buffer", _ => throw (.usage Form.buffer)
  | "view", operands => evalView operands
  | "subview", [] => throw (.usage Form.subview)
  | "subview", view :: range => do
    let view ← look (·.findView view)
    let (start, stop) ← evalRange Form.subview range
    carryOut (.subview view start stop)
  | "vget", [view, index] => do
    let index ← parse (readCount index)
    carryOut (.getLane (← look (·.findView view)) index)
  | "vget", _ => throw (.usage Form.vget)
  | "vset", [view, index, value] => do
    let index ← parse (readCount index)
    let value ← parse (readValue value)
    carryOut (.setLane (← look (·.findView view)) index value)
  | "vset", _ => throw (.usage Form.vset)
  | "vshow", [view] => do carryOut (.showView (← look (·.findView view)))
  | "vshow", _ => throw (.usage Form.vshow)
  | "vcopy", operands => evalCopy operands
  | "dvget", operands => evalGetBytes operands
  | "dvset", operands => evalSetBytes operands
  | "stats", _ => carryOut .sites
  | "help", _ => carryOut .help
  | _, _ => throw (.unknownCommand name)

/-- A line, gone through once. -/
def evalInOnePass (line : List Char) : Program String := do
  match ← parse (tokenize line) with
  | [] => return ""
  | name :: operands => evalWords name operands

/-! ### Each command -/

variable {state : State}

theorem finds_evalRange (form : Form) (operands : List Token) :
    Finds state (evalRange form operands) (readRange form operands) := by
  rcases operands with _ | ⟨start, _ | ⟨stop, _ | _⟩⟩
  · exact .throw _
  · exact .bind (.parse _) fun _ => .pure _
  · exact .bind (.parse _) fun _ => .bind (.parse _) fun _ => .pure _
  · exact .throw _

theorem finds_evalLane (form : Form) (operands : List Token) :
    Finds state (evalLane form operands) (readLane state form operands) := by
  rcases operands with _ | ⟨buffer, _ | ⟨kind, _ | ⟨position, rest⟩⟩⟩
  · exact .throw _
  · exact .throw _
  · exact .throw _
  · exact .bind (.look _) fun _ => .bind (.look _) fun _ => .bind (.parse _) fun _ =>
      .bind (.parse _) fun _ => .pure _

theorem does_evalSplice (operands : List Token) :
    Does state (evalSplice operands) (readSplice operands) :=
  .find (.parse _) fun _ => .find (.parse _) fun _ => .find (.parse _) fun _ => .carryOut _

theorem does_evalFill (operands : List Token) :
    Does state (evalFill operands) (readFill operands) := by
  cases operands with
  | nil => exact .throw _
  | cons value range =>
    exact .find (.parse _) fun _ => .find (.parse _) fun _ => .find (.parse _) fun _ => .carryOut _

/-- To make a view with a buffer and to keep it are two changes, and one command. -/
theorem does_newView (kind : LaneKind) (length : Nat) :
    Does state (makeView kind length >>= keepView) (.ok (.newView kind length)) := by
  rw [Does, perform_bind]
  simp only [makeView, keepView, carryOut, effect, perform, ExceptT.run, StateT.run, State.run]
  cases (View.zeroed kind length).perform state.memory with
  | mk result memory => cases result <;> rfl

theorem does_viewOver (kind : LaneKind) (buffer : BufferId) (offset : Nat) (length : Option Nat) :
    Does state (makeViewOver kind buffer offset length >>= keepView)
      (.ok (.viewOver kind buffer offset length)) := by
  rw [Does, perform_bind]
  simp only [makeViewOver, keepView, carryOut, effect, perform, ExceptT.run, StateT.run, State.run]
  cases View.ofBuffer state.memory buffer kind offset length <;> rfl

theorem does_evalView (operands : List Token) :
    Does state (evalView operands) (readView state operands) := by
  cases operands with
  | nil => exact .throw _
  | cons kind rest =>
    refine .find (.parse _) fun kind => ?_
    cases rest with
    | nil => exact .throw _
    | cons word more =>
      dsimp only
      split
      · exact .find (.parse _) fun length => does_newView kind length
      · split
        · exact .find (.look _) fun buffer => .find (.parse _) fun offset =>
            .find (.parse _) fun length => does_viewOver kind buffer (offset.getD 0) length
        · exact .throw _

theorem does_evalCopy (operands : List Token) :
    Does state (evalCopy operands) (readCopy state operands) := by
  rcases operands with _ | ⟨view, _ | ⟨start, _ | ⟨source, _ | _⟩⟩⟩
  · exact .throw _
  · exact .throw _
  · exact .throw _
  · refine .find (.parse _) fun start => .find (.look _) fun view => ?_
    split
    · exact .find (.parse _) fun values => .carryOut _
    · exact .find (.look _) fun source => .carryOut _
  · exact .throw _

theorem does_evalGetBytes (operands : List Token) :
    Does state (evalGetBytes operands) (readGetBytes state operands) :=
  .find (finds_evalLane _ _) fun _ => .find (.parse _) fun _ => .carryOut _

theorem does_evalSetBytes (operands : List Token) :
    Does state (evalSetBytes operands) (readSetBytes state operands) := by
  refine .find (finds_evalLane _ _) ?_
  rintro ⟨view, kind, position, rest⟩
  cases rest with
  | nil => exact .throw _
  | cons value rest => exact .find (.parse _) fun value => .find (.parse _) fun order => .carryOut _

/-- Every command reads all that it needs before it changes anything. -/
theorem does_evalWords (name : Token) (operands : List Token) :
    Does state (evalWords name operands) (readWords state name operands) := by
  unfold evalWords Shell.readWords
  generalize String.ofList name = command
  split
  -- The match of the reading is the same one, but it need not have been split along.
  all_goals try simp only
  -- Words that are read alike, up to the command that they make.
  all_goals repeat with_reducible first
    | exact .throw _
    | exact .carryOut _
    | refine .find (.parse _) fun _ => ?_
    | refine .find (.look _) fun _ => ?_
    | refine .find (finds_evalRange _ _) fun _ => ?_
  all_goals first
    | with_reducible exact does_evalSplice _
    | with_reducible exact does_evalFill _
    | with_reducible exact does_evalView _
    | with_reducible exact does_evalCopy _
    | with_reducible exact does_evalGetBytes _
    | with_reducible exact does_evalSetBytes _
    | split <;> first | exact .carryOut _ | exact .throw _

/-! ### Lines -/

theorem readLine_of_tokenize {line : List Char} {name : Token} {operands : List Token}
    (h : tokenize line = .ok (name :: operands)) :
    readLine state line = (readWords state name operands).map some := by
  rw [readLine, h]
  change (readWords state name operands >>= fun command => pure (some command)) = _
  cases readWords state name operands <;> rfl

/-- To go through a line once is to read it first and to carry it out then. -/
theorem perform_evalInOnePass (line : List Char) (state : State) :
    (evalInOnePass line).perform state = state.evalLine line := by
  rw [evalInOnePass, perform_bind]
  cases hwords : tokenize line with
  | error e =>
    rw [State.evalLine, readLine, hwords]
    rfl
  | ok words =>
    cases words with
    | nil =>
      rw [State.evalLine, readLine, hwords]
      rfl
    | cons name operands =>
      refine Eq.trans (does_evalWords name operands) ?_
      rw [State.evalLine, readLine_of_tokenize hwords]
      cases readWords state name operands <;> rfl

end ArrayEngine.Shell
