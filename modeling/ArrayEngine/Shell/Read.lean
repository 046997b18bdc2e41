import ArrayEngine.Shell.Command
import ArrayEngine.Shell.Literal
import ArrayEngine.Shell.State

/-!
# Reading commands

A line is read as a command by looking at the state of the shell, and without changing it, so that
a line that cannot be read has no effect.

Operands are read in the order in which they are written, but where lanes of views are read or
written the handle is looked up after the numbers and values. Of two faults of a line the first
in that order is reported.
-/

namespace ArrayEngine.Shell

open Binary (Double)

/-- Outcome of reading a word, as the outcome of a line. -/
def reading {α : Type} (outcome : Except ReadError α) : Except ShellError α :=
  outcome.mapError .unreadable

/-! ### Operands -/

/-- A number that may be missing. -/
def readNumber? (word : Option Token) : Except ReadError (Option Double) :=
  match word with
  | some word => (readNumber word).map some
  | none => .ok none

/-- A number of bytes or lanes that may be missing. -/
def readCount? (word : Option Token) : Except ReadError (Option Nat) :=
  match word with
  | some word => (readCount word).map some
  | none => .ok none

/-- Start and end of a range. -/
def readRange (form : Form) : List Token → Except ShellError (Double × Option Double)
  | [start] => return (← reading (readNumber start), none)
  | [start, stop] => return (← reading (readNumber start), some (← reading (readNumber stop)))
  | _ => .error (.usage form)

/-- Byte order, most significant first where none is given. -/
def readByteOrder : List Token → Except ReadError ByteOrder
  | [] => .ok .big
  | [word] =>
    if word = "le".toList then .ok .little
    else if word = "be".toList then .ok .big
    else .error .notByteOrder
  | _ => .error .notByteOrder

/-- What a word appends in a concatenation: a list its values, any other word its value. A list
must not be longer than an array can be. -/
def readOperand (config : Config) (word : Token) : Except ShellError Operand :=
  if isList word then do
    let values ← reading (readList word)
    if maxLength < values.length then throw (.engine .invalidLength)
    return .array (.ofValues config values)
  else return .value (← reading (readValue word))

/-- A lane of a buffer, named by its first three words, and the words after them. -/
def readLane (state : State) (form : Form) :
    List Token → Except ShellError (DataView × LaneKind × Nat × List Token)
  | buffer :: kind :: position :: rest => do
    let buffer ← state.findBuffer buffer
    let view ← (DataView.ofBuffer state.memory buffer 0 none).mapError .engine
    return (view, ← reading (readLaneKind kind), ← reading (readCount position), rest)
  | _ => .error (.usage form)

/-! ### Commands -/

/-- A splice: start, count and values, each of which may be missing. -/
def readSplice (operands : List Token) : Except ShellError Command := do
  let start ← reading (readNumber? operands[0]?)
  let count ← reading (readNumber? operands[1]?)
  return .splice start count (← reading (readValues (operands.drop 2)))

/-- A fill: value, start and end, the last two of which may be missing. -/
def readFill : List Token → Except ShellError Command
  | [] => .error (.usage Form.fill)
  | value :: range => do
    let value ← reading (readValue value)
    let start ← reading (readNumber? range[0]?)
    return .fill value (start.getD .zero) (← reading (readNumber? range[1]?))

/-- A view of a new buffer, or over one that has a handle. -/
def readView (state : State) : List Token → Except ShellError Command
  | [] => .error (.usage Form.view)
  | kind :: rest => do
    let kind ← reading (readLaneKind kind)
    match rest with
    | [] => throw (.usage Form.view)
    | word :: more =>
      if more.isEmpty && !State.bufferPart.isPrefixOf word then
        return .newView kind (← reading (readCount word))
      else if more.length ≤ 2 then
        let buffer ← state.findBuffer word
        let offset ← reading (readCount? more[0]?)
        return .viewOver kind buffer (offset.getD 0) (← reading (readCount? more[1]?))
      else throw (.usage Form.view)

/-- A copy to a view, of the values of a list or from another view. -/
def readCopy (state : State) : List Token → Except ShellError Command
  | [view, start, source] => do
    let start ← reading (readCount start)
    let view ← state.findView view
    if isList source then return .copyValues view start (← reading (readList source))
    else return .copyView view start (← state.findView source)
  | _ => .error (.usage Form.vcopy)

/-- A write of a lane of a buffer. -/
def readSetBytes (state : State) (operands : List Token) : Except ShellError Command := do
  let (view, kind, position, rest) ← readLane state Form.dvset operands
  match rest with
  | [] => throw (.usage Form.dvset)
  | value :: rest =>
    let value ← reading (readValue value)
    return .setBytes view kind position value (← reading (readByteOrder rest))

/-- A read of a lane of a buffer. -/
def readGetBytes (state : State) (operands : List Token) : Except ShellError Command := do
  let (view, kind, position, rest) ← readLane state Form.dvget operands
  return .getBytes view kind position (← reading (readByteOrder rest))

/-- Command of a line's words, the first of which names it. -/
def readWords (state : State) (name : Token) (operands : List Token) : Except ShellError Command :=
  match String.ofList name, operands with
  | "push", values => return .push (← reading (readValues values))
  | "pop", _ => return .pop
  | "shift", _ => return .shift
  | "unshift", values => return .unshift (← reading (readValues values))
  | "get", [index] => return .get (← reading (readIndex index))
  | "get", _ => .error (.usage Form.get)
  | "set", [index, value] =>
    return .set (← reading (readIndex index)) (← reading (readValue value))
  | "set", _ => .error (.usage Form.set)
  | "delete", [index] => return .delete (← reading (readIndex index))
  | "delete", _ => .error (.usage Form.delete)
  | "length", [] => return .length
  | "length", [value] => return .assignLength (← reading (readValue value))
  | "length", _ => .error (.usage Form.length)
  | "kind", _ => return .kind
  | "show", _ => return .showArray
  | "concat", operands => return .concat (← operands.mapM (readOperand state.config))
  | "slice", range => do
    let (start, stop) ← readRange Form.slice range
    return .slice start stop
  | "splice", operands => readSplice operands
  | "sort", [] => return .sort false
  | "sort", [mode] =>
    if mode = "numeric".toList then return .sort true else throw (.usage Form.sort)
  | "sort", _ => .error (.usage Form.sort)
  | "reverse", _ => return .reverse
  | "fill", operands => readFill operands
  | "inherit", [index, value] =>
    return .inherit (← reading (readIndex index)) (← reading (readValue value))
  | "inherit", _ => .error (.usage Form.inherit)
  | "seal", [index] => return .pin (← reading (readIndex index))
  | "seal", _ => .error (.usage Form.pin)
  | "buffer", [size] => return .newBuffer (← reading (readCount size))
  | "buffer", _ => .error (.usage Form.buffer)
  | "view", operands => readView state operands
  | "subview", [] => .error (.usage Form.subview)
  | "subview", view :: range => do
    let view ← state.findView view
    let (start, stop) ← readRange Form.subview range
    return .subview view start stop
  | "vget", [view, index] => do
    let index ← reading (readCount index)
    return .getLane (← state.findView view) index
  | "vget", _ => .error (.usage Form.vget)
  | "vset", [view, index, value] => do
    let index ← reading (readCount index)
    let value ← reading (readValue value)
    return .setLane (← state.findView view) index value
  | "vset", _ => .error (.usage Form.vset)
  | "vshow", [view] => return .showView (← state.findView view)
  | "vshow", _ => .error (.usage Form.vshow)
  | "vcopy", operands => readCopy state operands
  | "dvget", operands => readGetBytes state operands
  | "dvset", operands => readSetBytes state operands
  | "stats", _ => return .sites
  | "help", _ => return .help
  | _, _ => .error (.unknownCommand name)

/-- Command of a line, `none` for a line without words. -/
def readLine (state : State) (line : List Char) : Except ShellError (Option Command) := do
  match ← reading (tokenize line) with
  | [] => return none
  | name :: operands => return some (← readWords state name operands)

end ArrayEngine.Shell
