import ArrayEngine.Bulk.Order
import ArrayEngine.Shell.Display
import ArrayEngine.Shell.Read
import ArrayEngine.Shell.Statement
import ArrayEngine.View.Copy

/-!
# Running commands

Every command yields a line of output, which may be empty, or fails. A failure is reported in
place of the output, and does not end a script. What a command changed before it failed stays
changed; a line that is not read as a command changes nothing.

## Main definitions

* `State.run`: one command
* `State.evalLine`: one line
* `State.runScript`: all statements of a text
-/

namespace ArrayEngine.Shell

/-- What the shell says about itself. -/
def helpText : String :=
  "\n".intercalate [
    "array:   push v.. | pop | shift | unshift v.. | get i | set i v | delete i",
    "         length [n] | kind | show | concat v.. | slice s [e] | splice s [n [v..]]",
    "         sort [numeric] | reverse | fill v [s [e]] | inherit i v | seal i",
    "buffers: buffer n | view KIND (bufN [offset [len]] | len) | subview vN s [e]",
    "         vget vN i | vset vN i v | vshow vN | vcopy vN offset (vM | [v..])",
    "         dvget bufN KIND offset [le] | dvset bufN KIND offset v [le]",
    "other:   stats | help",
    "values:  numbers, \"strings\", true, false, null, undefined, 12n, [v, ..]"]

namespace State

/-- Output of a command, or its failure, and the state that it leaves. -/
abbrev Outcome := Except EngineError String × State

/-- The state, with output. -/
def answer (state : State) (output : String) : Outcome := (.ok output, state)

/-- Edits the array. The output is made of the result and the array as it then is. -/
def editArray {α : Type} (state : State) (edit : Edit Store α) (output : α → Store → String) :
    Outcome :=
  match edit.perform state.array with
  | (.ok a, array) => (.ok (output a array), { state with array })
  | (.error e, array) => (.error e, { state with array })

/-- Edits the memory. There is no output. -/
def editMemory (state : State) (edit : Edit Memory Unit) : Outcome :=
  match edit.perform state.memory with
  | (.ok (), memory) => (.ok "", { state with memory })
  | (.error e, memory) => (.error e, { state with memory })

/-- Keeps a view under the next handle. -/
def addView (state : State) (view : View) : Outcome :=
  (.ok (viewName state.views.size), { state with views := state.views.push view })

/-- Removes an element, unless the host does not let it go. -/
def delete (state : State) (index : Nat) : Outcome :=
  if state.array.has index && !state.host.deletable index then state.answer "false"
  else ({ state with array := state.array.remove index } : State).answer "true"

/-- Carries out a command. -/
def run (state : State) (command : Command) : Outcome :=
  match command with
  | .push values =>
    let ((result, array), site) := state.sites.push.push state.array values state.host
    (result.map toString, { state with array, sites := { state.sites with push := site } })
  | .pop =>
    let ((result, array), site) := state.sites.pop.pop state.array state.host
    (result.map Value.display, { state with array, sites := { state.sites with pop := site } })
  | .shift => state.editArray (Store.shift state.host) fun first _ => first.display
  | .unshift values =>
    state.editArray (Store.unshift values state.host) fun length _ => toString length
  | .get index =>
    let (value, site) := state.sites.get.getIndex state.array index state.host
    (.ok (displayOrUndefined value), { state with sites := { state.sites with get := site } })
  | .set index value =>
    let ((result, array), site) := state.sites.set.setIndex state.array index value state.host
    (result.map fun _ => "", { state with array, sites := { state.sites with set := site } })
  | .delete index => state.delete index
  | .length => state.answer (toString state.array.length)
  | .assignLength value =>
    state.editArray (Store.assignLengthValue state.host value) fun _ array =>
      toString array.length
  | .kind => state.answer (displayKind state.array)
  | .showArray => state.answer (displayStore state.array)
  | .concat operands =>
    let (result, site) := state.sites.concat.concat state.array operands state.host
    (result.map displayStore, { state with sites := { state.sites with concat := site } })
  | .slice start stop => ((state.array.slice start stop state.host).map displayStore, state)
  | .splice start count values =>
    state.editArray (Store.splice start count values state.host) fun removed _ =>
      displayStore removed
  | .sort numeric =>
    let order := if numeric then Store.numericOrder else Value.compareTexts
    state.editArray (Store.sort state.host order) fun _ array => displayStore array
  | .reverse => state.editArray (Store.reverse state.host) fun _ array => displayStore array
  | .fill value start stop =>
    state.editArray (Store.fill value start stop) fun _ array => displayStore array
  | .inherit index value =>
    ({ state with host := state.host.inherit index value } : State).answer ""
  | .pin index => ({ state with host := state.host.pin index } : State).answer ""
  | .newBuffer size =>
    let (buffer, memory) := state.memory.allocZeroed size
    ({ state with memory } : State).answer (bufferName buffer)
  | .newView kind length =>
    match (View.zeroed kind length).perform state.memory with
    | (.ok view, memory) => ({ state with memory } : State).addView view
    | (.error e, memory) => (.error e, { state with memory })
  | .viewOver kind buffer offset length =>
    match View.ofBuffer state.memory buffer kind offset length with
    | .ok view => state.addView view
    | .error e => (.error e, state)
  | .subview view start stop => state.addView (view.subview start stop)
  | .getLane view index =>
    let (value, site) := state.sites.vget.getViewIndex view state.memory index
    (.ok (displayOrUndefined value), { state with sites := { state.sites with vget := site } })
  | .setLane view index value =>
    let ((result, memory), site) := state.sites.vset.setViewIndex view state.memory index value
    (result.map fun _ => "", { state with memory, sites := { state.sites with vset := site } })
  | .showView view =>
    state.answer <|
      view.kind.arrayName ++ " " ++ displayList ((view.toList state.memory).map some)
  | .copyValues view start values =>
    state.editMemory (view.copyValues start values 0 values.length)
  | .copyView view start source => state.editMemory (view.copyView start source 0 source.length)
  | .getBytes view kind position order =>
    ((view.get state.memory position kind order).map Value.display, state)
  | .setBytes view kind position value order =>
    state.editMemory (view.set position kind value order)
  | .sites =>
    state.answer ("\n".intercalate (state.sites.toList.map fun (name, site) =>
      displaySite name site))
  | .help => state.answer helpText

/-- Reads a line and carries out its command. -/
def evalLine (state : State) (line : List Char) : Except ShellError String × State :=
  match readLine state line with
  | .error e => (.error e, state)
  | .ok none => (.ok "", state)
  | .ok (some command) =>
    match state.run command with
    | (result, state) => (result.mapError .engine, state)

/-- Outcomes of lines, one after another. -/
def evalLines (state : State) : List (List Char) → List (Except ShellError String) × State
  | [] => ([], state)
  | line :: rest =>
    match state.evalLine line with
    | (outcome, state) =>
      match evalLines state rest with
      | (outcomes, state) => (outcome :: outcomes, state)

theorem evalLines_cons (state : State) (line : List Char) (rest : List (List Char)) :
    state.evalLines (line :: rest) =
      ((state.evalLine line).1 :: ((state.evalLine line).2.evalLines rest).1,
        ((state.evalLine line).2.evalLines rest).2) := rfl

/-- What a script prints for a statement. -/
def outputLine? : Except ShellError String → Option String
  | .ok output => if output.isEmpty then none else some output
  | .error e => some s!"error: {e.message}"

/-- Carries out all statements of a text, and collects what they print. -/
def runScript (state : State) (source : List Char) : List String × State :=
  match state.evalLines (statements source) with
  | (outcomes, state) => (outcomes.filterMap outputLine?, state)

end State

end ArrayEngine.Shell
