import ArrayEngine.Proofs.CallSite
import ArrayEngine.Proofs.Shell.Reading
import ArrayEngine.Proofs.View.Within
import ArrayEngine.Shell.Run

/-!
# The tables of buffers and views

A handle is a place in a table. The table of views holds views. The table of buffers holds buffers
themselves, and an entry is the buffer that it is, wherever it stands. A view that is made is asked
for its buffer, and a buffer that is not in the table yet is put there, so that a view with a buffer
of its own makes an entry in the other table too.

A shell gets by without a table of buffers, since a memory numbers its buffers as they are made.
`TableShell` is a shell that keeps the table, looks buffers up there, and is found to do the same.

What a command leaves is said once, in `State.Leaves`. What the tables keep follows from it, for
every line, whether it fails or not.

## Main definitions

* `TableShell`: a shell with a table of buffers
* `Command.Known`: commands whose handles have been found
* `State.Leaves`: what a command does to the tables and to the sizes of buffers
* `State.Grows`, `State.Sound`: the tables at a later time, and what holds of their entries

## Main results

* `State.leaves_run`: one command
* `State.grows_evalLines`, `State.Sound.evalLines`: any number of lines
* `TableShell.evalLine_ofState`: the table of buffers is the numbering of the memory

## Implementation notes

A part of a view over a buffer of more than `2 ^ 53` bytes need not lie in the buffer, so soundness
speaks of the other buffers only.
-/

namespace ArrayEngine.Shell

/-- A shell with a table of its buffers. -/
structure TableShell where
  state : State
  buffers : Array BufferId

namespace TableShell

/-- A shell with empty tables. -/
def fresh (config : Config) : TableShell := ⟨.fresh config, #[]⟩

/-! ### Reading -/

/-- Buffer of a handle, by the table. -/
def findBuffer (shell : TableShell) (word : Token) : Except ShellError BufferId :=
  match (State.handleNumber? State.bufferPart word).bind (shell.buffers[·]?) with
  | some buffer => .ok buffer
  | none => .error (.unknownHandle .buffer word)

/-- A lane of a buffer, named by its first three words, and the words after them. -/
def readLane (shell : TableShell) (form : Form) :
    List Token → Except ShellError (DataView × LaneKind × Nat × List Token)
  | buffer :: kind :: position :: rest => do
    let buffer ← shell.findBuffer buffer
    let view ← (DataView.ofBuffer shell.state.memory buffer 0 none).mapError .engine
    return (view, ← reading (readLaneKind kind), ← reading (readCount position), rest)
  | _ => .error (.usage form)

/-- A view of a new buffer, or over one in the table. -/
def readView (shell : TableShell) : List Token → Except ShellError Command
  | [] => .error (.usage Form.view)
  | kind :: rest => do
    let kind ← reading (readLaneKind kind)
    match rest with
    | [] => throw (.usage Form.view)
    | word :: more =>
      if more.isEmpty && !State.bufferPart.isPrefixOf word then
        return .newView kind (← reading (readCount word))
      else if more.length ≤ 2 then
        let buffer ← shell.findBuffer word
        let offset ← reading (readCount? more[0]?)
        return .viewOver kind buffer (offset.getD 0) (← reading (readCount? more[1]?))
      else throw (.usage Form.view)

/-- A write of a lane of a buffer. -/
def readSetBytes (shell : TableShell) (operands : List Token) : Except ShellError Command := do
  let (view, kind, position, rest) ← shell.readLane Form.dvset operands
  match rest with
  | [] => throw (.usage Form.dvset)
  | value :: rest =>
    let value ← reading (readValue value)
    return .setBytes view kind position value (← reading (readByteOrder rest))

/-- A read of a lane of a buffer. -/
def readGetBytes (shell : TableShell) (operands : List Token) : Except ShellError Command := do
  let (view, kind, position, rest) ← shell.readLane Form.dvget operands
  return .getBytes view kind position (← reading (readByteOrder rest))

/-- Command of a line's words. Only three commands take a buffer. -/
def readWords (shell : TableShell) (name : Token) (operands : List Token) :
    Except ShellError Command :=
  match String.ofList name with
  | "view" => shell.readView operands
  | "dvget" => shell.readGetBytes operands
  | "dvset" => shell.readSetBytes operands
  | _ => Shell.readWords shell.state name operands

/-- Command of a line, `none` for a line without words. -/
def readLine (shell : TableShell) (line : List Char) : Except ShellError (Option Command) := do
  match ← reading (tokenize line) with
  | [] => return none
  | name :: operands => return some (← shell.readWords name operands)

/-! ### Running -/

/-- Output of a command, or its failure, and the shell that it leaves. -/
abbrev Outcome := Except EngineError String × TableShell

/-- Keeps a view, and its buffer if that is not in the table. -/
def keepView (shell : TableShell) (view : View) : Outcome :=
  let buffers :=
    if view.buffer ∈ shell.buffers then shell.buffers else shell.buffers.push view.buffer
  let views := shell.state.views.push view
  (.ok (State.viewName (views.size - 1)), ⟨{ shell.state with views }, buffers⟩)

/-- Carries out a command that adds nothing to the table of buffers. -/
def delegate (shell : TableShell) (command : Command) : Outcome :=
  match shell.state.run command with
  | (result, state) => (result, { shell with state })

/-- Carries out a command. -/
def run (shell : TableShell) (command : Command) : Outcome :=
  match command with
  | .newBuffer size =>
    let (buffer, memory) := shell.state.memory.allocZeroed size
    let buffers := shell.buffers.push buffer
    (.ok (State.bufferName (buffers.size - 1)), ⟨{ shell.state with memory }, buffers⟩)
  | .newView kind length =>
    match (View.zeroed kind length).perform shell.state.memory with
    | (.ok view, memory) => ({ shell with state := { shell.state with memory } }).keepView view
    | (.error e, memory) => (.error e, { shell with state := { shell.state with memory } })
  | .viewOver kind buffer offset length =>
    match View.ofBuffer shell.state.memory buffer kind offset length with
    | .ok view => shell.keepView view
    | .error e => (.error e, shell)
  | command => shell.delegate command

/-- Reads a line and carries out its command. -/
def evalLine (shell : TableShell) (line : List Char) : Except ShellError String × TableShell :=
  match shell.readLine line with
  | .error e => (.error e, shell)
  | .ok none => (.ok "", shell)
  | .ok (some command) =>
    match shell.run command with
    | (result, shell) => (result.mapError .engine, shell)

/-- The shell in which every buffer is in the table, in the order in which they were made. -/
def ofState (state : State) : TableShell := ⟨state, .range state.memory.buffers.size⟩

end TableShell

/-! ### What is read -/

/-- The buffer that a view is made over and the view that a part is made of are in the tables. -/
def Command.Known (state : State) : Command → Prop
  | viewOver _ buffer _ _ => buffer < state.memory.buffers.size
  | subview view _ _ => view ∈ state.views
  | _ => True

/-- What a command that succeeds puts in a table. -/
def Command.creates : Command → Option HandleKind
  | newBuffer _ => some .buffer
  | newView _ _ | viewOver _ _ _ _ | subview _ _ _ => some .view
  | _ => none

/-- What the command of a name puts in a table. -/
def createdBy : String → Option HandleKind
  | "buffer" => some .buffer
  | "view" | "subview" => some .view
  | _ => none

namespace State

variable {state : State}

/-- If a command is read, its handles are known, and what it makes is told by its name. -/
abbrev ReadsKnown (state : State) (made : Option HandleKind) (outcome : Except ShellError Command) :
    Prop :=
  Reads (fun command _ => command.Known state ∧ command.creates = made) outcome outcome

theorem findBuffer_lt {word : Token} {buffer : BufferId} (h : state.findBuffer word = .ok buffer) :
    buffer < state.memory.buffers.size := by
  rw [findBuffer] at h
  split at h
  · rename_i n hn
    obtain rfl : n = buffer := Except.ok.inj h
    exact of_decide_eq_true (Option.filter_eq_some_iff.mp hn).2
  · cases h

theorem mem_of_findView {word : Token} {view : View} (h : state.findView word = .ok view) :
    view ∈ state.views := by
  rw [findView] at h
  split at h
  · rename_i found hfound
    obtain rfl : found = view := Except.ok.inj h
    obtain ⟨n, -, hn⟩ := Option.bind_eq_some_iff.mp hfound
    exact Array.mem_of_getElem? hn
  · cases h

theorem readsKnown_readSplice (operands : List Token) :
    state.ReadsKnown none (readSplice operands) :=
  .step _ fun _ _ => .step _ fun _ _ => .step _ fun _ _ => .ok ⟨trivial, rfl⟩

theorem readsKnown_readFill (operands : List Token) :
    state.ReadsKnown none (readFill operands) := by
  cases operands with
  | nil => exact .error _
  | cons value range =>
    exact .step _ fun _ _ => .step _ fun _ _ => .step _ fun _ _ => .ok ⟨trivial, rfl⟩

theorem readsKnown_readView (operands : List Token) :
    state.ReadsKnown (some .view) (readView state operands) := by
  cases operands with
  | nil => exact .error _
  | cons kind rest =>
    refine .step _ fun kind _ => ?_
    cases rest with
    | nil => exact .error _
    | cons word more =>
      dsimp only
      split
      · exact .step _ fun length _ => .ok ⟨trivial, rfl⟩
      · split
        · exact .step _ fun buffer hbuffer => .step _ fun offset _ => .step _ fun length _ =>
            .ok ⟨findBuffer_lt hbuffer, rfl⟩
        · exact .error _

theorem readsKnown_readCopy (operands : List Token) :
    state.ReadsKnown none (readCopy state operands) := by
  unfold readCopy
  split
  · refine .step _ fun start _ => .step _ fun view _ => ?_
    split
    · exact .step _ fun values _ => .ok ⟨trivial, rfl⟩
    · exact .step _ fun source _ => .ok ⟨trivial, rfl⟩
  · exact .error _

theorem readsKnown_readGetBytes (operands : List Token) :
    state.ReadsKnown none (readGetBytes state operands) :=
  .step _ fun _ _ => .step _ fun _ _ => .ok ⟨trivial, rfl⟩

theorem readsKnown_readSetBytes (operands : List Token) :
    state.ReadsKnown none (readSetBytes state operands) := by
  refine .step _ ?_
  rintro ⟨view, kind, position, rest⟩ -
  cases rest with
  | nil => exact .error _
  | cons value rest => exact .step _ fun value _ => .step _ fun order _ => .ok ⟨trivial, rfl⟩

/-- Every command is read with its handles found, and is what its name says. -/
theorem readsKnown_readWords (name : Token) (operands : List Token) :
    state.ReadsKnown (createdBy (String.ofList name)) (readWords state name operands) := by
  have hcreated (made : Option HandleKind) (hmade : createdBy (String.ofList name) = made)
      {outcome : Except ShellError Command} (h : state.ReadsKnown made outcome) :
      state.ReadsKnown (createdBy (String.ofList name)) outcome := hmade ▸ h
  unfold Shell.readWords
  split
  -- What the name says is settled first, since the operands do not matter for it.
  all_goals first
    | exact .error _
    | (refine hcreated none ?_ ?_; · exact congrArg createdBy ‹_›)
    | (refine hcreated (some .view) ?_ ?_; · exact congrArg createdBy ‹_›)
    | (refine hcreated (some .buffer) ?_ ?_; · exact congrArg createdBy ‹_›)
  -- Words that are read one after another, up to the command that they make.
  all_goals repeat with_reducible first
    | exact .error _
    | refine .pure ?_
    | refine .step _ fun _ _ => ?_
  all_goals first
    | exact ⟨trivial, rfl⟩
    | exact ⟨mem_of_findView ‹_›, rfl⟩
    | with_reducible exact readsKnown_readView _
    | with_reducible exact readsKnown_readCopy _
    | with_reducible exact readsKnown_readGetBytes _
    | with_reducible exact readsKnown_readSetBytes _
    | with_reducible exact readsKnown_readSplice _
    | with_reducible exact readsKnown_readFill _
    | split <;> first | exact .error _ | exact .ok ⟨trivial, rfl⟩

/-- The handles of a line's command have been found, and its name tells what it makes. -/
theorem known_of_readLine {line : List Char} {command : Command}
    (h : readLine state line = .ok (some command)) :
    command.Known state ∧ command.creates = (commandName? line).bind createdBy := by
  have hreads : Reads (fun command _ => ∀ c ∈ command, c.Known state ∧
      c.creates = (commandName? line).bind createdBy) (readLine state line)
      (readLine state line) := by
    refine .step _ fun words hwords => ?_
    cases words with
    | nil => exact .ok (by simp)
    | cons name operands =>
      refine (readsKnown_readWords name operands).bind fun c _ hc => .ok ?_
      rintro _ ⟨⟩
      rwa [commandName?, eq_ok_of_reading hwords]
  rw [h] at hreads
  cases hreads with
  | ok hknown => exact hknown command rfl

/-! ### What a command does -/

/-- What a command leaves, and what it answers where it makes an entry of a table. -/
inductive Leaves (state : State) : Command → Except EngineError String → State → Prop
  /-- Both tables and all sizes stay. A command that would make an entry has failed. -/
  | same {command : Command} {result : Except EngineError String} {after : State}
      (hviews : after.views = state.views)
      (hsize : after.memory.buffers.size = state.memory.buffers.size)
      (hsizes : after.memory.byteLength = state.memory.byteLength)
      (hcommand : ∀ output, result = .ok output → command.creates = none) :
      Leaves state command result after
  | buffer (size : Nat) :
      Leaves state (.newBuffer size) (.ok (bufferName state.memory.buffers.size))
        { state with memory := (state.memory.allocZeroed size).2 }
  /-- A view with a buffer of its own makes two entries. -/
  | ownView (kind : LaneKind) (length : Nat) :
      Leaves state (.newView kind length) (.ok (viewName state.views.size))
        { state with
          memory := (state.memory.allocZeroed (length * kind.size)).2
          views := state.views.push ⟨state.memory.buffers.size, kind, 0, length⟩ }
  | viewOver {kind : LaneKind} {buffer : BufferId} {offset : Nat} {length : Option Nat}
      {view : View} (hview : View.ofBuffer state.memory buffer kind offset length = .ok view) :
      Leaves state (.viewOver kind buffer offset length) (.ok (viewName state.views.size))
        { state with views := state.views.push view }
  | subview (view : View) (start : Binary.Double) (stop : Option Binary.Double) :
      Leaves state (.subview view start stop) (.ok (viewName state.views.size))
        { state with views := state.views.push (view.subview start stop) }

/-- An edit of the array touches no table. -/
theorem leaves_editArray {α : Type} {command : Command} (hcommand : command.creates = none)
    (edit : Edit Store α) (output : α → Store → String) :
    state.Leaves command (state.editArray edit output).1 (state.editArray edit output).2 := by
  rw [editArray]
  split <;> exact .same rfl rfl rfl fun _ _ => hcommand

/-- Changes of the bytes of one buffer keep the number and the sizes of all. -/
theorem unbroken_sizes (buffer : BufferId) (n : Nat) (sizes : BufferId → Nat) :
    Memory.Unbroken buffer fun memory => memory.buffers.size = n ∧ memory.byteLength = sizes :=
  fun _ _ hf h => ⟨Array.size_modify.trans h.1, (Memory.byteLength_modify hf).trans h.2⟩

/-- What keeps sizes touches no table. -/
theorem leaves_editMemory {command : Command} (hcommand : command.creates = none)
    {edit : Edit Memory Unit}
    (hedit : ∀ n sizes, Edit.Keeps (fun memory => memory.buffers.size = n ∧
      memory.byteLength = sizes) edit) :
    state.Leaves command (state.editMemory edit).1 (state.editMemory edit).2 := by
  have hkeeps := hedit _ _ state.memory ⟨rfl, rfl⟩
  rw [editMemory]
  split
  all_goals
    rename_i heq
    rw [heq] at hkeeps
    exact .same rfl hkeeps.1 hkeeps.2 fun _ _ => hcommand

/-- A buffer that is too large is not made. -/
theorem perform_zeroed (kind : LaneKind) (length : Nat) (memory : Memory) :
    (View.zeroed kind length).perform memory =
      if maxAllocation < length * kind.size then (.error (.viewTooLong length), memory)
      else (.ok ⟨memory.buffers.size, kind, 0, length⟩,
        (memory.allocZeroed (length * kind.size)).2) := rfl

/-- What each command does. -/
theorem leaves_run (state : State) (command : Command) :
    state.Leaves command (state.run command).1 (state.run command).2 := by
  cases command with
  | newBuffer size => exact .buffer size
  | newView kind length =>
    rw [run, perform_zeroed]
    by_cases hlarge : maxAllocation < length * kind.size
    · rw [if_pos hlarge]
      exact .same rfl rfl rfl nofun
    · rw [if_neg hlarge]
      exact .ownView kind length
  | viewOver kind buffer offset length =>
    rw [run]
    cases hview : View.ofBuffer state.memory buffer kind offset length with
    | ok view => exact .viewOver hview
    | error e => exact .same rfl rfl rfl nofun
  | subview view start stop => exact .subview view start stop
  | setLane view index value =>
    have hset := state.sites.vset.setViewIndex_eq view state.memory index value
    have hkeeps : Edit.Keeps (fun memory => memory.buffers.size = state.memory.buffers.size ∧
        memory.byteLength = state.memory.byteLength) (view.set index value) :=
      View.keeps_set (unbroken_sizes _ _ _) index value
    have hafter := hkeeps state.memory ⟨rfl, rfl⟩
    rw [← hset] at hafter
    exact .same rfl hafter.1 hafter.2 fun _ _ => rfl
  | copyValues view start values =>
    exact leaves_editMemory rfl fun n sizes =>
      View.keeps_copyValues (unbroken_sizes _ n sizes) _ _ _ _
  | copyView view start source =>
    exact leaves_editMemory rfl fun n sizes =>
      View.keeps_copyView (unbroken_sizes _ n sizes) _ _ _ _
  | setBytes view kind position value order =>
    exact leaves_editMemory rfl fun n sizes =>
      DataView.keeps_set (unbroken_sizes _ n sizes) _ _ _ _
  | shift | unshift | assignLength | splice | sort | reverse | fill =>
    exact leaves_editArray rfl _ _
  | delete index =>
    rw [run, delete]
    split <;> exact .same rfl rfl rfl fun _ _ => rfl
  | _ => exact .same rfl rfl rfl fun _ _ => rfl

theorem Leaves.size_eq {command : Command} {result : Except EngineError String} {after : State}
    (h : state.Leaves command result after) (hcommand : command.creates = none) :
    after.memory.buffers.size = state.memory.buffers.size := by
  cases h with
  | same _ hsize => exact hsize
  | _ => cases hcommand

/-! ### Tables at a later time -/

/-- Entries of the tables keep their places and stay what they are, and buffers keep their sizes. -/
structure Grows (state later : State) : Prop where
  views : state.views.toList <+: later.views.toList
  size_le : state.memory.buffers.size ≤ later.memory.buffers.size
  sizes : state.memory.Later later.memory

namespace Grows

theorem refl (state : State) : state.Grows state := ⟨List.prefix_rfl, Nat.le_refl _, fun _ _ => rfl⟩

theorem trans {later latest : State} (h : state.Grows later) (h' : later.Grows latest) :
    state.Grows latest where
  views := h.views.trans h'.views
  size_le := h.size_le.trans h'.size_le
  sizes buffer hbuffer :=
    (h'.sizes buffer (hbuffer.trans_le h.size_le)).trans (h.sizes buffer hbuffer)

/-- A view that has been kept stands in the same place. -/
theorem getElem?_views {later : State} (h : state.Grows later) {n : Nat} {view : View}
    (hview : state.views[n]? = some view) : later.views[n]? = some view := by
  obtain ⟨hlt, rfl⟩ := Array.getElem?_eq_some_iff.mp hview
  rw [← Array.getElem?_toList]
  exact List.prefix_iff_getElem?.mp h.views n hlt

end Grows

theorem Leaves.grows {command : Command} {result : Except EngineError String} {after : State}
    (h : state.Leaves command result after) : state.Grows after := by
  cases h with
  | same hviews hsize hsizes =>
    exact ⟨hviews ▸ List.prefix_rfl, hsize.ge, Memory.later_of_eq hsizes⟩
  | buffer size =>
    exact ⟨List.prefix_rfl, by simp [Memory.allocZeroed, Memory.alloc], Memory.later_alloc _⟩
  | ownView kind length =>
    exact ⟨by simp, by simp [Memory.allocZeroed, Memory.alloc], Memory.later_alloc _⟩
  | viewOver hview => exact ⟨by simp, Nat.le_refl _, fun _ _ => rfl⟩
  | subview view start stop => exact ⟨by simp, Nat.le_refl _, fun _ _ => rfl⟩

/-- Every view has a buffer, and lies in it if that has no more bytes than a double can count. -/
structure Sound (state : State) : Prop where
  buffer_lt : ∀ view ∈ state.views, view.buffer < state.memory.buffers.size
  within : ∀ view ∈ state.views, state.memory.byteLength view.buffer ≤ 2 ^ 53 →
    view.Within state.memory

theorem sound_fresh (config : Config) : (fresh config).Sound :=
  ⟨by simp [fresh], by simp [fresh]⟩

/-- What was sound stays so as the tables grow, if the new views are. -/
theorem Sound.of_grows (h : state.Sound) {after : State} (hgrows : state.Grows after)
    (hnew : ∀ view ∈ after.views, view ∉ state.views →
      view.buffer < after.memory.buffers.size ∧
        (after.memory.byteLength view.buffer ≤ 2 ^ 53 → view.Within after.memory)) :
    after.Sound := by
  have hold : ∀ view ∈ state.views, view.buffer < after.memory.buffers.size ∧
      (after.memory.byteLength view.buffer ≤ 2 ^ 53 → view.Within after.memory) := by
    intro view hview
    have hlt := h.buffer_lt view hview
    refine ⟨hlt.trans_le hgrows.size_le, fun hsize => ?_⟩
    rw [hgrows.sizes _ hlt] at hsize
    exact (h.within view hview hsize).later hgrows.sizes
  constructor
  all_goals
    intro view hview
    by_cases hmem : view ∈ state.views
  · exact (hold view hmem).1
  · exact (hnew view hview hmem).1
  · exact (hold view hmem).2
  · exact (hnew view hview hmem).2

theorem Leaves.sound {command : Command} {result : Except EngineError String} {after : State}
    (h : state.Leaves command result after) (hstate : state.Sound) (hknown : command.Known state) :
    after.Sound := by
  refine hstate.of_grows h.grows fun view hview hnew => ?_
  cases h with
  | same hviews => exact absurd (hviews ▸ hview) hnew
  | buffer size => exact absurd hview hnew
  | ownView kind length =>
    obtain rfl := (Array.mem_push.mp hview).resolve_left hnew
    refine ⟨by simp [Memory.allocZeroed, Memory.alloc], fun _ => ⟨Nat.zero_mod _, ?_⟩⟩
    simp [Memory.allocZeroed, Memory.alloc, Memory.byteLength, Memory.bytes]
  | viewOver hmade =>
    obtain rfl := (Array.mem_push.mp hview).resolve_left hnew
    have hwithin := View.within_of_ofBuffer hmade
    obtain ⟨-, rfl⟩ := View.ofBuffer_eq_ok_iff.mp hmade
    exact ⟨hknown, fun _ => hwithin⟩
  | subview whole start stop =>
    obtain rfl := (Array.mem_push.mp hview).resolve_left hnew
    have hwhole : whole ∈ state.views := hknown
    exact ⟨hstate.buffer_lt whole hwhole,
      fun hsize => (hstate.within whole hwhole hsize).subview hsize start stop⟩

/-! ### Lines -/

/-- A line has no effect or carries out a command, in the state that it was read in. -/
theorem evalLine_cases (state : State) (line : List Char) :
    (∃ e, state.evalLine line = (.error e, state)) ∨
      (commandName? line = none ∧ state.evalLine line = (.ok "", state)) ∨
      ∃ command, readLine state line = .ok (some command) ∧
        state.evalLine line = ((state.run command).1.mapError .engine, (state.run command).2) := by
  rw [evalLine]
  cases hread : readLine state line with
  | error e => exact .inl ⟨e, rfl⟩
  | ok read =>
    cases read with
    | some command => exact .inr (.inr ⟨command, rfl, rfl⟩)
    | none =>
      refine .inr (.inl ⟨?_, rfl⟩)
      rw [readLine] at hread
      rw [commandName?]
      cases hwords : tokenize line with
      | error e => rfl
      | ok words =>
        cases words with
        | nil => rfl
        | cons name operands =>
          rw [hwords] at hread
          change (readWords state name operands >>= fun command => pure (some command)) = _ at hread
          cases hcommand : readWords state name operands <;> rw [hcommand] at hread <;> cases hread

theorem grows_evalLine (state : State) (line : List Char) :
    state.Grows (state.evalLine line).2 := by
  rcases state.evalLine_cases line with ⟨_, heval⟩ | ⟨-, heval⟩ | ⟨command, -, heval⟩
  · rw [heval]
    exact .refl state
  · rw [heval]
    exact .refl state
  · rw [heval]
    exact (state.leaves_run command).grows

theorem Sound.evalLine (h : state.Sound) (line : List Char) : (state.evalLine line).2.Sound := by
  rcases state.evalLine_cases line with ⟨_, heval⟩ | ⟨-, heval⟩ | ⟨command, hread, heval⟩
  · rwa [heval]
  · rwa [heval]
  · rw [heval]
    exact (state.leaves_run command).sound h (known_of_readLine hread).1

theorem grows_evalLines (state : State) (lines : List (List Char)) :
    state.Grows (state.evalLines lines).2 := by
  induction lines generalizing state with
  | nil => exact .refl state
  | cons line rest ih => exact (state.grows_evalLine line).trans (ih _)

theorem Sound.evalLines (h : state.Sound) (lines : List (List Char)) :
    (state.evalLines lines).2.Sound := by
  induction lines generalizing state with
  | nil => exact h
  | cons line rest ih => exact ih (h.evalLine line)

/-- The name of a line tells what it has made if it does not fail. -/
theorem exists_leaves_of_evalLine {line : List Char} {name output : String} {after : State}
    (hname : commandName? line = some name) (h : state.evalLine line = (.ok output, after)) :
    ∃ command, command.creates = createdBy name ∧ state.Leaves command (.ok output) after := by
  rcases state.evalLine_cases line with ⟨e, heval⟩ | ⟨hnone, -⟩ | ⟨command, hread, heval⟩
  · rw [heval] at h
    cases h
  · rw [hnone] at hname
    cases hname
  · have hleaves := state.leaves_run command
    have hcreates := (known_of_readLine hread).2
    rw [hname] at hcreates
    rw [heval] at h
    obtain ⟨houtput, rfl⟩ := Prod.mk.inj h
    cases hresult : (state.run command).1 with
    | error e =>
      rw [hresult] at houtput
      cases houtput
    | ok text =>
      rw [hresult] at houtput hleaves
      obtain rfl := Except.ok.inj houtput
      exact ⟨command, hcreates, hleaves⟩

/-- A line that makes a buffer adds it to the table, and prints its place. -/
theorem evalLine_buffer {line : List Char} {output : String} {after : State}
    (hname : commandName? line = some "buffer") (h : state.evalLine line = (.ok output, after)) :
    output = bufferName state.memory.buffers.size ∧
      after.memory.buffers.size = state.memory.buffers.size + 1 := by
  obtain ⟨command, hcreates, hleaves⟩ := exists_leaves_of_evalLine hname h
  cases hleaves with
  | same _ _ _ hcommand => cases (hcommand _ rfl).symm.trans hcreates
  | buffer size => exact ⟨rfl, Array.size_push _⟩
  | _ => cases hcreates

/-- A line that makes a view adds it to the table, and prints its place. -/
theorem evalLine_view {line : List Char} {name output : String} {after : State}
    (hname : commandName? line = some name) (hview : createdBy name = some .view)
    (h : state.evalLine line = (.ok output, after)) :
    output = viewName state.views.size ∧ ∃ view, after.views = state.views.push view := by
  obtain ⟨command, hcreates, hleaves⟩ := exists_leaves_of_evalLine hname h
  rw [hview] at hcreates
  cases hleaves with
  | same _ _ _ hcommand => cases (hcommand _ rfl).symm.trans hcreates
  | buffer size => cases hcreates
  | _ => exact ⟨rfl, _, rfl⟩

end State

/-! ### The table of buffers -/

namespace TableShell

open State (bufferPart handleNumber?)

variable {state : State}

theorem findBuffer_ofState (word : Token) :
    (ofState state).findBuffer word = state.findBuffer word := by
  rw [findBuffer, State.findBuffer, ofState]
  cases handleNumber? bufferPart word with
  | none => rfl
  | some n =>
    rcases Nat.lt_or_ge n state.memory.buffers.size with hlt | hge
    · simp [hlt, Option.filter]
    · simp [Nat.not_lt.mpr hge, Option.filter]

theorem readLane_ofState (form : Form) (operands : List Token) :
    (ofState state).readLane form operands = Shell.readLane state form operands := by
  rw [readLane.eq_def]
  simp only [findBuffer_ofState]
  rfl

theorem readView_ofState (operands : List Token) :
    (ofState state).readView operands = Shell.readView state operands := by
  rw [readView.eq_def]
  simp only [findBuffer_ofState]
  rfl

theorem readGetBytes_ofState (operands : List Token) :
    (ofState state).readGetBytes operands = Shell.readGetBytes state operands := by
  rw [readGetBytes, readLane_ofState]
  rfl

theorem readSetBytes_ofState (operands : List Token) :
    (ofState state).readSetBytes operands = Shell.readSetBytes state operands := by
  rw [readSetBytes, readLane_ofState]
  rfl

theorem readWords_ofState (name : Token) (operands : List Token) :
    (ofState state).readWords name operands = Shell.readWords state name operands := by
  rw [readWords]
  split
  · rename_i hname
    rw [Shell.readWords.eq_def, hname]
    exact readView_ofState operands
  · rename_i hname
    rw [Shell.readWords.eq_def, hname]
    exact readGetBytes_ofState operands
  · rename_i hname
    rw [Shell.readWords.eq_def, hname]
    exact readSetBytes_ofState operands
  · rfl

theorem readLine_ofState (line : List Char) :
    (ofState state).readLine line = Shell.readLine state line := by
  rw [readLine]
  simp only [readWords_ofState]
  rfl

theorem run_eq_delegate (shell : TableShell) {command : Command} (h : command.creates = none) :
    shell.run command = shell.delegate command := by
  cases command with
  | newBuffer | newView | viewOver | subview => cases h
  | _ => rfl

theorem delegate_ofState {command : Command}
    (h : (state.run command).2.memory.buffers.size = state.memory.buffers.size) :
    (ofState state).delegate command
      = ((state.run command).1, ofState (state.run command).2) := by
  rw [delegate, ofState, ofState, h]

/-- A command whose handles are known does the same. -/
theorem run_ofState {command : Command} (hknown : command.Known state) :
    (ofState state).run command = ((state.run command).1, ofState (state.run command).2) := by
  cases hcreates : command.creates with
  | none =>
    rw [run_eq_delegate _ hcreates]
    exact delegate_ofState ((state.leaves_run command).size_eq hcreates)
  | some made =>
    cases command with
    | newBuffer size =>
      simp [run, State.run, State.answer, ofState, Memory.allocZeroed, Memory.alloc,
        Array.range_succ]
    | newView kind length =>
      simp only [run, State.run, ofState, State.perform_zeroed]
      by_cases hlarge : maxAllocation < length * kind.size
      · simp only [if_pos hlarge]
      · simp [if_neg hlarge, keepView, State.addView, Memory.allocZeroed, Memory.alloc,
          Array.range_succ]
    | viewOver kind buffer offset length =>
      simp only [run, State.run, ofState]
      cases hview : View.ofBuffer state.memory buffer kind offset length with
      | error e => rfl
      | ok view =>
        obtain ⟨-, rfl⟩ := View.ofBuffer_eq_ok_iff.mp hview
        have hlt : buffer < state.memory.buffers.size := hknown
        simp [keepView, State.addView, hlt]
    | subview view start stop =>
      have hsize : (state.run (.subview view start stop)).2.memory.buffers.size
          = state.memory.buffers.size := rfl
      exact delegate_ofState hsize
    | _ => cases hcreates

/-- The table of buffers is the numbering that the memory has by itself. -/
theorem evalLine_ofState (state : State) (line : List Char) :
    (ofState state).evalLine line = ((state.evalLine line).1, ofState (state.evalLine line).2) := by
  rw [evalLine, State.evalLine, readLine_ofState]
  cases hread : Shell.readLine state line with
  | error e => rfl
  | ok read =>
    cases read with
    | none => rfl
    | some command => simp only [run_ofState (State.known_of_readLine hread).1]

end TableShell

end ArrayEngine.Shell
