import ArrayEngine.Proofs.Shell.Tables

/-!
# Handles stay valid

The name of a handle is printed once, as the place of an entry that has just been made. From then on
it is read back as that place by every command that takes a handle of its kind, and the tables only
grow, so that it denotes that entry for good, whatever the lines in between do or fail at.

A shell runs on a machine, and a machine grants only so much memory. A buffer that it does not
grant, or an entry that it grants a table no room for, ends the program, so that there is nothing to
be said of what would come after. This is what keeps buffers small enough for every view to lie in
its own, and the numbers of entries in a word.

## Main definitions

* `TableShell.TakesBuffer`, `TableShell.TakesView`: a name is accepted wherever a handle can stand
* `Machine`: how much memory is granted
* `Machine.evalLines`: lines carried out on a machine
* `TableShell.Grows`, `TableShell.Sound`: what the tables keep

## Main results

* `State.handleNumber?_append`: a number is read back from a name
* `Machine.evalLines_ofState`: what a machine carries out, the shell does
* `Machine.Settled.evalLines`: and it leaves every view in its buffer
* `Machine.handles_stay_valid`: what the tables keep, and what a printed name denotes
-/

namespace ArrayEngine.Shell

open Decimal (digitValue? digitsFrom? digitsValue? unsigned?)

/-! ### Names -/

/-- Digits are read by their places. -/
theorem digitsFrom?_eq_ofDigitChars {text : List Char} (h : ∀ c ∈ text, c.isDigit) (acc : Nat) :
    digitsFrom? 10 acc text = some (Nat.ofDigitChars 10 text acc) := by
  induction text generalizing acc with
  | nil => rfl
  | cons c rest ih =>
    have hc := h c List.mem_cons_self
    have hvalue : digitValue? 10 c = some (c.toNat - '0'.toNat) := by
      have hle : c.toNat ≤ 57 := (Char.isDigit_iff_toNat.mp hc).2
      have hlt : c.toNat - 48 < 10 := by omega
      simp [digitValue?, hc, hlt, Option.filter]
    rw [digitsFrom?, hvalue, Nat.ofDigitChars_cons, Nat.mul_comm]
    exact ih (fun d hd => h d (List.mem_cons_of_mem c hd)) _

/-- What is printed of a number is read as the number. -/
theorem unsigned?_toString {n bits : Nat} (h : n < 2 ^ bits) :
    unsigned? 10 bits (toString n).toList = some n := by
  have htext : (toString n).toList = Nat.toDigits 10 n := String.toList_ofList
  have hdigits : ∀ c ∈ Nat.toDigits 10 n, c.isDigit := fun _ hc =>
    Nat.isDigit_of_mem_toDigits (by decide) (by decide) hc
  have hvalue : digitsValue? 10 (Nat.toDigits 10 n) = some n := by
    rw [digitsValue?, if_neg (by simp [Nat.toDigits_ne_nil]), digitsFrom?_eq_ofDigitChars hdigits,
      Nat.ofDigitChars_toDigits (by decide) (by decide)]
  rw [htext]
  unfold unsigned?
  split
  · rename_i rest heq
    have hplus := hdigits '+' (by rw [heq]; exact List.mem_cons_self)
    exact absurd hplus (by decide)
  · dsimp only
    rw [hvalue]
    exact if_pos (decide_eq_true h)

namespace State

theorem handleNumber?_append (part : List Char) {n : Nat} (h : n < 2 ^ 64) :
    handleNumber? part (part ++ (toString n).toList) = some n := by
  have hprefix : part.isPrefixOf (part ++ (toString n).toList) :=
    List.isPrefixOf_iff_prefix.mpr (List.prefix_append _ _)
  rw [handleNumber?, if_pos hprefix, List.drop_left, unsigned?_toString h]

theorem toList_bufferName (n : Nat) : (bufferName n).toList = bufferPart ++ (toString n).toList :=
  String.toList_append

theorem toList_viewName (n : Nat) : (viewName n).toList = viewPart ++ (toString n).toList :=
  String.toList_append

end State

namespace TableShell

open State (bufferPart viewPart handleNumber?)

variable {shell : TableShell}

/-! ### Handles among the words of a line -/

/-- Every command that takes a buffer takes a word for it. -/
structure TakesBuffer (shell : TableShell) (word : Token) (buffer : BufferId) : Prop where
  view : ∀ kind more, more.length ≤ 2 →
    shell.readWords "view".toList (kind :: word :: more) = do
      let kind ← reading (readLaneKind kind)
      let offset ← reading (readCount? more[0]?)
      return .viewOver kind buffer (offset.getD 0) (← reading (readCount? more[1]?))
  getBytes : ∀ kind position rest,
    shell.readWords "dvget".toList (word :: kind :: position :: rest) = do
      let kind ← reading (readLaneKind kind)
      let position ← reading (readCount position)
      let order ← reading (readByteOrder rest)
      return .getBytes ⟨buffer, 0, shell.state.memory.byteLength buffer⟩ kind position order
  setBytes : ∀ kind position value rest,
    shell.readWords "dvset".toList (word :: kind :: position :: value :: rest) = do
      let kind ← reading (readLaneKind kind)
      let position ← reading (readCount position)
      let value ← reading (readValue value)
      let order ← reading (readByteOrder rest)
      return .setBytes ⟨buffer, 0, shell.state.memory.byteLength buffer⟩ kind position value order

/-- Every command that takes a view takes a word for it. -/
structure TakesView (shell : TableShell) (word : Token) (view : View) : Prop where
  subview : ∀ range, shell.readWords "subview".toList (word :: range) = do
    let (start, stop) ← readRange Form.subview range
    return .subview view start stop
  getLane : ∀ index, shell.readWords "vget".toList [word, index] = do
    let index ← reading (readCount index)
    return .getLane view index
  setLane : ∀ index value, shell.readWords "vset".toList [word, index, value] = do
    let index ← reading (readCount index)
    let value ← reading (readValue value)
    return .setLane view index value
  showView : shell.readWords "vshow".toList [word] = .ok (.showView view)
  copyValues : ∀ start values, isList values →
    shell.readWords "vcopy".toList [word, start, values] = do
      let start ← reading (readCount start)
      return .copyValues view start (← reading (readList values))
  copyFrom : ∀ start source, isList source = false →
    shell.readWords "vcopy".toList [word, start, source] = do
      let start ← reading (readCount start)
      return .copyView view start (← shell.state.findView source)
  copyTo : ∀ target start, shell.readWords "vcopy".toList [target, start, word] = do
    let start ← reading (readCount start)
    return .copyView (← shell.state.findView target) start view

theorem readLane_of_findBuffer {word : Token} {buffer : BufferId}
    (hfind : shell.findBuffer word = .ok buffer) (form : Form) (kind position : Token)
    (rest : List Token) :
    shell.readLane form (word :: kind :: position :: rest) = do
      let view : DataView := ⟨buffer, 0, shell.state.memory.byteLength buffer⟩
      return (view, ← reading (readLaneKind kind), ← reading (readCount position), rest) := by
  have hwhole : DataView.ofBuffer shell.state.memory buffer 0 none
      = .ok ⟨buffer, 0, shell.state.memory.byteLength buffer⟩ :=
    DataView.ofBuffer_eq_ok_iff.mpr ⟨Nat.zero_le _, rfl⟩
  rw [readLane, hfind]
  change ((DataView.ofBuffer _ buffer 0 none).mapError _ >>= _) = _
  rw [hwhole]
  rfl

theorem takesBuffer_of_findBuffer {word : Token} {buffer : BufferId}
    (hname : bufferPart.isPrefixOf word) (hfind : shell.findBuffer word = .ok buffer) :
    shell.TakesBuffer word buffer where
  view kind more hmore := by
    simp only [readWords, String.ofList_toList, readView, hname, hmore, hfind, Bool.not_true,
      Bool.and_false, Bool.false_eq_true, if_false, if_true]
    rfl
  getBytes kind position rest := by
    simp only [readWords, String.ofList_toList, readGetBytes, readLane_of_findBuffer hfind,
      bind_assoc, pure_bind]
  setBytes kind position value rest := by
    simp only [readWords, String.ofList_toList, readSetBytes, readLane_of_findBuffer hfind,
      bind_assoc, pure_bind]

theorem takesView_of_findView {word : Token} {view : View} (hname : isList word = false)
    (hfind : shell.state.findView word = .ok view) : shell.TakesView word view where
  subview range := by
    change shell.state.findView word >>= _ = _
    rw [hfind]
    rfl
  getLane index := by
    change (_ >>= fun _ => shell.state.findView word >>= _) = _
    rw [hfind]
    rfl
  setLane index value := by
    change (_ >>= fun _ => _ >>= fun _ => shell.state.findView word >>= _) = _
    rw [hfind]
    rfl
  showView := by
    change shell.state.findView word >>= _ = _
    rw [hfind]
    rfl
  copyValues start values hvalues := by
    change readCopy shell.state [word, start, values] = _
    rw [readCopy, hfind, hvalues]
    rfl
  copyFrom start source hsource := by
    change readCopy shell.state [word, start, source] = _
    rw [readCopy, hfind, hsource]
    rfl
  copyTo target start := by
    change readCopy shell.state [target, start, word] = _
    rw [readCopy, hfind, hname]
    rfl

/-! ### Tables -/

/-- Entries keep their places and stay what they are, and buffers keep their sizes. -/
structure Grows (shell later : TableShell) : Prop where
  buffers : shell.buffers.toList <+: later.buffers.toList
  views : shell.state.views.toList <+: later.state.views.toList
  sizes : ∀ buffer ∈ shell.buffers,
    later.state.memory.byteLength buffer = shell.state.memory.byteLength buffer

/-- The entries of the table of buffers are different buffers of the memory, and every view lies in
one of them. -/
structure Sound (shell : TableShell) : Prop where
  nodup : shell.buffers.toList.Nodup
  buffer_lt : ∀ buffer ∈ shell.buffers, buffer < shell.state.memory.buffers.size
  buffer_mem : ∀ view ∈ shell.state.views, view.buffer ∈ shell.buffers
  within : ∀ view ∈ shell.state.views, view.Within shell.state.memory

theorem grows_ofState {state after : State} (h : state.Grows after) :
    (ofState state).Grows (ofState after) where
  buffers := by
    rw [ofState, ofState, Array.toList_range, Array.toList_range, List.prefix_iff_eq_take,
      List.length_range, List.take_range, Nat.min_eq_left h.size_le]
  views := h.views
  sizes buffer hbuffer := h.sizes buffer (Array.mem_range.mp hbuffer)

/-- The name of a place in the table of buffers is taken for the buffer in that place. -/
theorem takesBuffer_bufferName {state : State} {n : Nat} (hn : n < state.memory.buffers.size)
    (hword : n < 2 ^ 64) : (ofState state).TakesBuffer (State.bufferName n).toList n := by
  refine takesBuffer_of_findBuffer ?_ ?_
  · rw [State.toList_bufferName]
    exact List.isPrefixOf_iff_prefix.mpr (List.prefix_append _ _)
  · rw [findBuffer_ofState, State.findBuffer, State.toList_bufferName,
      State.handleNumber?_append _ hword]
    simp [Option.filter, hn]

/-- The name of a place in the table of views is taken for the view in that place. -/
theorem takesView_viewName {state : State} {n : Nat} {view : View}
    (hview : state.views[n]? = some view) (hword : n < 2 ^ 64) :
    (ofState state).TakesView (State.viewName n).toList view := by
  have hfind : state.findView (State.viewName n).toList = .ok view := by
    rw [State.findView, State.toList_viewName, State.handleNumber?_append _ hword]
    simp [hview]
  refine takesView_of_findView ?_ hfind
  rw [State.toList_viewName]
  rfl

end TableShell

/-! ### Machines -/

/-- How much memory is granted. No request for more than `2 ^ 53` bytes is. -/
structure Machine where
  /-- Whether a buffer of so many bytes is granted. -/
  grants : Nat → Bool
  /-- Whether a table of so many entries is granted, each of which takes at least a byte. -/
  tabulates : Nat → Bool
  le_of_grants : ∀ size, grants size → size ≤ 2 ^ 53
  le_of_tabulates : ∀ count, tabulates count → count ≤ 2 ^ 53

namespace Machine

open TableShell (ofState)

variable {machine : Machine} {state : State}

/-- There is room for the buffers that have been made, and for the tables if they have grown. -/
def admits (machine : Machine) (before after : TableShell) : Bool :=
  after.buffers.toList.all (fun buffer =>
    before.buffers.contains buffer || machine.grants (after.state.memory.byteLength buffer)) &&
  (after.buffers.size == before.buffers.size || machine.tabulates after.buffers.size) &&
  (after.state.views.size == before.state.views.size || machine.tabulates after.state.views.size)

/-- Carries out a line. There is no outcome if the machine has no room for what it makes. -/
def evalLine (machine : Machine) (shell : TableShell) (line : List Char) :
    Option (Except ShellError String × TableShell) :=
  match shell.evalLine line with
  | (outcome, after) => if machine.admits shell after then some (outcome, after) else none

/-- Carries out lines, one after another, up to the end of the program. -/
def evalLines (machine : Machine) (shell : TableShell) :
    List (List Char) → Option (List (Except ShellError String) × TableShell)
  | [] => some ([], shell)
  | line :: rest => do
    let (outcome, shell) ← machine.evalLine shell line
    let (outcomes, shell) ← evalLines machine shell rest
    return (outcome :: outcomes, shell)

/-- No table and no buffer is larger than on any machine. -/
structure Holds (state : State) : Prop where
  buffers_le : state.memory.buffers.size ≤ 2 ^ 53
  views_le : state.views.size ≤ 2 ^ 53
  byteLength_le : ∀ buffer < state.memory.buffers.size, state.memory.byteLength buffer ≤ 2 ^ 53

theorem holds_fresh (config : Config) : Holds (.fresh config) where
  buffers_le := by simp [State.fresh, Memory.empty]
  views_le := by simp [State.fresh]
  byteLength_le := by simp [State.fresh, Memory.empty]

theorem Holds.of_admits (h : Holds state) {after : State} (hgrows : state.Grows after)
    (hadmits : machine.admits (ofState state) (ofState after)) : Holds after := by
  simp only [admits, Bool.and_eq_true, Bool.or_eq_true, List.all_eq_true, beq_iff_eq,
    Array.contains_iff_mem] at hadmits
  obtain ⟨⟨hgranted, hbuffers⟩, hviews⟩ := hadmits
  simp only [ofState, Array.size_range] at hgranted hbuffers hviews
  refine ⟨?_, ?_, fun buffer hbuffer => ?_⟩
  · rcases hbuffers with heq | htable
    · exact heq.trans_le h.buffers_le
    · exact machine.le_of_tabulates _ htable
  · rcases hviews with heq | htable
    · exact heq.trans_le h.views_le
    · exact machine.le_of_tabulates _ htable
  · rcases hgranted buffer (by simpa using hbuffer) with hold | hnew
    · have hlt := Array.mem_range.mp hold
      rw [hgrows.sizes buffer hlt]
      exact h.byteLength_le buffer hlt
    · exact machine.le_of_grants _ hnew

/-- What holds between the lines that a machine carries out. -/
structure Settled (state : State) : Prop where
  sound : state.Sound
  holds : Holds state

theorem settled_fresh (config : Config) : Settled (.fresh config) :=
  ⟨State.sound_fresh config, holds_fresh config⟩

/-- On a machine every view lies in its buffer, whatever its size. -/
theorem Settled.sound_ofState (h : Settled state) : (ofState state).Sound where
  nodup := by
    rw [ofState, Array.toList_range]
    exact List.nodup_range
  buffer_lt _ hbuffer := Array.mem_range.mp hbuffer
  buffer_mem view hview := Array.mem_range.mpr (h.sound.buffer_lt view hview)
  within view hview :=
    h.sound.within view hview (h.holds.byteLength_le _ (h.sound.buffer_lt view hview))

/-- What a machine carries out, the shell does. -/
theorem evalLine_ofState {line : List Char} {outcome : Except ShellError String}
    {after : TableShell} (h : machine.evalLine (ofState state) line = some (outcome, after)) :
    state.evalLine line = (outcome, after.state) ∧ after = ofState after.state ∧
      machine.admits (ofState state) after := by
  rw [evalLine, TableShell.evalLine_ofState] at h
  dsimp only at h
  rw [Option.ite_none_right_eq_some] at h
  obtain ⟨hadmits, heq⟩ := h
  cases heq
  exact ⟨rfl, rfl, hadmits⟩

theorem Holds.evalLine (h : Holds state) {line : List Char} {outcome : Except ShellError String}
    {after : TableShell} (heval : machine.evalLine (ofState state) line = some (outcome, after)) :
    Holds after.state := by
  obtain ⟨hline, hafter, hadmits⟩ := evalLine_ofState heval
  have hgrows := state.grows_evalLine line
  rw [hline] at hgrows
  rw [hafter] at hadmits
  exact h.of_admits hgrows hadmits

theorem evalLines_cons {shell after : TableShell} {line : List Char} {rest : List (List Char)}
    {outcomes : List (Except ShellError String)}
    (h : machine.evalLines shell (line :: rest) = some (outcomes, after)) :
    ∃ outcome next restOutcomes, machine.evalLine shell line = some (outcome, next) ∧
      machine.evalLines next rest = some (restOutcomes, after) ∧
      outcomes = outcome :: restOutcomes := by
  simp only [evalLines, Option.bind_eq_bind, Option.bind_eq_some_iff, Option.pure_def,
    Option.some.injEq, Prod.exists, Prod.mk.injEq] at h
  obtain ⟨outcome, next, hline, restOutcomes, _, hrest, rfl, rfl⟩ := h
  exact ⟨outcome, next, restOutcomes, hline, hrest, rfl⟩

/-- What a machine carries out line by line, the shell does. -/
theorem evalLines_ofState {lines : List (List Char)} {outcomes : List (Except ShellError String)}
    {after : TableShell} (h : machine.evalLines (ofState state) lines = some (outcomes, after)) :
    state.evalLines lines = (outcomes, after.state) ∧ after = ofState after.state := by
  induction lines generalizing state outcomes with
  | nil =>
    cases h
    exact ⟨rfl, rfl⟩
  | cons line rest ih =>
    obtain ⟨outcome, next, restOutcomes, hline, hrest, rfl⟩ := evalLines_cons h
    obtain ⟨hstep, hnext, -⟩ := evalLine_ofState hline
    rw [hnext] at hrest
    obtain ⟨hlines, hafter⟩ := ih hrest
    refine ⟨?_, hafter⟩
    rw [State.evalLines_cons, hstep, hlines]

theorem Holds.evalLines (h : Holds state) {lines : List (List Char)}
    {outcomes : List (Except ShellError String)} {after : TableShell}
    (heval : machine.evalLines (ofState state) lines = some (outcomes, after)) :
    Holds after.state := by
  induction lines generalizing state outcomes with
  | nil =>
    cases heval
    exact h
  | cons line rest ih =>
    obtain ⟨_, next, _, hline, hrest, -⟩ := evalLines_cons heval
    obtain ⟨-, hnext, -⟩ := evalLine_ofState hline
    rw [hnext] at hrest
    exact ih (h.evalLine hline) hrest

theorem Settled.evalLine (h : Settled state) {line : List Char}
    {outcome : Except ShellError String} {after : TableShell}
    (heval : machine.evalLine (ofState state) line = some (outcome, after)) :
    Settled after.state := by
  have hsound := h.sound.evalLine line
  rw [(evalLine_ofState heval).1] at hsound
  exact ⟨hsound, h.holds.evalLine heval⟩

theorem Settled.evalLines (h : Settled state) {lines : List (List Char)}
    {outcomes : List (Except ShellError String)} {after : TableShell}
    (heval : machine.evalLines (ofState state) lines = some (outcomes, after)) :
    Settled after.state := by
  have hsound := h.sound.evalLines lines
  rw [(evalLines_ofState heval).1] at hsound
  exact ⟨hsound, h.holds.evalLines heval⟩

/-! ### The result -/

/-- **Handles stay valid.** Between any lines that a machine carries out in a fresh shell, the shell
does what it does without tables, no buffer stands twice in the table, and every view lies in a
buffer of the table. The tables only grow: entries keep their places and stay what they are. The
name that a line prints for a buffer or a view is accepted from then on by every command that takes
such a handle, and denotes the entry that the line has added. -/
theorem handles_stay_valid {config : Config} {before after : List (List Char)} {line : List Char}
    {outcomes outcomes' : List (Except ShellError String)} {outcome : Except ShellError String}
    {shell made later : TableShell}
    (hbefore : machine.evalLines (.fresh config) before = some (outcomes, shell))
    (hline : machine.evalLine shell line = some (outcome, made))
    (hafter : machine.evalLines made after = some (outcomes', later)) :
    ((State.fresh config).evalLines before = (outcomes, shell.state) ∧
      shell.state.evalLine line = (outcome, made.state) ∧
      made.state.evalLines after = (outcomes', later.state)) ∧
    (shell.Sound ∧ made.Sound ∧ later.Sound) ∧
    (shell.Grows made ∧ made.Grows later) ∧
    (commandName? line = some "buffer" → ∀ name, outcome = .ok name → ∃ buffer,
      made.buffers = shell.buffers.push buffer ∧ buffer ∉ shell.buffers ∧
      later.TakesBuffer name.toList buffer) ∧
    (commandName? line = some "view" ∨ commandName? line = some "subview" →
      ∀ name, outcome = .ok name → ∃ view,
        made.state.views = shell.state.views.push view ∧ later.TakesView name.toList view) := by
  have hsettled := (settled_fresh config).evalLines hbefore
  obtain ⟨hrun, hshell⟩ := evalLines_ofState hbefore
  rw [hshell] at hline
  have hsettledMade := hsettled.evalLine hline
  obtain ⟨hstep, hmade, -⟩ := evalLine_ofState hline
  rw [hmade] at hafter
  have hsettledLater := hsettledMade.evalLines hafter
  obtain ⟨hrest, hlater⟩ := evalLines_ofState hafter
  have hfirst : shell.state.Grows made.state := by
    simpa only [hstep] using shell.state.grows_evalLine line
  have hgrows : made.state.Grows later.state := by
    simpa only [hrest] using made.state.grows_evalLines after
  generalize shell.state = s at *
  generalize made.state = t at *
  generalize later.state = u at *
  subst hshell hmade hlater
  refine ⟨⟨hrun, hstep, hrest⟩,
    ⟨hsettled.sound_ofState, hsettledMade.sound_ofState, hsettledLater.sound_ofState⟩,
    ⟨TableShell.grows_ofState hfirst, TableShell.grows_ofState hgrows⟩, ?_, ?_⟩
  · rintro hname name rfl
    obtain ⟨rfl, hsize⟩ := State.evalLine_buffer hname hstep
    have hplace : s.memory.buffers.size < u.memory.buffers.size := by
      have := hgrows.size_le
      omega
    have hword := hsettledLater.holds.buffers_le
    exact ⟨s.memory.buffers.size, by simp [ofState, hsize, Array.range_succ], by simp [ofState],
      TableShell.takesBuffer_bufferName hplace (by omega)⟩
  · rintro hname name rfl
    have hmakes : ∃ text, commandName? line = some text ∧ createdBy text = some .view := by
      rcases hname with hname | hname
      · exact ⟨_, hname, rfl⟩
      · exact ⟨_, hname, rfl⟩
    obtain ⟨text, htext, hview⟩ := hmakes
    obtain ⟨rfl, view, hviews⟩ := State.evalLine_view htext hview hstep
    have hplace : u.views[s.views.size]? = some view :=
      hgrows.getElem?_views (by rw [hviews, Array.getElem?_push_size])
    have hlt := (Array.getElem?_eq_some_iff.mp hplace).1
    have hword := hsettledLater.holds.views_le
    exact ⟨view, hviews, TableShell.takesView_viewName hplace (by omega)⟩

/-- A machine with room for so many bytes, and tables of so many entries. -/
def withRoom (room : Nat) (h : room ≤ 2 ^ 53) : Machine where
  grants size := size ≤ room
  tabulates count := count ≤ room
  le_of_grants _ hsize := (of_decide_eq_true hsize).trans h
  le_of_tabulates _ hcount := (of_decide_eq_true hcount).trans h

/-- A buffer is known by its name after a line that fails and another buffer. -/
theorem handles_stay_valid_of_buffer :
    let machine := withRoom 1024 (by decide)
    let start := TableShell.fresh {}
    let line := "buffer 8".toList
    let after := ["buffer x".toList, "buffer 4".toList]
    ∃ made outcomes later, machine.evalLine start line = some (.ok "buf0", made) ∧
      machine.evalLines made after = some (outcomes, later) ∧
      ∃ buffer, made.buffers = start.buffers.push buffer ∧ buffer ∉ start.buffers ∧
        later.TakesBuffer "buf0".toList buffer := by
  intro machine start line after
  have hrun : ((machine.evalLine start line).bind fun first =>
      (machine.evalLines first.2 after).map fun _ => first.1) = some (.ok "buf0") := by
    decide +kernel
  obtain ⟨⟨outcome, made⟩, hline, hrest⟩ := Option.bind_eq_some_iff.mp hrun
  obtain ⟨⟨outcomes, later⟩, hafter, hname⟩ := Option.map_eq_some_iff.mp hrest
  obtain rfl : outcome = .ok "buf0" := hname
  have hbefore : machine.evalLines start [] = some ([], start) := rfl
  obtain ⟨-, -, -, hbuffer, -⟩ := handles_stay_valid hbefore hline hafter
  exact ⟨made, outcomes, later, hline, hafter, hbuffer (by decide +kernel) "buf0" rfl⟩

end Machine

end ArrayEngine.Shell
