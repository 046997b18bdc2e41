import ArrayEngine.Proofs.CallSite.InStep
import ArrayEngine.Proofs.Shell.Reading
import ArrayEngine.Shell.Run

/-!
# Scripts print the same under every tuning

Two shells that differ in their tuning carry out the same script side by side. Their arrays come to
be laid out differently, and their call sites go different ways; but each line prints the same in
both, and leaves shells that agree. Only the commands that show the layout of the array or what the
sites know tell the shells apart, and pinning: a site that pops does not ask the host.

## Main results

* `State.Agree.run`: one command
* `State.Agree.evalLine`, `State.Agree.evalLines`: lines
* `State.runScript_tuning`: scripts of new shells
-/

namespace ArrayEngine.Shell

variable {s t : Store}

theorem displayStore_congr (h : s.Equivalent t) : displayStore s = displayStore t := by
  rw [displayStore, displayStore, h.length_eq, h.entries_eq, h.toList_eq]

namespace State

/-- The same output or failure, and shells that agree. -/
structure AgreeAfter {ε : Type} (p q : Except ε String × State) : Prop where
  output_eq : p.1 = q.1
  state : p.2.Agree q.2

namespace Agree

variable {a b : State} (h : a.Agree b)

include h

/-! ### Parts of commands -/

/-- What a command makes of the array and of the sites. -/
theorem withArray (hst : s.Equivalent t) (sites sites' : Sites) :
    ({ a with array := s, sites } : State).Agree { b with array := t, sites := sites' } :=
  ⟨hst, h.host_eq, h.deletable, h.memory_eq, h.views_eq⟩

theorem withSites (sites sites' : Sites) :
    ({ a with sites } : State).Agree { b with sites := sites' } := h.withArray h.array _ _

/-- A call that edits the array. -/
theorem call {α : Type} {p q : Except EngineError α × Store}
    (hpq : Store.SameOutcome Eq p q) (output : α → String) (sites sites' : Sites) :
    AgreeAfter (p.1.map output, ({ a with array := p.2, sites } : State))
      (q.1.map output, ({ b with array := q.2, sites := sites' } : State)) :=
  ⟨congrArg (Except.map output) hpq.result.eq, h.withArray hpq.store sites sites'⟩

theorem editArray {α : Type} {R : α → α → Prop} {edit : Edit Store α}
    {output : α → Store → String} (hedit : Store.InStep R edit edit)
    (houtput : ∀ x y s t, R x y → s.Equivalent t → output x s = output y t) :
    AgreeAfter (a.editArray edit output) (b.editArray edit output) := by
  obtain ⟨hresult, hstore⟩ := hedit _ _ h.array
  rw [State.editArray, State.editArray]
  generalize edit.perform a.array = p at hresult hstore
  generalize edit.perform b.array = q at hresult hstore
  obtain ⟨r, u⟩ := p
  obtain ⟨r', u'⟩ := q
  cases hresult with
  | ok hab => exact ⟨congrArg Except.ok (houtput _ _ _ _ hab hstore), h.withArray hstore _ _⟩
  | error e => exact ⟨rfl, h.withArray hstore _ _⟩

theorem editMemory (edit : Edit Memory Unit) :
    AgreeAfter (a.editMemory edit) (b.editMemory edit) := by
  rw [State.editMemory, State.editMemory, ← h.memory_eq]
  split <;> exact ⟨rfl, h.array, h.host_eq, h.deletable, rfl, h.views_eq⟩

/-- A call that edits the memory. -/
theorem callMemory {p q : Except EngineError Unit × Memory} (hpq : p = q)
    (sites sites' : Sites) :
    AgreeAfter (p.1.map fun _ => "", ({ a with memory := p.2, sites } : State))
      (q.1.map fun _ => "", ({ b with memory := q.2, sites := sites' } : State)) := by
  subst hpq
  exact ⟨rfl, h.array, h.host_eq, h.deletable, rfl, h.views_eq⟩

/-! ### Commands -/

theorem delete (index : Nat) : AgreeAfter (a.delete index) (b.delete index) := by
  have hdeletable : ∀ state : State, (∀ i, state.host.deletable i) →
      state.delete index
        = ({ state with array := state.array.remove index } : State).answer "true" :=
    fun state hstate => by simp [State.delete, hstate index]
  rw [hdeletable a h.deletable, hdeletable b (h.host_eq ▸ h.deletable)]
  exact ⟨rfl, h.withArray (h.array.remove index) _ _⟩

theorem run {command command' : Command} (hcommand : command.Agree command') :
    AgreeAfter (a.run command) (b.run command') := by
  obtain ⟨config, array, host, memory, views, sites⟩ := a
  obtain ⟨config', array', host', memory', views', sites'⟩ := b
  obtain ⟨harray, hhost, hdeletable, hmemory, hviews⟩ := id h
  dsimp only at harray hdeletable hhost hmemory hviews
  subst hhost hmemory hviews
  cases hcommand with
  | concat hoperands =>
    have hresult := CallSite.concat_agree sites.concat sites'.concat harray hoperands host
    exact ⟨(hresult.map fun _ _ => displayStore_congr).eq, h.withSites _ _⟩
  | untuned hcommand =>
    cases command with
    | push values => exact h.call (CallSite.push_agree _ _ harray values host) toString _ _
    | pop => exact h.call (CallSite.pop_agree _ _ harray hdeletable) Value.display _ _
    | shift =>
      exact h.editArray (Store.inStep_shift host) fun _ _ _ _ hxy _ => congrArg _ hxy
    | unshift values =>
      exact h.editArray (Store.inStep_unshift values host) fun _ _ _ _ hxy _ => congrArg _ hxy
    | get index =>
      have hvalue := CallSite.getIndex_agree sites.get sites'.get harray index host
      exact ⟨congrArg (Except.ok ∘ displayOrUndefined) hvalue, h.withSites _ _⟩
    | set index value =>
      exact h.call (CallSite.setIndex_agree _ _ harray hcommand value host) (fun _ => "") _ _
    | delete index => exact h.delete index
    | length => exact ⟨congrArg (Except.ok ∘ toString) harray.length_eq, h⟩
    | assignLength value =>
      exact h.editArray (Store.inStep_assignLengthValue host value)
        fun _ _ _ _ _ hst => congrArg toString hst.length_eq
    | showArray => exact ⟨congrArg Except.ok (displayStore_congr harray), h⟩
    | slice start stop =>
      exact ⟨((harray.slice start stop host).map fun _ _ => displayStore_congr).eq, h⟩
    | splice start count values =>
      exact h.editArray (Store.inStep_splice start count values host)
        fun _ _ _ _ hxy _ => displayStore_congr hxy
    | sort numeric =>
      exact h.editArray (Store.stepwise_sort host _).inStep
        fun _ _ _ _ _ hst => displayStore_congr hst
    | reverse =>
      exact h.editArray (Store.inStep_reverse host)
        fun _ _ _ _ _ hst => displayStore_congr hst
    | fill value start stop =>
      exact h.editArray (Store.stepwise_fill host value start stop).inStep
        fun _ _ _ _ _ hst => displayStore_congr hst
    | inherit index value => exact ⟨rfl, harray, rfl, hdeletable, rfl, rfl⟩
    | newBuffer size => exact ⟨rfl, harray, rfl, hdeletable, rfl, rfl⟩
    | newView kind length =>
      rw [State.run, State.run]
      dsimp only
      split <;> exact ⟨rfl, harray, rfl, hdeletable, rfl, rfl⟩
    | viewOver kind buffer offset length =>
      rw [State.run, State.run]
      dsimp only
      split <;> exact ⟨rfl, harray, rfl, hdeletable, rfl, rfl⟩
    | subview view start stop => exact ⟨rfl, harray, rfl, hdeletable, rfl, rfl⟩
    | getLane view index =>
      have hvalue := CallSite.getViewIndex_eq sites.vget view memory index
      have hvalue' := CallSite.getViewIndex_eq sites'.vget view memory index
      exact ⟨congrArg (Except.ok ∘ displayOrUndefined) (hvalue.trans hvalue'.symm),
        h.withSites _ _⟩
    | setLane view index value =>
      have hset := CallSite.setViewIndex_eq sites.vset view memory index value
      have hset' := CallSite.setViewIndex_eq sites'.vset view memory index value
      exact h.callMemory (hset.trans hset'.symm) _ _
    | showView view => exact ⟨rfl, h⟩
    | copyValues view start values => exact h.editMemory _
    | copyView view start source => exact h.editMemory _
    | getBytes view kind position order => exact ⟨rfl, h⟩
    | setBytes view kind position value order => exact h.editMemory _
    | help => exact ⟨rfl, h⟩
    | kind | sites | pin _ | concat _ => exact hcommand.elim

/-! ### Scripts -/

theorem evalLine {line : List Char}
    (hline : ∀ name ∈ commandName? line, name ∉ tuningCommands) :
    AgreeAfter (a.evalLine line) (b.evalLine line) := by
  have hread := h.reads_readLine hline
  rw [State.evalLine, State.evalLine]
  generalize readLine a line = r at hread
  generalize readLine b line = r' at hread
  cases hread with
  | error e => exact ⟨rfl, h⟩
  | ok hcommand =>
    cases hcommand with
    | none => exact ⟨rfl, h⟩
    | some hcommand =>
      obtain ⟨houtput, hstate⟩ := h.run hcommand
      exact ⟨congrArg (Except.mapError ShellError.engine) houtput, hstate⟩

omit h in
/-- Line after line, the shells agree. -/
theorem evalLines {lines : List (List Char)}
    (hlines : ∀ line ∈ lines, ∀ name ∈ commandName? line, name ∉ tuningCommands) :
    ∀ {a b : State}, a.Agree b →
      (a.evalLines lines).1 = (b.evalLines lines).1 ∧
        (a.evalLines lines).2.Agree (b.evalLines lines).2 := by
  induction lines with
  | nil => exact fun h => ⟨rfl, h⟩
  | cons line rest ih =>
    intro a b h
    obtain ⟨hline, hrest⟩ := List.forall_mem_cons.mp hlines
    obtain ⟨houtput, hstate⟩ := h.evalLine hline
    obtain ⟨houtputs, hafter⟩ := ih hrest hstate
    exact ⟨congrArg₂ List.cons houtput houtputs, hafter⟩

end Agree

/-- New shells agree, whatever their tunings. -/
theorem fresh_agree (config config' : Config) : (fresh config).Agree (fresh config') :=
  ⟨.holes config config' (Nat.zero_le _), rfl, fun _ => rfl, rfl, rfl⟩

/-- **Scripts print the same under every tuning**, failures included, unless one of the statements
is a command that shows the tuning or pins an element. As in a session, what is reserved is
granted. -/
theorem runScript_tuning (config config' : Config) {source : List Char}
    (hsource : ∀ line ∈ statements source, ∀ name ∈ commandName? line, name ∉ tuningCommands) :
    ((fresh config).runScript source).1 = ((fresh config').runScript source).1 := by
  obtain ⟨houtputs, -⟩ := Agree.evalLines hsource (fresh_agree config config')
  exact congrArg (List.filterMap outputLine?) houtputs

/-- The array of the first shell becomes a dictionary, and its site for writes gives up at once. -/
theorem runScript_tuning_of_far_write :
    let source := "set 9 1; push 2; get 9; concat [3, 'a'] 4; pop; fill".toList
    (∀ line ∈ statements source, ∀ name ∈ commandName? line, name ∉ tuningCommands) ∧
      ((fresh { sparseGap := 0, maxRelinks := 0 }).runScript source).1
        = ((fresh {}).runScript source).1 := by
  have hsource : ∀ line ∈ statements "set 9 1; push 2; get 9; concat [3, 'a'] 4; pop; fill".toList,
      ∀ name ∈ commandName? line, name ∉ tuningCommands := by decide +kernel
  exact ⟨hsource, runScript_tuning _ _ hsource⟩

end State

end ArrayEngine.Shell
