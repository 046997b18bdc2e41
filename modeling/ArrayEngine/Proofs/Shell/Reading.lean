import ArrayEngine.Proofs.Bulk.InStep
import ArrayEngine.Shell.Read

/-!
# Reading in two shells

A line is read by looking at the buffers and views of a shell, and at nothing else that the shell
knows. So two shells with the same buffers and views read the same command, save that the lists of
a concatenation become arrays with the tuning of the shell that reads them.

## Main definitions

* `State.Agree`: shells that differ in their tuning and in what depends on it
* `Command.Agree`: commands that do the same in two such shells

## Main results

* `State.Agree.reads_readWords`: the commands of a line's words
* `State.Agree.reads_readLine`: the commands of a line
-/

namespace ArrayEngine.Shell

/-- Shells that differ in their tuning, in the layout of the array and in what the call sites know.
Their hosts let every element go. -/
structure State.Agree (a b : State) : Prop where
  array : a.array.Equivalent b.array
  host_eq : a.host = b.host
  deletable : ∀ i, a.host.deletable i
  memory_eq : a.memory = b.memory
  views_eq : a.views = b.views

/-- Word of a line that names its command, if the line is read as words at all. -/
def commandName? (line : List Char) : Option String :=
  match tokenize line with
  | .ok (name :: _) => some (String.ofList name)
  | _ => none

/-- Names of the commands that show how an array is laid out or what the call sites know, and of
the one that pins elements. -/
def tuningCommands : List String := ["stats", "kind", "seal"]

/-- Commands that carry no array and show nothing that depends on tuning. -/
def Command.IsUntuned : Command → Prop
  | kind | sites | pin _ | concat _ => False
  | set index _ => index ≤ maxLength
  | _ => True

/-- Commands that do the same in shells that agree. -/
inductive Command.Agree : Command → Command → Prop
  | untuned {command : Command} (h : command.IsUntuned) : Agree command command
  | concat {operands operands' : List Operand}
      (h : List.Forall₂ Operand.Equivalent operands operands') :
      Agree (.concat operands) (.concat operands')

/-! ### Outcomes of reading -/

/-- The same failure, or things read that `R` relates. -/
inductive Reads {α : Type} (R : α → α → Prop) : Except ShellError α → Except ShellError α → Prop
  | ok {a b : α} (h : R a b) : Reads R (.ok a) (.ok b)
  | error (e : ShellError) : Reads R (.error e) (.error e)

namespace Reads

variable {α β : Type} {R : α → α → Prop} {Q : β → β → Prop}

theorem pure {a b : α} (h : R a b) : Reads R (Pure.pure a) (Pure.pure b) := .ok h

theorem bind {r r' : Except ShellError α} {next next' : α → Except ShellError β}
    (h : Reads R r r') (hnext : ∀ a b, R a b → Reads Q (next a) (next' b)) :
    Reads Q (r >>= next) (r' >>= next') := by
  cases h with
  | ok hab => exact hnext _ _ hab
  | error e => exact .error e

/-- What is read in the same way in both shells. -/
theorem step {next next' : α → Except ShellError β} (r : Except ShellError α)
    (hnext : ∀ a, r = .ok a → Reads Q (next a) (next' a)) :
    Reads Q (r >>= next) (r >>= next') := by
  cases r with
  | ok a => exact hnext a rfl
  | error e => exact .error e

theorem mapM {r r' : α → Except ShellError β} (h : ∀ a, Reads Q (r a) (r' a)) (words : List α) :
    Reads (List.Forall₂ Q) (words.mapM r) (words.mapM r') := by
  induction words with
  | nil => exact .ok .nil
  | cons word rest ih =>
    rw [List.mapM_cons, List.mapM_cons]
    exact (h word).bind fun _ _ hfirst => ih.bind fun _ _ hrest => .ok (.cons hfirst hrest)

end Reads

/-! ### Operands -/

theorem eq_ok_of_reading {α : Type} {outcome : Except ReadError α} {a : α}
    (h : reading outcome = .ok a) : outcome = .ok a := by
  cases outcome with
  | ok b => exact congrArg Except.ok (Except.ok.inj h)
  | error e => cases h

theorem readIndex_le {word : Token} {index : Nat} (h : reading (readIndex word) = .ok index) :
    index ≤ maxLength := by
  rw [readIndex] at h
  split at h
  · rename_i n hn
    obtain ⟨-, hlt⟩ := Option.filter_eq_some_iff.mp hn
    obtain rfl : n = index := Except.ok.inj h
    exact Nat.le_of_lt_succ (of_decide_eq_true hlt)
  · cases h

/-- A list becomes an array of the shell that reads it. -/
theorem reads_readOperand (config config' : Config) (word : Token) :
    Reads Operand.Equivalent (readOperand config word) (readOperand config' word) := by
  rw [readOperand, readOperand]
  split
  · refine .step _ fun values _ => ?_
    split
    · exact .error _
    · rename_i hlength
      exact .ok (.array (Store.Equivalent.ofValues config config' (Nat.le_of_not_lt hlength)))
  · exact .step _ fun value _ => .ok (.value value)

/-! ### Commands -/

theorem reads_readSplice (operands : List Token) :
    Reads Command.Agree (readSplice operands) (readSplice operands) :=
  .step _ fun _ _ => .step _ fun _ _ => .step _ fun _ _ => .ok (.untuned trivial)

theorem reads_readFill (operands : List Token) :
    Reads Command.Agree (readFill operands) (readFill operands) := by
  cases operands with
  | nil => exact .error _
  | cons value range =>
    exact .step _ fun _ _ => .step _ fun _ _ => .step _ fun _ _ => .ok (.untuned trivial)

namespace State.Agree

variable {a b : State} (h : a.Agree b)

include h

theorem findBuffer_eq (word : Token) : a.findBuffer word = b.findBuffer word := by
  rw [findBuffer, findBuffer, h.memory_eq]

theorem findView_eq (word : Token) : a.findView word = b.findView word := by
  rw [findView, findView, h.views_eq]

theorem readLane_eq (form : Form) (operands : List Token) :
    readLane a form operands = readLane b form operands := by
  rw [readLane.eq_def, readLane.eq_def]
  simp only [h.findBuffer_eq, h.memory_eq]

theorem reads_readView (operands : List Token) :
    Reads Command.Agree (readView a operands) (readView b operands) := by
  cases operands with
  | nil => exact .error _
  | cons kind rest =>
    refine .step _ fun kind _ => ?_
    cases rest with
    | nil => exact .error _
    | cons word more =>
      dsimp only
      rw [h.findBuffer_eq]
      split
      · exact .step _ fun length _ => .ok (.untuned trivial)
      · split
        · exact .step _ fun buffer _ => .step _ fun offset _ => .step _ fun length _ =>
            .ok (.untuned trivial)
        · exact .error _

theorem reads_readCopy (operands : List Token) :
    Reads Command.Agree (readCopy a operands) (readCopy b operands) := by
  unfold readCopy
  split
  · refine .step _ fun start _ => ?_
    rw [h.findView_eq]
    refine .step _ fun view _ => ?_
    split
    · exact .step _ fun values _ => .ok (.untuned trivial)
    · rw [h.findView_eq]
      exact .step _ fun source _ => .ok (.untuned trivial)
  · exact .error _

theorem reads_readGetBytes (operands : List Token) :
    Reads Command.Agree (readGetBytes a operands) (readGetBytes b operands) := by
  rw [readGetBytes, readGetBytes, h.readLane_eq]
  exact .step _ fun lane _ => .step _ fun order _ => .ok (.untuned trivial)

theorem reads_readSetBytes (operands : List Token) :
    Reads Command.Agree (readSetBytes a operands) (readSetBytes b operands) := by
  rw [readSetBytes, readSetBytes, h.readLane_eq]
  refine .step _ ?_
  rintro ⟨view, kind, position, rest⟩ -
  cases rest with
  | nil => exact .error _
  | cons value rest => exact .step _ fun value _ => .step _ fun order _ => .ok (.untuned trivial)

theorem reads_readWords {name : Token} (hname : String.ofList name ∉ tuningCommands)
    (operands : List Token) :
    Reads Command.Agree (readWords a name operands) (readWords b name operands) := by
  unfold Shell.readWords
  simp only [h.findView_eq]
  split
  -- Words that are read alike, up to the command that they make.
  all_goals repeat with_reducible first
    | exact .error _
    | refine .pure ?_
    | refine .step _ fun _ _ => ?_
  all_goals first
    | exact .untuned trivial
    | exact .untuned (readIndex_le ‹_›)
    | exact (Reads.mapM (reads_readOperand _ _) _).bind fun _ _ ho => .ok (.concat ho)
    | with_reducible exact h.reads_readView _
    | with_reducible exact h.reads_readCopy _
    | with_reducible exact h.reads_readGetBytes _
    | with_reducible exact h.reads_readSetBytes _
    | with_reducible exact reads_readSplice _
    | with_reducible exact reads_readFill _
    | split <;> first | exact .error _ | exact .ok (.untuned trivial)
    | exact absurd (by simp [tuningCommands, *]) hname

/-- Both shells find no command on a line, or commands that agree. -/
theorem reads_readLine {line : List Char}
    (hline : ∀ name ∈ commandName? line, name ∉ tuningCommands) :
    Reads (Option.Rel Command.Agree) (readLine a line) (readLine b line) := by
  refine .step _ fun words hwords => ?_
  cases words with
  | nil => exact .ok .none
  | cons name operands =>
    refine (h.reads_readWords (hline _ ?_) operands).bind fun _ _ hcommand => .ok (.some hcommand)
    rw [Option.mem_def, commandName?, eq_ok_of_reading hwords]

end State.Agree

end ArrayEngine.Shell
