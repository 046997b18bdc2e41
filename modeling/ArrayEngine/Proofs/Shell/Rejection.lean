import ArrayEngine.Proofs.Shell.OnePass

/-!
# Rejected lines have no effect

A line is rejected if it is not read as a command. Nothing has been carried out then, and the shell
is what it was before the line. In a script such a line can be left out: the other lines find the
same shell without it. A line whose command fails is another matter, since a command may have
changed something before it fails.

## Main definitions

* `ShellError.isRejection`: errors of lines that are not read as commands
* `State.accepted`: lines of a script that are not rejected

## Main results

* `State.evalLine_of_isRejection`: one line, read first or gone through once
* `State.evalLines_accepted`: scripts without the lines that are rejected
-/

namespace ArrayEngine.Shell

open Program

/-! ### Lines -/

/-- The line has not been read as a command, so that none has been carried out. -/
def ShellError.isRejection : ShellError → Bool
  | engine _ => false
  | unreadable _ | unknownCommand _ | unknownHandle _ _ | usage _ => true

namespace State

variable {state : State} {line : List Char}

/-- Whether an outcome is the rejection of a line. -/
def isRejected : Except ShellError String → Bool
  | .ok _ => false
  | .error e => e.isRejection

/-- A command that is carried out may fail, but it is not rejected any more. -/
theorem isRejected_mapError (result : Except EngineError String) :
    isRejected (result.mapError .engine) = false := by
  cases result <;> rfl

theorem evalLine_snd_of_isRejected (h : isRejected (state.evalLine line).1) :
    (state.evalLine line).2 = state := by
  unfold evalLine at h ⊢
  split at h
  · rfl
  · rfl
  · rename_i command _
    exact absurd h (by simp [isRejected_mapError])

/-- **A rejected line has no effect.** If a line is rejected because it or one of its words cannot
be read, because it names no command or no buffer or view, or because its command takes other
operands, then the shell is the same afterwards: its array, its host, its memory, its views and its
call sites. This is so as well if the line is gone through once, with changes made on the way. -/
theorem evalLine_of_isRejection (state : State) (line : List Char) (e : ShellError)
    (hline : (state.evalLine line).1 = .error e) (he : e.isRejection) :
    (state.evalLine line).2 = state ∧ (evalInOnePass line).perform state = (.error e, state) := by
  have hsame : (state.evalLine line).2 = state := by
    refine evalLine_snd_of_isRejected ?_
    rw [hline]
    exact he
  refine ⟨hsame, ?_⟩
  rw [perform_evalInOnePass]
  exact Prod.ext hline hsame

/-- The list and the first value of a concatenation are read before the last word is found to be no
value. -/
theorem evalLine_of_isRejection_of_concat :
    let state := ((fresh {}).evalLine "push null".toList).2
    let line := "concat [null] null n".toList
    (state.evalLine line).1 = .error (.unreadable (.notValue "n".toList)) ∧
      (state.evalLine line).2 = state := by
  intro state line
  have hline : (state.evalLine line).1 = .error (.unreadable (.notValue "n".toList)) := rfl
  exact ⟨hline, (evalLine_of_isRejection state line _ hline rfl).1⟩

/-! ### Scripts -/

/-- Lines of a script without those that are rejected where they stand. -/
def accepted (state : State) : List (List Char) → List (List Char)
  | [] => []
  | line :: rest =>
    if isRejected (state.evalLine line).1 then (state.evalLine line).2.accepted rest
    else line :: (state.evalLine line).2.accepted rest

/-- Rejected lines can be left out: the others have the outcomes that they had, and the state in
the end is the same. -/
theorem evalLines_accepted (state : State) (lines : List (List Char)) :
    state.evalLines (state.accepted lines) =
      ((state.evalLines lines).1.filter (!isRejected ·), (state.evalLines lines).2) := by
  induction lines generalizing state with
  | nil => rfl
  | cons line rest ih =>
    rw [accepted, evalLines_cons]
    cases hline : isRejected (state.evalLine line).1 with
    | true =>
      have hsame := evalLine_snd_of_isRejected hline
      rw [if_pos rfl, List.filter_cons_of_neg (by simp [hline]), hsame]
      exact ih state
    | false =>
      rw [if_neg Bool.false_ne_true, evalLines_cons, List.filter_cons_of_pos (by simp [hline]),
        ih]

end State

end ArrayEngine.Shell
