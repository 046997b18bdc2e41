import ArrayEngine.Error

/-!
# Edits that may stop

An edit of a state either finishes with a result or stops with a failure, and in both cases it
leaves a state: what had been changed before a failure stays changed.
-/

namespace ArrayEngine

/-- An edit of a state `σ` with a result `α`. -/
abbrev Edit (σ α : Type) := ExceptT EngineError (StateM σ) α

/-- Performs an edit. -/
def Edit.perform {σ α : Type} (edit : Edit σ α) (state : σ) : Except EngineError α × σ :=
  edit.run.run state

/-- Performs a block operation where it applies, and otherwise an edit of the unchanged state. -/
def Edit.orElse {σ α : Type} (block : σ → Option (α × σ)) (edit : Edit σ α) : Edit σ α := fun s =>
  match block s with
  | some (a, s) => (.ok a, s)
  | none => edit s

end ArrayEngine
