import ArrayEngine.Edit

/-!
# Reasoning about edits

An edit that stops leaves the state as it was then, so what is said of an edit is said of both its
endings. `Edit.Keeps` is partial in this sense: whichever way the edit ends, an invariant that
held before holds afterwards. It follows the edit's structure; a step in the middle of an edit may
rely on the checks before it and on the state it has read.

## Main definitions

* `Edit.Keeps`: an invariant survives an edit, finished or not
* `Edit.Answers`: what is known of the answer of an edit that finishes

## Main results

* `Edit.perform_bind`: the second part of an edit runs where the first one has finished
* `Edit.Keeps.bind`, `Edit.Keeps.get`, `Edit.Keeps.forM`, `Edit.Keeps.orElse`
-/

namespace ArrayEngine.Edit

variable {σ α β : Type}

/-! ### Performing an edit -/

@[simp] theorem perform_pure (a : α) (s : σ) : (pure a : Edit σ α).perform s = (.ok a, s) := rfl

@[simp] theorem perform_throw (e : EngineError) (s : σ) :
    (throw e : Edit σ α).perform s = (.error e, s) := rfl

@[simp] theorem perform_get (s : σ) : (get : Edit σ σ).perform s = (.ok s, s) := rfl

@[simp] theorem perform_modify (f : σ → σ) (s : σ) :
    (modify f : Edit σ Unit).perform s = (.ok (), f s) := rfl

@[simp] theorem perform_ofExcept (r : Except EngineError α) (s : σ) :
    (MonadExcept.ofExcept r : Edit σ α).perform s = (r, s) := by
  cases r <;> rfl

theorem perform_bind (edit : Edit σ α) (next : α → Edit σ β) (s : σ) :
    (edit >>= next).perform s =
      match edit.perform s with
      | (.ok a, t) => (next a).perform t
      | (.error e, t) => (.error e, t) := by
  simp only [perform, ExceptT.run, bind, ExceptT.bind, ExceptT.mk, StateT.run, StateT.bind,
    ExceptT.bindCont]
  cases edit s with
  | mk r t => cases r <;> rfl

theorem perform_bind_ok {edit : Edit σ α} {s t : σ} {a : α} (h : edit.perform s = (.ok a, t))
    (next : α → Edit σ β) : (edit >>= next).perform s = (next a).perform t := by
  rw [perform_bind, h]

theorem perform_get_bind (next : σ → Edit σ β) (s : σ) :
    (get >>= next).perform s = (next s).perform s := perform_bind_ok (perform_get s) next

theorem perform_orElse (block : σ → Option (α × σ)) (edit : Edit σ α) (s : σ) :
    (orElse block edit).perform s =
      match block s with
      | some (a, t) => (.ok a, t)
      | none => edit.perform s := rfl

theorem forM_cons (x : β) (xs : List β) (f : β → Edit σ Unit) :
    (x :: xs).forM f = f x >>= fun _ => xs.forM f := rfl

/-! ### Invariants -/

/-- Whichever way the edit ends, `I` holds afterwards if it held before. -/
def Keeps (I : σ → Prop) (edit : Edit σ α) : Prop := ∀ s, I s → I (edit.perform s).2

namespace Keeps

variable {I : σ → Prop}

theorem pure (a : α) : Keeps I (Pure.pure a : Edit σ α) := fun _ hs => hs

theorem throw (e : EngineError) : Keeps I (MonadExcept.throw e : Edit σ α) := fun _ hs => hs

theorem modify {f : σ → σ} (h : ∀ s, I s → I (f s)) : Keeps I (modify f : Edit σ Unit) := h

theorem ofExcept (r : Except EngineError α) : Keeps I (MonadExcept.ofExcept r : Edit σ α) := by
  intro s hs
  rwa [perform_ofExcept]

theorem bind {edit : Edit σ α} {next : α → Edit σ β} (h : Keeps I edit)
    (hnext : ∀ a, Keeps I (next a)) : Keeps I (edit >>= next) := by
  intro s hs
  have ht := h s hs
  rw [perform_bind]
  generalize edit.perform s = outcome at ht ⊢
  obtain ⟨_ | a, t⟩ := outcome
  · exact ht
  · exact hnext a t ht

/-- What follows on a read state is to be shown for a state with the invariant only. -/
theorem get {next : σ → Edit σ β} (hnext : ∀ s, I s → Keeps I (next s)) :
    Keeps I (MonadState.get >>= next) := by
  intro s hs
  rw [perform_get_bind]
  exact hnext s hs s hs

theorem forM {f : β → Edit σ Unit} {xs : List β} (h : ∀ x ∈ xs, Keeps I (f x)) :
    Keeps I (xs.forM f) := by
  induction xs with
  | nil => exact pure ()
  | cons x xs ih =>
    rw [forM_cons]
    exact bind (h x List.mem_cons_self) fun _ => ih fun y hy => h y (List.mem_cons_of_mem _ hy)

theorem orElse {block : σ → Option (α × σ)} {edit : Edit σ α}
    (hblock : ∀ s a t, I s → block s = some (a, t) → I t) (h : Keeps I edit) :
    Keeps I (orElse block edit) := by
  intro s hs
  rw [perform_orElse]
  split
  · rename_i a t ht
    exact hblock s a t hs ht
  · exact h s hs

end Keeps

/-! ### Answers -/

/-- The edit answers, if it finishes, with something of which `P` holds. -/
def Answers (I : σ → Prop) (P : α → Prop) (edit : Edit σ α) : Prop :=
  ∀ s, I s → ∀ a t, edit.perform s = (.ok a, t) → P a

namespace Answers

variable {I : σ → Prop} {P : β → Prop}

theorem pure {b : β} (h : P b) : Answers I P (Pure.pure b : Edit σ β) := by
  rintro s - b' t ⟨⟩
  exact h

theorem get {next : σ → Edit σ β} (hnext : ∀ s, I s → Answers I P (next s)) :
    Answers I P (MonadState.get >>= next) := by
  intro s hs
  rw [perform_get_bind]
  exact hnext s hs s hs

theorem bind {edit : Edit σ α} {next : α → Edit σ β} (h : Keeps I edit)
    (hnext : ∀ a, Answers I P (next a)) : Answers I P (edit >>= next) := by
  intro s hs b t heq
  have ht := h s hs
  rw [perform_bind] at heq
  generalize edit.perform s = outcome at ht heq
  obtain ⟨_ | a, u⟩ := outcome
  · cases heq
  · exact hnext a u ht b t heq

theorem ofExcept {r : Except EngineError α} {next : α → Edit σ β}
    (hnext : ∀ a, r = .ok a → Answers I P (next a)) :
    Answers I P (MonadExcept.ofExcept r >>= next) := by
  intro s hs b t heq
  rw [perform_bind, perform_ofExcept] at heq
  cases r with
  | error e => cases heq
  | ok a => exact hnext a rfl s hs b t heq

end Answers

end ArrayEngine.Edit
