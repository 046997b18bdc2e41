import ArrayEngine.Proofs.Store.Step

/-!
# Edits that are made of steps

The index-by-index algorithms differ in the order of their steps and in what they read between
them, and in nothing else. `Store.Stepwise` says so of an edit, once for each algorithm; what every
step does to a store then follows for the whole edit by one induction.

An edit may read the store it works on, but only what the store stands for: how elements are kept
is not to be seen by it.

## Main definitions

* `Store.Stepwise`: edits that consist of steps under a host
* `Store.Steady`: invariants that no step under a host breaks

## Main results

* `Store.Stepwise.keeps`: such an edit keeps such an invariant, whichever way it ends
* `Store.Stepwise.forM`, `Store.Stepwise.transfer`, `Store.Stepwise.assignAll`,
  `Store.Stepwise.checkLength`
-/

namespace ArrayEngine.Store

open Edit (Keeps)

/-- Edits that consist of steps, and ask `host` only which elements may be removed. -/
inductive Stepwise (host : Host) : {α : Type} → Edit Store α → Prop
  | pure {α : Type} (a : α) : Stepwise host (Pure.pure a)
  | throw {α : Type} (e : EngineError) : Stepwise host (MonadExcept.throw e : Edit Store α)
  | assign {i : Nat} (hi : i ≤ maxLength) (v : Value) : Stepwise host (assign i v)
  | discard (i : Nat) : Stepwise host (discard host i)
  | assignLength {n : Nat} (hn : n ≤ maxLength) : Stepwise host (assignLength host n)
  | widenTo (kind : ElementKind) : Stepwise host (modify (·.widenTo kind))
  | bind {α β : Type} {edit : Edit Store α} {next : α → Edit Store β}
    (h : Stepwise host edit) (hnext : ∀ a, Stepwise host (next a)) : Stepwise host (edit >>= next)
  | read {α : Type} {next : Store → Edit Store α}
    (hnext : ∀ s, s.length ≤ maxLength → Stepwise host (next s))
    (hcongr : ∀ s t, s.toSparse = t.toSparse → next s = next t) : Stepwise host (get >>= next)

namespace Stepwise

variable {host : Host} {α β : Type}

theorem forM {f : β → Edit Store Unit} {xs : List β} (h : ∀ x ∈ xs, Stepwise host (f x)) :
    Stepwise host (xs.forM f) := by
  induction xs with
  | nil => exact .pure ()
  | cons x xs ih =>
    rw [Edit.forM_cons]
    exact .bind (h x List.mem_cons_self) fun _ => ih fun y hy => h y (List.mem_cons_of_mem _ hy)

theorem transfer (source : Nat) {target : Nat} (ht : target ≤ maxLength) :
    Stepwise host (transfer host source target) := by
  refine .read ?_ ?_
  · intro s _
    split
    · exact .assign ht _
    · exact .discard target
  · intro s t h
    rw [← visible_toSparse, h, visible_toSparse]

theorem assignAll {start : Nat} {values : List Value} (hn : start + values.length ≤ maxLength) :
    Stepwise host (assignAll start values) := by
  refine forM ?_
  rintro ⟨v, i⟩ hmem
  have hi := (List.mem_zipIdx hmem).2.1
  exact .assign (by omega) v

/-- What follows on a checked length may rely on it. -/
theorem checkLength {n : Nat} {next : Unit → Edit Store α}
    (hnext : n ≤ maxLength → Stepwise host (next ())) :
    Stepwise host (checkLength n >>= next) := by
  rw [Store.checkLength]
  split
  · rename_i hn
    exact hnext hn
  · exact .throw _

end Stepwise

/-! ### Invariants -/

/-- An invariant that no step under a host breaks. -/
structure Steady (host : Host) (I : Store → Prop) : Prop where
  length_le {s : Store} : I s → s.length ≤ maxLength
  put {s : Store} {i : Nat} (v : Value) : I s → i < maxLength → I (s.put i v)
  remove {s : Store} {i : Nat} : I s → (s.has i → host.deletable i) → I (s.remove i)
  setLength {s : Store} {n : Nat} : I s → n ≤ maxLength → I (s.setLength n host).2
  widenTo {s : Store} (kind : ElementKind) : I s → I (s.widenTo kind)

theorem Stable.steady {I : Store → Prop} (h : Stable I) (host : Host) : Steady host I where
  length_le := h.length_le
  put v hs hi := h.put v hs hi
  remove hs _ := h.remove _ hs
  setLength hs hn := h.setLength host hs hn
  widenTo kind hs := h.widenTo kind hs

theorem perform_assignLength (host : Host) (n : Nat) (s : Store) :
    ((assignLength host n).perform s).2 = (s.setLength n host).2 := by
  simp only [Edit.perform, ExceptT.run, StateT.run, assignLength]
  split <;> simp_all only

theorem perform_assignLength_self (host : Host) (s : Store) :
    (assignLength host s.length).perform s = (.ok (), s) := by
  simp [Edit.perform, ExceptT.run, StateT.run, assignLength, setLength]

/-- What no step breaks holds at the end of an edit, whether it has finished or stopped. -/
theorem Stepwise.keeps {host : Host} {I : Store → Prop} {α : Type} {edit : Edit Store α}
    (h : Stepwise host edit) (hI : Steady host I) : Keeps I edit := by
  induction h with
  | pure a => exact Keeps.pure a
  | throw e => exact Keeps.throw e
  | @assign i hi v =>
    intro s hs
    simp only [Edit.perform, ExceptT.run, StateT.run, Store.assign]
    split
    · exact hs
    · exact hI.put v hs (by omega)
  | discard i =>
    intro s hs
    simp only [Edit.perform, ExceptT.run, StateT.run, Store.discard]
    split
    · exact hs
    · rename_i hdeletable
      refine hI.remove hs ?_
      intro hhas
      rw [hhas, Bool.true_and, Bool.not_eq_true'] at hdeletable
      exact Bool.eq_true_of_not_eq_false hdeletable
  | assignLength hn =>
    intro s hs
    rw [perform_assignLength]
    exact hI.setLength hs hn
  | widenTo kind => exact Keeps.modify fun _ => hI.widenTo kind
  | bind _ _ ih ihnext => exact Keeps.bind ih ihnext
  | read _ _ ih => exact Keeps.get fun s hs => ih s (hI.length_le hs)

end ArrayEngine.Store
