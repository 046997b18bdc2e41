import ArrayEngine.Bulk.Access
import ArrayEngine.Proofs.Bulk.Stepwise

/-!
# What operations preserve

Whatever is made of steps keeps every stable invariant, whether it finishes or stops at an index
that may not be removed; so does a block operation, and so does a choice between the two.

## Main results

* `Stable.keeps`: algorithms that go index by index
* `Stable.keeps_push`, … , `Stable.keeps_reverse`: as one block or index by index
* `Stable.visiblePart`, `Stable.genericConcat`: stores that are built from others
-/

namespace ArrayEngine.Store

open Edit (Answers Keeps)

theorem lengthOf?_le {v : Value} {n : Nat} (h : lengthOf? v = some n) : n ≤ maxLength := by
  simp only [lengthOf?, Option.ite_none_right_eq_some, Option.some.injEq] at h
  obtain ⟨-, rfl⟩ := h
  have hpow : Nat.pow 2 32 = maxLength + 1 := by decide
  have := Int.emod_lt_of_pos v.toNumber.toInt (show (0 : Int) < Nat.pow 2 32 by decide)
  rw [Binary.Double.toUnsigned]
  omega

theorem perform_unshift (values : List Value) (host : Host) (s : Store) :
    (unshift values host).perform s =
      match s.shiftRight values.length host with
      | some t => (do assignAll 0 values; return (← get).length : Edit Store Nat).perform t
      | none => (genericUnshift values host).perform s := by
  simp only [Edit.perform, ExceptT.run, StateT.run, unshift]
  cases s.shiftRight values.length host <;> rfl

theorem perform_splice {start count : Option Binary.Double} {s : Store} {first n : Nat}
    (hbounds : spliceBounds s.length start count = (first, n)) (values : List Value)
    (host : Host) :
    (splice start count values host).perform s =
      match s.fastSplice first n values.length host with
      | some (removed, t) =>
        (do assignAll first values; return removed : Edit Store Store).perform t
      | none => (genericSplice first n values host).perform s := by
  simp only [Edit.perform, ExceptT.run, StateT.run, splice, hbounds]
  cases s.fastSplice first n values.length host <;> rfl

namespace Stable

variable {I : Store → Prop} (h : Stable I)

include h

theorem keeps {α : Type} {host : Host} {edit : Edit Store α} (hedit : Stepwise host edit) :
    Keeps I edit := hedit.keeps (h.steady host)

-- Under which host elements are written does not matter.
theorem keeps_assign {i : Nat} (hi : i ≤ maxLength) (v : Value) : Keeps I (assign i v) :=
  h.keeps (show Stepwise .plain _ from .assign hi v)

theorem keeps_assignAll {start : Nat} {values : List Value}
    (hn : start + values.length ≤ maxLength) : Keeps I (assignAll start values) :=
  h.keeps (show Stepwise .plain _ from .assignAll hn)

/-! ### Stores built from others -/

omit h in
/-- What an edit of an empty store keeps holds of the store it makes. -/
theorem of_build {config : Config} {edit : Edit Store Unit} {t : Store} (hempty : I (empty config))
    (hkeeps : Keeps I edit) (ht : build config edit = .ok t) : I t := by
  have hfinal := hkeeps _ hempty
  rw [build] at ht
  split at ht
  · rename_i s hs
    rw [hs] at hfinal
    cases ht
    exact hfinal
  · cases ht

theorem visiblePart {s t : Store} {host : Host} {start count : Nat} (hempty : I (empty s.config))
    (hn : count ≤ maxLength) (ht : s.visiblePart host start count = .ok t) : I t :=
  of_build hempty (h.keeps (stepwise_copyPart s host start hn)) ht

theorem genericConcat {s t : Store} {operands : List Operand} {host : Host}
    (hempty : I (empty s.config)) (ht : s.genericConcat operands host = .ok t) : I t :=
  of_build hempty (h.keeps (stepwise_copyOperands (.array s :: operands) host)) ht

/-! ### Blocks or index by index -/

theorem keeps_setIndex {i : Nat} (hi : i ≤ maxLength) (v : Value) : Keeps I (setIndex i v) := by
  refine Keeps.orElse (fun s _ t hs heq => ?_) (h.keeps_assign hi v)
  obtain ⟨u, hset, heq⟩ := Option.map_eq_some_iff.mp heq
  cases heq
  exact h.fastSet hs hset

theorem keeps_push (values : List Value) (host : Host) : Keeps I (push values host) :=
  Keeps.orElse (fun _ _ _ hs hpush => h.fastPush hs hpush)
    (h.keeps (stepwise_genericPush values host))

theorem keeps_pop (host : Host) : Keeps I (pop host) :=
  Keeps.orElse (fun _ _ _ hs hpop => h.fastPop hs hpop) (h.keeps (stepwise_genericPop host))

theorem shiftLeft {s t removed : Store} {n : Nat} {host : Host} (hs : I s)
    (hshift : s.shiftLeft n host = some (removed, t)) : I t := by
  simp only [Store.shiftLeft, Option.ite_none_left_eq_some] at hshift
  exact h.fastSplice hs hshift.2

theorem shiftRight {s t : Store} {n : Nat} {host : Host} (hs : I s)
    (hshift : s.shiftRight n host = some t) : I t := by
  obtain ⟨⟨removed, u⟩, hsplice, rfl⟩ := Option.map_eq_some_iff.mp hshift
  exact h.fastSplice hs hsplice

theorem keeps_shift (host : Host) : Keeps I (shift host) := by
  refine Keeps.orElse (fun s v t hs heq => ?_) (h.keeps (stepwise_genericShift host))
  simp only [fastShift, Option.ite_none_left_eq_some, Option.map_eq_some_iff] at heq
  obtain ⟨-, ⟨removed, u⟩, hshift, heq⟩ := heq
  cases heq
  exact h.shiftLeft hs hshift

theorem keeps_unshift (values : List Value) (host : Host) : Keeps I (unshift values host) := by
  intro s hs
  rw [perform_unshift]
  split
  · rename_i t hshift
    obtain ⟨⟨removed, u⟩, hsplice, rfl⟩ := Option.map_eq_some_iff.mp hshift
    have hn := (fastSplice_bounds hsplice).2.2
    have hkeeps : Keeps I (do assignAll 0 values; return (← get).length : Edit Store Nat) :=
      Keeps.bind (h.keeps_assignAll (by omega)) fun _ => Keeps.get fun _ _ => Keeps.pure _
    exact hkeeps u (h.fastSplice hs hsplice)
  · exact h.keeps (stepwise_genericUnshift values host) s hs

theorem keeps_splice (start count : Option Binary.Double) (values : List Value) (host : Host) :
    Keeps I (splice start count values host) := by
  intro s hs
  obtain ⟨first, n, hbounds⟩ : ∃ first n, spliceBounds s.length start count = (first, n) :=
    ⟨_, _, rfl⟩
  rw [perform_splice hbounds]
  split
  · rename_i removed t hsplice
    obtain ⟨hstart, hcount, hn⟩ := fastSplice_bounds hsplice
    have hkeeps : Keeps I (do assignAll first values; return removed : Edit Store Store) :=
      Keeps.bind (h.keeps_assignAll (by omega)) fun _ => Keeps.pure _
    exact hkeeps t (h.fastSplice hs hsplice)
  · exact (h.steady host).keeps_genericSplice first n values s hs

theorem keeps_reverse (host : Host) : Keeps I (reverse host) := by
  refine Keeps.orElse (fun s _ t hs heq => ?_) (h.keeps (stepwise_genericReverse host))
  obtain ⟨u, hreverse, heq⟩ := Option.map_eq_some_iff.mp heq
  cases heq
  exact h.fastReverse hs hreverse

/-! ### Lengths -/

theorem truncate {s : Store} (hs : I s) (n : Nat) (host : Host) : I (s.truncate n host).2 := by
  by_cases hn : s.length ≤ n
  · rw [Store.truncate, if_pos hn]
    exact hs
  · have hset := h.setLength (n := n) host hs (by have := h.length_le hs; omega)
    rwa [Store.setLength, if_neg hn] at hset

theorem keeps_assignLengthValue (host : Host) (v : Value) : Keeps I (assignLengthValue host v) := by
  rw [assignLengthValue]
  cases hn : lengthOf? v with
  | none => exact Keeps.throw _
  | some n => exact h.keeps (.assignLength (lengthOf?_le hn))

end Stable

/-! ### Answered stores -/

variable {s t : Store}

theorem valid_genericSlice {host : Host} {start stop : Nat} (hn : stop - start ≤ maxLength)
    (ht : s.genericSlice start stop host = .ok t) : t.Valid :=
  stable_valid.visiblePart (valid_empty _) hn ht

theorem valid_slice (h : s.Valid) {host : Host} {start : Binary.Double}
    {stop : Option Binary.Double} (ht : s.slice start stop host = .ok t) : t.Valid := by
  have hlength := h.length_le
  have hmax : maxLength < 2 ^ 53 := by decide
  have hstop := adjustEnd_le (show s.length ≤ 2 ^ 53 by omega) stop
  simp only [slice] at ht
  split at ht
  · rename_i part hpart
    cases ht
    exact (fastSlice_spec h hpart).1
  · exact valid_genericSlice (by omega) ht

theorem answers_genericSplice (start count : Nat) (values : List Value) (host : Host) :
    Answers Valid Valid (genericSplice start count values host) := by
  rw [genericSplice_eq]
  refine Answers.get fun s hs => answers_checkLength fun hn => Answers.get fun t _ => ?_
  have hlength := hs.length_le
  refine Answers.ofExcept ?_
  intro removed hremoved
  refine Answers.bind (stable_valid.keeps (stepwise_replaceWindow host ?_ hn)) fun _ => ?_
  · omega
  · exact Answers.pure (stable_valid.visiblePart (valid_empty _) (by omega) hremoved)

theorem answers_splice (start count : Option Binary.Double) (values : List Value) (host : Host) :
    Answers Valid Valid (splice start count values host) := by
  intro s hs removed t heq
  obtain ⟨first, n, hbounds⟩ : ∃ first n, spliceBounds s.length start count = (first, n) :=
    ⟨_, _, rfl⟩
  rw [perform_splice hbounds] at heq
  split at heq
  · rename_i r u hsplice
    obtain ⟨hstart, hcount, hn⟩ := fastSplice_bounds hsplice
    have hanswers : Answers Valid Valid (do assignAll first values; return r : Edit Store Store) :=
      Answers.bind (stable_valid.keeps_assignAll (by omega)) fun _ =>
        Answers.pure (fastSplice_spec hs hsplice).1.1
    exact hanswers u (stable_valid.fastSplice hs hsplice) removed t heq
  · exact answers_genericSplice first n values host s hs removed t heq

theorem valid_genericConcat {operands : List Operand} {host : Host}
    (ht : s.genericConcat operands host = .ok t) : t.Valid :=
  stable_valid.genericConcat (valid_empty _) ht

end ArrayEngine.Store
