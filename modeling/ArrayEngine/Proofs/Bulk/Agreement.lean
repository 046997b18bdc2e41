import ArrayEngine.Proofs.Bulk.Ends
import ArrayEngine.Proofs.Bulk.Order
import ArrayEngine.Proofs.Operation

/-!
# Blocks and single elements agree

Moving elements as one block and moving them index by index come to the same thing, on every
reachable store and for all arguments.

## Implementation notes

Index by index, what is left over behind a shorter array is removed, which a host may refuse; a
block operation does not ask. Where elements are only written or overwritten no host is asked, so
that the agreement is then unconditional.

That the store be continuous is not asked for: on any other store the block operations do not
apply, and there is but one way to go.
-/

namespace ArrayEngine.Store

/-- The block operations apply to the store: all of them, wherever the lengths permit. -/
structure BlocksApply (s : Store) (host : Host) : Prop where
  fastPush (values : List Value) :
    (s.fastPush values host).isSome ↔ s.length + values.length ≤ maxLength
  fastPop : (s.fastPop host).isSome ↔ 0 < s.length
  fastShift : (s.fastShift host).isSome ↔ 0 < s.length
  shiftRight (n : Nat) : (s.shiftRight n host).isSome ↔ s.length + n ≤ maxLength
  fastSplice (start count inserted : Nat) : (s.fastSplice start count inserted host).isSome ↔
    start ≤ s.length ∧ count ≤ s.length - start ∧ s.length - count + inserted ≤ maxLength
  fastReverse : (s.fastReverse host).isSome

theorem blocksApply {s : Store} (h : s.Valid) {host : Host} (hcontinuous : s.isContinuous host) :
    s.BlocksApply host where
  fastPush := isSome_fastPush h hcontinuous
  fastPop := isSome_fastPop h hcontinuous
  fastShift := by
    rw [Store.fastShift, shiftLeft]
    split
    · rename_i hzero
      exact iff_of_false Bool.false_ne_true (Nat.not_lt.mpr hzero.le)
    · rename_i hne
      have hle := h.length_le
      rw [if_neg (by omega), Option.isSome_map, isSome_fastSplice h hcontinuous]
      omega
  shiftRight n := by
    rw [Store.shiftRight, Option.isSome_map, isSome_fastSplice h hcontinuous]
    omega
  fastSplice := isSome_fastSplice h hcontinuous
  fastReverse := isSome_fastReverse h hcontinuous

/-- **Block operations agree with index-by-index ones.** With their fallback they answer the same or
fail in the same way, and leave stores that no observation tells apart. On a continuous store it is
the block operations that are compared. -/
theorem Reachable.block_agrees {s : Store} (h : Reachable s) (host : Host) :
    (s.isContinuous host → s.BlocksApply host) ∧
    (∀ values, SameEnding Eq ((push values host).perform s)
      ((genericPush values host).perform s)) ∧
    (∀ values, SameEnding Eq ((unshift values host).perform s)
      ((genericUnshift values host).perform s)) ∧
    SameEnding Eq ((reverse host).perform s) ((genericReverse host).perform s) ∧
    ((∀ i < s.length, host.deletable i) →
      SameEnding Eq ((pop host).perform s) ((genericPop host).perform s) ∧
      SameEnding Eq ((shift host).perform s) ((genericShift host).perform s) ∧
      ∀ start count values,
        let (first, n) := spliceBounds s.length start count
        SameEnding SameElements ((splice start count values host).perform s)
          ((genericSplice first n values host).perform s)) := by
  have hvalid := h.valid
  refine ⟨blocksApply hvalid, fun values => push_sameEnding hvalid values host,
    fun values => unshift_sameEnding hvalid values host, reverse_sameEnding hvalid host,
    fun hhost => ?_⟩
  have hlast : 0 < s.length → host.deletable (s.length - 1) := fun hpos =>
    hhost _ (Nat.sub_lt hpos Nat.one_pos)
  exact ⟨pop_sameEnding hvalid hlast, shift_sameEnding hvalid hlast,
    fun start count values => splice_sameEnding hvalid rfl values hhost⟩

/-- Both elements of an array of two are removed, as blocks and index by index. -/
theorem block_agrees_of_two :
    let s := ofValues {} [.null, .undefined]
    s.isContinuous .plain = true ∧
      SameEnding Eq ((pop .plain).perform s) ((genericPop .plain).perform s) ∧
      SameEnding Eq ((shift .plain).perform s) ((genericShift .plain).perform s) := by
  have hagrees := Reachable.block_agrees (.ofValues {} [.null, .undefined] (by decide)) .plain
  obtain ⟨hpop, hshift, -⟩ := hagrees.2.2.2.2 fun _ _ => rfl
  exact ⟨rfl, hpop, hshift⟩

end ArrayEngine.Store
