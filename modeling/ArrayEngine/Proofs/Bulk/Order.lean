import ArrayEngine.Proofs.Bulk.Invariant
import ArrayEngine.Proofs.Store.Alike

/-!
# Reversing, by sparse arrays

Exchanging elements at equal distances from the ends, from the ends inwards, reverses an array
without holes: after `k` exchanges the `k` elements at either end are in reverse order.

## Main results

* `Store.takes_genericReverse`: index by index
* `Store.reverse_sameEnding`: block or index by index
-/

namespace ArrayEngine

namespace SparseArray

/-- The `k` indices at either end in reverse order, and those between them as they are. -/
def reverseEnds (a : SparseArray) (k : Nat) : SparseArray :=
  ofFn a.length a.kind fun i =>
    if i < k ∨ a.length - k ≤ i then a.get? (a.length - 1 - i) else a.get? i

variable {a : SparseArray}

theorem get?_reverseEnds {i : Nat} (k : Nat) (hi : i < a.length) :
    (a.reverseEnds k).get? i =
      if i < k ∨ a.length - k ≤ i then a.get? (a.length - 1 - i) else a.get? i := if_pos hi

@[simp] theorem reverseEnds_zero (a : SparseArray) : a.reverseEnds 0 = a := by
  refine ext_of_lt rfl rfl ?_
  intro i hi
  have hi : i < a.length := hi
  rw [get?_reverseEnds 0 hi, if_neg (by omega)]

/-- Once half of the elements have been exchanged for the others, all are in reverse order. -/
theorem reverseEnds_half (a : SparseArray) : a.reverseEnds (a.length / 2) = a.reverse := by
  refine ext_of_lt rfl rfl ?_
  intro i hi
  have hi : i < a.length := hi
  rw [get?_reverseEnds _ hi, get?_reverse hi]
  split
  · rfl
  · -- Only the element in the middle has not moved.
    exact congrArg a.get? (by omega)

/-- One more exchange, of the outermost elements that are as they were. -/
theorem put_reverseEnds_eq_succ (ha : a.Held) {k : Nat} (hk : k < a.length / 2) {v w : Value}
    (hv : a.get? k = some v) (hw : a.get? (a.length - k - 1) = some w) :
    ((a.reverseEnds k).put k w).put (a.length - k - 1) v = a.reverseEnds (k + 1) := by
  refine ext_of_lt ?_ ?_ ?_
  · show max (max a.length (k + 1)) (a.length - k - 1 + 1) = a.length
    omega
  · show (a.kind.join (.of w)).join (.of v) = a.kind
    rw [ElementKind.join_of_holds (ha _ _ hw), ElementKind.join_of_holds (ha _ _ hv)]
  · intro i hi
    have hi : i < a.length := by
      rw [length_put, length_put] at hi
      have hlength : (a.reverseEnds k).length = a.length := rfl
      omega
    rw [get?_put, get?_put, get?_reverseEnds _ hi, get?_reverseEnds _ hi]
    by_cases hupper : i = a.length - k - 1
    · rw [if_pos hupper, if_pos (by omega), ← hv]
      exact congrArg a.get? (by omega)
    · rw [if_neg hupper]
      by_cases hlower : i = k
      · rw [if_pos hlower, if_pos (by omega), ← hw]
        exact congrArg a.get? (by omega)
      · rw [if_neg hlower]
        exact if_congr (by omega) rfl rfl

end SparseArray

namespace Store

variable {a : SparseArray} {s : Store} {host : Host}

/-- What is seen at two indices is read before either of them is placed. -/
theorem takes_exchange {b c : SparseArray} {lower upper : Nat}
    (hlower : Takes a (place host lower (a.visible host upper)) (.ok ()) b)
    (hupper : Takes b (place host upper (a.visible host lower)) (.ok ()) c) :
    Takes a (exchange host lower upper) (.ok ()) c := by
  refine takes_get fun s hs => takes_get fun t ht => ?_
  rw [← visible_toSparse, ← visible_toSparse, hs, ht]
  exact hlower.bind hupper

/-- Elements that are both there are exchanged, whatever the host lets go. -/
theorem takes_exchange_of_get? {lower upper : Nat} {v w : Value} (hv : a.get? lower = some v)
    (hw : a.get? upper = some w) (hlower : lower < maxLength) (hupper : upper < maxLength) :
    Takes a (exchange host lower upper) (.ok ()) ((a.put lower w).put upper v) := by
  refine takes_exchange (b := a.put lower w) ?_ ?_
  · rw [SparseArray.visible_of_get? hw]
    exact takes_assign hlower w
  · rw [SparseArray.visible_of_get? hv]
    exact takes_assign hupper v

theorem takes_genericReverse (hfull : a.IsFull) :
    Takes a (genericReverse host) (.ok ()) a.reverse := by
  refine takes_of_valid fun hle ha => takes_get fun s hs => ?_
  dsimp only
  rw [length_eq_of_toSparse hs, List.range_eq_range', ← SparseArray.reverseEnds_half]
  have hloop := takes_forM_range' (f := fun k => exchange host k (a.length - k - 1))
    0 (a.length / 2) a.reverseEnds fun k hk => ?_
  · rwa [SparseArray.reverseEnds_zero] at hloop
  · obtain ⟨v, hv⟩ := Option.isSome_iff_exists.mp (hfull k (by omega))
    obtain ⟨w, hw⟩ := Option.isSome_iff_exists.mp (hfull (a.length - k - 1) (by omega))
    rw [Nat.zero_add, ← SparseArray.put_reverseEnds_eq_succ ha hk hv hw]
    refine takes_exchange_of_get? ?_ ?_ (by omega) (by omega)
    · rw [SparseArray.get?_reverseEnds k (by omega), if_neg (by omega), hv]
    · rw [SparseArray.get?_reverseEnds k (by omega), if_neg (by omega), hw]

theorem reverse_sameEnding (h : s.Valid) (host : Host) :
    SameEnding Eq ((reverse host).perform s) ((genericReverse host).perform s) := by
  rw [reverse, Edit.perform_orElse]
  split
  · rename_i t heq
    obtain ⟨u, hreverse, heq⟩ := Option.map_eq_some_iff.mp heq
    obtain ⟨-, rfl⟩ := Prod.mk.inj heq
    obtain ⟨hu, hreversed, hcontinuous⟩ := fastReverse_spec h hreverse
    have hfast : Takes u.toSparse (pure ()) (.ok ()) s.toSparse.reverse := hreversed ▸ takes_pure ()
    exact hfast.sameEnding (takes_genericReverse hcontinuous.1) hu h hcontinuous.1.reverse
  · exact SameEnding.rfl

end Store

end ArrayEngine
