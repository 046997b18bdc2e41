import ArrayEngine.Proofs.Bulk.Order
import ArrayEngine.Proofs.Bulk.Window
import ArrayEngine.Proofs.CallSite

/-!
# Elements that the host does not let go

Index by index, an element is removed only after the host was asked, and a shorter length stops
above the elements that stay. So no pinned element is lost on that path, however an operation
ends.

A block operation does not ask. Where it applies, that is on a continuous store, popping, shifting
and splicing take a pinned element away with the others if it comes to lie at or behind the new
length. What is lost in this way is exactly what `Removal.has_iff` says; unshifting and reversing
lose nothing as a block, since they leave the store full and no shorter.

## Main definitions

* `Removal`: the operations that may remove elements

## Main results

* `Store.Stepwise.has_pinned`: index by index every pinned element stays
* `Removal.has_iff`: which pinned elements are there after an operation
* `Removal.pinned_lost`: one that is not
-/

namespace ArrayEngine

open Binary (Double)

namespace Store

variable {s t : Store} {host : Host} {i : Nat}

theorem lt_length_of_has (h : s.Valid) (hi : s.has i) : i < s.length := by
  rw [has_eq h] at hi
  obtain ⟨v, hv⟩ := Option.isSome_iff_exists.mp hi
  exact SparseArray.lt_length (a := s.toSparse) hv

theorem has_of_isFull (h : s.Valid) (hfull : s.toSparse.IsFull) (hi : i < s.length) : s.has i := by
  rw [has_eq h]
  exact hfull i hi

/-! ### Index by index -/

/-- No step removes a pinned element. -/
theorem steady_has_pinned (hpinned : host.deletable i = false) :
    Steady host fun s => s.Valid ∧ s.has i where
  length_le h := h.1.length_le
  put {s j} v h hj := by
    refine ⟨valid_put h.1 hj v, ?_⟩
    have hi := h.2
    rw [has_eq h.1] at hi
    rw [has_eq (valid_put h.1 hj v), ← get?_toSparse, toSparse_put h.1, SparseArray.get?_put]
    split
    · rfl
    · exact hi
  remove {s j} h hj := by
    refine ⟨valid_remove h.1 j, ?_⟩
    have hne : i ≠ j := by
      rintro rfl
      rw [hj h.2] at hpinned
      cases hpinned
    have hi := h.2
    rw [has_eq h.1] at hi
    rw [has_eq (valid_remove h.1 j), ← get?_toSparse, toSparse_remove h.1,
      SparseArray.get?_remove, if_neg hne]
    exact hi
  setLength {s n} h hn := by
    refine ⟨valid_setLength h.1 hn host, ?_⟩
    have hi := h.2
    rw [has_eq h.1] at hi
    rw [has_eq (valid_setLength h.1 hn host), ← get?_toSparse, (setLength_eq h.1 n host).2]
    exact SparseArray.isSome_get?_setLength hi hpinned
  widenTo {s} kind h := by
    refine ⟨valid_widenTo h.1 kind, ?_⟩
    have hi := h.2
    rw [has_eq h.1] at hi
    rw [has_eq (valid_widenTo h.1 kind), ← get?_toSparse, toSparse_widenTo h.1]
    exact hi

/-- Index by index every pinned element stays, whether the edit finishes or stops. -/
theorem Stepwise.has_pinned {α : Type} {edit : Edit Store α} (hedit : Stepwise host edit)
    (h : s.Valid) (hi : s.has i) (hpinned : host.deletable i = false) :
    (edit.perform s).2.has i :=
  (hedit.keeps (steady_has_pinned hpinned) s ⟨h, hi⟩).2

/-! ### As a block -/

/-- The element at `i` is there, or all elements were moved as a block and those below the length
are there. -/
def KeptOrFull (s t : Store) (host : Host) (i : Nat) : Prop :=
  t.has i ∨ s.isContinuous host ∧ t.toSparse.IsFull

section Pinned

variable (h : s.Valid) (hi : s.has i) (hpinned : host.deletable i = false)

include h hi hpinned

theorem keptOrFull_pop : s.KeptOrFull ((pop host).perform s).2 host i := by
  rw [pop, Edit.perform_orElse]
  split
  · rename_i v t hpop
    obtain ⟨-, hcut, -, -, hcontinuous⟩ := fastPop_spec h hpop
    refine .inr ⟨(isContinuous_iff h).mpr hcontinuous, ?_⟩
    rw [hcut]
    exact hcontinuous.1.cut (Nat.sub_le ..)
  · exact .inl ((stepwise_genericPop host).has_pinned h hi hpinned)

theorem keptOrFull_sitePop (site : CallSite) : s.KeptOrFull (site.pop s host).1.2 host i := by
  refine site.speculate_spec
    (P := fun p : CallSite.Outcome Store Value => s.KeptOrFull p.2 host i)
    (fun guard answer hanswer => ?_)
    (.inl ((stepwise_genericPop host).has_pinned h hi hpinned))
  rw [Option.ite_none_right_eq_some, Option.map_eq_some_iff] at hanswer
  obtain ⟨-, ⟨v, t⟩, hpop, rfl⟩ := hanswer
  have hkept := keptOrFull_pop h hi hpinned
  rwa [pop, Edit.perform_orElse, hpop] at hkept

theorem keptOrFull_shift : s.KeptOrFull ((shift host).perform s).2 host i := by
  rw [shift, Edit.perform_orElse]
  split
  · rename_i v t hshift
    obtain ⟨-, hreplace, -, hpos, hcontinuous⟩ := fastShift_spec h hshift
    refine .inr ⟨(isContinuous_iff h).mpr hcontinuous, ?_⟩
    rw [hreplace]
    exact hcontinuous.1.replace hpos
  · exact .inl ((stepwise_genericShift host).has_pinned h hi hpinned)

theorem keptOrFull_splice (start count : Option Double) (values : List Value) :
    s.KeptOrFull ((splice start count values host).perform s).2 host i := by
  obtain ⟨first, n, hbounds⟩ : ∃ first n, spliceBounds s.length start count = (first, n) :=
    ⟨_, _, rfl⟩
  rw [perform_splice hbounds]
  split
  · rename_i removed t hsplice
    obtain ⟨hstart, hcount, -⟩ := fastSplice_bounds hsplice
    obtain ⟨-, ⟨ht, -⟩, hcontinuous⟩ := fastSplice_spec h hsplice
    obtain ⟨u, hperform, -, hreplace⟩ := takes_fillGap h hsplice t ht rfl
    refine .inr ⟨(isContinuous_iff h).mpr hcontinuous, ?_⟩
    rw [hperform, hreplace]
    refine hcontinuous.1.replace ?_
    show first + n ≤ s.length
    omega
  · exact .inl ((steady_has_pinned hpinned).keeps_genericSplice first n values s ⟨h, hi⟩).2

/-- Nothing is lost where elements only move up. -/
theorem has_unshift (values : List Value) : ((unshift values host).perform s).2.has i := by
  have hlt := lt_length_of_has h hi
  rw [perform_unshift]
  split
  · rename_i t hshift
    obtain ⟨ht, -, hcontinuous, hfast⟩ := shiftRight_spec h hshift
    obtain ⟨u, hperform, hu, hreplace⟩ := hfast t ht rfl
    rw [hperform]
    refine has_of_isFull hu (hreplace ▸ hcontinuous.1.replace (Nat.zero_le _)) ?_
    rw [length_eq_of_toSparse hreplace]
    show i < s.length - 0 + values.length
    omega
  · exact (stepwise_genericUnshift values host).has_pinned h hi hpinned

/-- Nothing is lost where elements only change places. -/
theorem has_reverse : ((reverse host).perform s).2.has i := by
  have hlt := lt_length_of_has h hi
  rw [reverse, Edit.perform_orElse]
  cases hreverse : s.fastReverse host with
  | none => exact (stepwise_genericReverse host).has_pinned h hi hpinned
  | some t =>
    obtain ⟨ht, heq, hcontinuous⟩ := fastReverse_spec h hreverse
    show t.has i
    refine has_of_isFull ht (heq ▸ hcontinuous.1.reverse) ?_
    rwa [length_eq_of_toSparse heq]

end Pinned

end Store

/-! ### All operations -/

/-- An operation that may remove elements. -/
inductive Removal where
  | pop
  | shift
  | unshift (values : List Value)
  | splice (start count : Option Double) (values : List Value)
  | reverse
  | sort (order : Value → Value → Ordering)
  | setLength (length : UInt32)
  | sitePop (site : CallSite)

namespace Removal

/-- The store that an operation leaves. -/
def perform (s : Store) (host : Host) : Removal → Store
  | pop => ((Store.pop host).perform s).2
  | shift => ((Store.shift host).perform s).2
  | unshift values => ((Store.unshift values host).perform s).2
  | splice start count values => ((Store.splice start count values host).perform s).2
  | reverse => ((Store.reverse host).perform s).2
  | sort order => ((Store.sort host order).perform s).2
  | setLength length => (s.setLength length.toNat host).2
  | sitePop site => (site.pop s host).1.2

/-- Whether the operation shortens a continuous store as a block. -/
def isBlockwise : Removal → Bool
  | pop | shift | splice .. | sitePop _ => true
  | unshift _ | reverse | sort _ | setLength _ => false

theorem valid_perform {s : Store} (h : s.Valid) (host : Host) (op : Removal) :
    (op.perform s host).Valid := by
  cases op with
  | pop => exact Store.stable_valid.keeps_pop host s h
  | shift => exact Store.stable_valid.keeps_shift host s h
  | unshift values => exact Store.stable_valid.keeps_unshift values host s h
  | splice start count values => exact Store.stable_valid.keeps_splice start count values host s h
  | reverse => exact Store.stable_valid.keeps_reverse host s h
  | sort order => exact Store.stable_valid.keeps (Store.stepwise_sort host order) s h
  | setLength length => exact Store.valid_setLength h (toNat_le_maxLength length) host
  | sitePop site => exact site.valid_pop h host

variable {s : Store} {host : Host} {i : Nat}

/-- An operation that is not blockwise loses no pinned element. -/
theorem has_of_not_isBlockwise (h : s.Valid) (hi : s.has i) (hpinned : host.deletable i = false)
    {op : Removal} (hop : op.isBlockwise = false) : (op.perform s host).has i := by
  cases op with
  | unshift values => exact Store.has_unshift h hi hpinned values
  | reverse => exact Store.has_reverse h hi hpinned
  | sort order => exact (Store.stepwise_sort host order).has_pinned h hi hpinned
  | setLength length =>
    exact ((Store.steady_has_pinned hpinned).setLength ⟨h, hi⟩ (toNat_le_maxLength length)).2
  | _ => cases hop

theorem keptOrFull_of_isBlockwise (h : s.Valid) (hi : s.has i)
    (hpinned : host.deletable i = false) {op : Removal} (hop : op.isBlockwise = true) :
    s.KeptOrFull (op.perform s host) host i := by
  cases op with
  | pop => exact Store.keptOrFull_pop h hi hpinned
  | shift => exact Store.keptOrFull_shift h hi hpinned
  | splice start count values => exact Store.keptOrFull_splice h hi hpinned start count values
  | sitePop site => exact Store.keptOrFull_sitePop h hi hpinned site
  | _ => cases hop

/-- **Which pinned elements survive.** After an operation on a reachable store, whether it has
finished or stopped, all of them are there, but for those which a block operation on a continuous
store has left at or behind the new length. -/
theorem has_iff (h : s.Reachable) (hi : s.has i) (hpinned : host.deletable i = false)
    (op : Removal) :
    (op.perform s host).has i ↔
      ¬(op.isBlockwise ∧ s.isContinuous host ∧ (op.perform s host).length ≤ i) := by
  have hvalid := valid_perform h.valid host op
  constructor
  · rintro hhas ⟨-, -, hle⟩
    exact Nat.not_lt.mpr hle (Store.lt_length_of_has hvalid hhas)
  · intro hkept
    cases hop : op.isBlockwise with
    | false => exact has_of_not_isBlockwise h.valid hi hpinned hop
    | true =>
      rcases keptOrFull_of_isBlockwise h.valid hi hpinned hop with hhas | ⟨hcontinuous, hfull⟩
      · exact hhas
      · refine Store.has_of_isFull hvalid hfull ?_
        by_contra hge
        exact hkept ⟨hop, hcontinuous, Nat.not_lt.mp hge⟩

/-- Two elements of which the first is pinned: shifting leaves an element at its index. -/
theorem has_iff_of_two :
    let s := Store.ofValues {} [.null, .undefined]
    let host := Host.plain.pin 0
    s.has 0 = true ∧ host.deletable 0 = false ∧
      ((shift.perform s host).has 0 ↔
        ¬(shift.isBlockwise ∧ s.isContinuous host ∧ (shift.perform s host).length ≤ 0)) :=
  ⟨by decide +kernel, rfl, has_iff (.ofValues {} [.null, .undefined] (by decide))
    (by decide +kernel) rfl shift⟩

/-- The only element of an array is taken away though it is pinned, by every operation that is
blockwise; index by index it stays. -/
theorem pinned_lost :
    let s := Store.ofValues {} [.null]
    let host := Host.plain.pin 0
    s.has 0 = true ∧ host.deletable 0 = false ∧
      (pop.perform s host).has 0 = false ∧ (shift.perform s host).has 0 = false ∧
      ((splice (some .zero) none []).perform s host).has 0 = false ∧
      ((sitePop (.fresh .pop {})).perform s host).has 0 = false ∧
      ((Store.genericPop host).perform s).2.has 0 = true :=
  by decide +kernel

end Removal

end ArrayEngine
