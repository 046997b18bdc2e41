import ArrayEngine.Bulk.Order
import ArrayEngine.Proofs.Store.Alike

/-!
# Moves of what is seen

Index by index, an array with holes is worked on in place: what is seen at one index is written to
another, or the other is made a hole where nothing is seen. An inherited value that was seen through
a hole becomes an element by this, so that the elements alone do not say what is left. What does is
the array as it was before, *overlaid* by what was seen in it: `SparseArray.Overlaid` names the
indices that are done with, and says that all others are as they were.

A loop that moves elements keeps an overlay whose range grows by one index with each step. The
range lies on the side of the loop that has been read already: below the sources where elements
move down, and above them where they move up. So what is seen next is what was seen before.

## Implementation notes

How long the array is in the middle of a loop depends on its holes, since only what is written makes
it longer. An overlay says no more than what the length lies between; the algorithms set it at the
end.

## Main definitions

* `SparseArray.place`: an index bound to a value or unbound
* `SparseArray.Overlaid`: an array of which a range has been bound anew
* `Store.Leaves`: what an edit answers, and the elements that it leaves

## Main results

* `SparseArray.Overlaid.succ`, `SparseArray.Overlaid.pred`: one more index at either end
* `Store.exists_moveSeenDown`, `Store.exists_moveSeenUp`: moves
-/

namespace ArrayEngine

/-! ### Overlays -/

namespace SparseArray

variable {a b : SparseArray} {f : Nat → Option Value} {target n : Nat}

/-- Index `i` bound to a value, or unbound. -/
def place (a : SparseArray) (i : Nat) : Option Value → SparseArray
  | some v => a.put i v
  | none => a.remove i

@[simp] theorem get?_place (a : SparseArray) (i j : Nat) (v? : Option Value) :
    (a.place i v?).get? j = if j = i then v? else a.get? j := by
  cases v? <;> rfl

theorem le_length_place (a : SparseArray) (i : Nat) (v? : Option Value) :
    a.length ≤ (a.place i v?).length := by
  cases v? with
  | none => exact Nat.le_refl _
  | some v => exact Nat.le_max_left ..

theorem length_place_le (a : SparseArray) (i : Nat) (v? : Option Value) :
    (a.place i v?).length ≤ max a.length (i + 1) := by
  cases v? with
  | none => exact Nat.le_max_left ..
  | some v => exact Nat.le_refl _

theorem length_place_of_lt {i : Nat} (hi : i < a.length) (v? : Option Value) :
    (a.place i v?).length = a.length := by
  have hle := a.le_length_place i v?
  have hge := a.length_place_le i v?
  omega

theorem le_kind_place (a : SparseArray) (i : Nat) (v? : Option Value) :
    a.kind ≤ (a.place i v?).kind := by
  cases v? with
  | none => exact ElementKind.le_rfl
  | some v => exact ElementKind.le_join_left

theorem kind_place_le {kind : ElementKind} {v? : Option Value} (ha : a.kind ≤ kind)
    (hv : ∀ v, v? = some v → kind.holds v) (i : Nat) : (a.place i v?).kind ≤ kind := by
  cases v? with
  | none => exact ha
  | some v => exact ElementKind.join_le ha (ElementKind.holds_iff.mp (hv v rfl))

/-- `b` is `a` with the `n` indices from `target` on bound as `f` says. Where the last of them are
not bound, `b` need not reach up to them. Its kind is no wider than it has to be. -/
structure Overlaid (a b : SparseArray) (f : Nat → Option Value) (target n : Nat) : Prop where
  get?_eq : ∀ i, b.get? i = if target ≤ i ∧ i < target + n then f (i - target) else a.get? i
  le_length : a.length ≤ b.length
  length_le : b.length ≤ max a.length (target + n)
  le_kind : a.kind ≤ b.kind
  kind_le : ∀ kind, a.kind ≤ kind → (∀ k < n, ∀ v, f k = some v → kind.holds v) → b.kind ≤ kind

namespace Overlaid

theorem zero (a : SparseArray) (f : Nat → Option Value) (target : Nat) :
    a.Overlaid a f target 0 where
  get?_eq i := by rw [if_neg (by omega)]
  le_length := Nat.le_refl _
  length_le := Nat.le_max_left ..
  le_kind := ElementKind.le_rfl
  kind_le _ ha _ := ha

theorem get?_outside (h : a.Overlaid b f target n) {i : Nat} (hi : i < target ∨ target + n ≤ i) :
    b.get? i = a.get? i := by
  rw [h.get?_eq, if_neg (by omega)]

theorem get?_inside (h : a.Overlaid b f target n) {i : Nat} (hi : i < n) :
    b.get? (target + i) = f i := by
  rw [h.get?_eq, if_pos (by omega), Nat.add_sub_cancel_left]

theorem visible_outside (h : a.Overlaid b f target n) (host : Host) {i : Nat}
    (hi : i < target ∨ target + n ≤ i) : b.visible host i = a.visible host i := by
  rw [visible, visible, h.get?_outside hi]

/-- One more index behind the range. -/
theorem succ (h : a.Overlaid b f target n) :
    a.Overlaid (b.place (target + n) (f n)) f target (n + 1) where
  get?_eq i := by
    rw [get?_place, h.get?_eq]
    by_cases hlast : i = target + n
    · rw [if_pos hlast, if_pos (by omega), hlast, Nat.add_sub_cancel_left]
    · rw [if_neg hlast]
      exact if_congr (by omega) rfl rfl
  le_length := h.le_length.trans (b.le_length_place ..)
  length_le := by
    have hle := b.length_place_le (target + n) (f n)
    have hb := h.length_le
    omega
  le_kind := ElementKind.le_trans h.le_kind (b.le_kind_place ..)
  kind_le kind ha hf := kind_place_le (h.kind_le kind ha fun k hk => hf k (Nat.lt_succ_of_lt hk))
    (hf n (Nat.lt_succ_self n)) _

/-- One more index behind the range, where nothing was and nothing is to be. -/
theorem skip (h : a.Overlaid b f target n) (ha : a.length ≤ target) (hf : f n = none) :
    a.Overlaid b f target (n + 1) where
  get?_eq i := by
    rw [h.get?_eq]
    by_cases hlast : i = target + n
    · rw [if_neg (by omega), if_pos (by omega), hlast, Nat.add_sub_cancel_left, hf,
        a.get?_eq_none _ (by omega)]
    · exact if_congr (by omega) rfl rfl
  le_length := h.le_length
  length_le := h.length_le.trans (by omega)
  le_kind := h.le_kind
  kind_le kind ha hf := h.kind_le kind ha fun k hk => hf k (Nat.lt_succ_of_lt hk)

/-- One more index in front of the range. -/
theorem pred (h : a.Overlaid b (fun k => f (k + 1)) (target + 1) n) :
    a.Overlaid (b.place target (f 0)) f target (n + 1) where
  get?_eq i := by
    rw [get?_place, h.get?_eq]
    by_cases hfirst : i = target
    · rw [if_pos hfirst, if_pos (by omega), hfirst, Nat.sub_self]
    · rw [if_neg hfirst]
      by_cases hi : target + 1 ≤ i ∧ i < target + 1 + n
      · rw [if_pos hi, if_pos (by omega)]
        exact congrArg f (by omega)
      · rw [if_neg hi, if_neg (by omega)]
  le_length := h.le_length.trans (b.le_length_place ..)
  length_le := by
    have hle := b.length_place_le target (f 0)
    have hb := h.length_le
    omega
  le_kind := ElementKind.le_trans h.le_kind (b.le_kind_place ..)
  kind_le kind ha hf := kind_place_le (h.kind_le kind ha fun k hk => hf (k + 1) (by omega))
    (hf 0 (Nat.zero_lt_succ n)) _

end Overlaid

end SparseArray

namespace Store

variable {a : SparseArray} {host : Host} {s : Store}

/-! ### Steps -/

/-- Under a host that lets every element go, an index is bound or unbound as asked. -/
theorem takes_place (hhost : ∀ i, host.deletable i) {i : Nat} (hi : i < maxLength)
    (v? : Option Value) : Takes a (place host i v?) (.ok ()) (a.place i v?) := by
  cases v? with
  | none => exact takes_discard fun _ => hhost i
  | some v => exact takes_assign hi v

theorem takes_transferSeen (hhost : ∀ i, host.deletable i) {source target : Nat}
    (ht : target < maxLength) :
    Takes a (transfer host source target) (.ok ()) (a.place target (a.visible host source)) := by
  refine takes_get fun s hs => ?_
  rw [← visible_toSparse, hs]
  exact takes_place hhost ht _

/-! ### Moves -/

/-- What is seen moves down, from the bottom up: each index is read before it is written. -/
theorem exists_moveSeenDown (hhost : ∀ i, host.deletable i) (start n : Nat) {source target : Nat}
    (hle : target ≤ source) (hn : start + target + n ≤ maxLength) :
    ∃ b, Takes a ((List.range' start n).forM fun k => transfer host (k + source) (k + target))
        (.ok ()) b ∧
      a.Overlaid b (fun k => a.visible host (start + source + k)) (start + target) n := by
  refine exists_forM_range'
    (fun k b => a.Overlaid b (fun k => a.visible host (start + source + k)) (start + target) k)
    (fun k hk b hb => ?_) (.zero ..)
  have hseen : b.visible host (start + k + source) = a.visible host (start + source + k) := by
    rw [hb.visible_outside host (by omega), Nat.add_right_comm]
  refine ⟨_, takes_transferSeen hhost (by omega), ?_⟩
  rw [hseen, Nat.add_right_comm start k target]
  exact hb.succ

/-- What is seen moves up, from the top down. -/
theorem exists_moveSeenUp (hhost : ∀ i, host.deletable i) (start n : Nat) {source target : Nat}
    (hle : source ≤ target) (hn : start + target + n ≤ maxLength) :
    ∃ b, Takes a
        ((List.range' start n).reverse.forM fun k => transfer host (k + source) (k + target))
        (.ok ()) b ∧
      a.Overlaid b (fun k => a.visible host (start + source + k)) (start + target) n := by
  refine exists_forM_range'_reverse
    (fun k b => a.Overlaid b (fun j => a.visible host (start + source + k + j))
      (start + target + k) (n - k))
    (fun k hk b hb => ?_) ?_
  · have hseen : b.visible host (start + k + source) = a.visible host (start + source + k + 0) := by
      rw [hb.visible_outside host (by omega), Nat.add_right_comm, Nat.add_zero]
    refine ⟨_, takes_transferSeen hhost (by omega), ?_⟩
    rw [hseen, Nat.add_right_comm start k target, show n - k = n - (k + 1) + 1 by omega]
    refine SparseArray.Overlaid.pred (f := fun j => a.visible host (start + source + k + j)) ?_
    simpa only [Nat.add_assoc, Nat.add_comm 1] using hb
  · rw [Nat.sub_self]
    exact .zero ..

/-! ### What is left -/

/-- The edit finishes with `v`, and leaves `n` indices with the elements that `f` says. -/
def Leaves {α : Type} (s : Store) (edit : Edit Store α) (v : α) (n : Nat)
    (f : Nat → Option Value) : Prop :=
  ∃ t, edit.perform s = (.ok v, t) ∧ t.length = n ∧ ∀ i < n, t.get? i = f i

theorem Takes.leaves {α : Type} {edit : Edit Store α} {v : α} {b : SparseArray} {n : Nat}
    {f : Nat → Option Value} (h : Takes s.toSparse edit (.ok v) b) (hs : s.Valid)
    (hlength : b.length = n) (hget : ∀ i < n, b.get? i = f i) : s.Leaves edit v n f := by
  obtain ⟨t, hperform, -, rfl⟩ := h s hs rfl
  exact ⟨t, hperform, hlength, hget⟩

/-- An edit that sets the length in the end leaves what was there below it. -/
theorem Takes.leaves_cut {α : Type} {edit : Edit Store α} {v : α} {b : SparseArray} {n : Nat}
    {f : Nat → Option Value} (h : Takes s.toSparse edit (.ok v) (b.cut n)) (hs : s.Valid)
    (hget : ∀ i < n, b.get? i = f i) : s.Leaves edit v n f := by
  refine h.leaves hs rfl fun i hi => ?_
  rw [SparseArray.get?_cut, if_pos hi, hget i hi]

/-- Edits that end in the same way leave the same. -/
theorem Leaves.congr {α : Type} {edit edit' : Edit Store α} {v : α} {n : Nat}
    {f : Nat → Option Value} (h : s.Leaves edit v n f)
    (hsame : SameEnding Eq (edit'.perform s) (edit.perform s)) : s.Leaves edit' v n f := by
  obtain ⟨t, hperform, rfl, hget⟩ := h
  obtain ⟨u, hperform', halike⟩ := (hperform ▸ hsame).exists_eq
  refine ⟨u, hperform', halike.length_eq, fun i hi => ?_⟩
  rw [halike.get?_eq, hget i hi]

/-- What an algorithm leaves, its other form leaves, too. -/
theorem Leaves.both {α : Type} {edit edit' : Edit Store α} {v : α} {n : Nat}
    {f : Nat → Option Value} (h : s.Leaves edit v n f)
    (hsame : SameEnding Eq (edit'.perform s) (edit.perform s)) :
    ∀ either ∈ [edit, edit'], s.Leaves either v n f := by
  simpa using ⟨h, h.congr hsame⟩

end Store

end ArrayEngine
