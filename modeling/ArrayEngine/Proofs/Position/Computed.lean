import ArrayEngine.Proofs.Binary.Arithmetic
import ArrayEngine.Proofs.Position
import ArrayEngine.Proofs.View.Trapping
import ArrayEngine.Store.Basic
import Mathlib.Algebra.Order.Monoid.Unbundled.WithTop
import Mathlib.Data.Int.ConditionallyCompleteOrder

/-!
# Positions computed with doubles

A position is computed as a double: the number is truncated, added to the length if it is negative,
compared with the ends and converted to a word. The operands reach from the subnormal numbers to the
infinities, and the sum may be rounded. The result is nevertheless the one that integers, with an
infinity at either end, give: a sum that is in the range is exact, and one that is rounded is
negative, and stays so.

The bounds of a splice are computed from such a position by operations that could fail. A difference
of 32 bits must not be negative, and numbers are clamped to an interval that must not be empty.

## Main definitions

* `Double.truncated`: a number without its fraction, as an integer or an infinity
* `resolve`: the position that an integer or an infinity denotes
* `Double.plus`, `Double.maxNum`, `Double.minNum`, `Double.clamp?`: operations on all doubles
* `computedPosition`, `computedBounds?`: positions and bounds, operation by operation

## Main results

* `computedPosition_eq`, `computedBounds?_eq`: the operations yield `adjustIndex` and
  `spliceBounds`
* `relativeBounds_exact`: both are those of integers

## Implementation notes

That a sum in the range is exact holds for lengths up to `2 ^ 53`. Of two zeros either may be the
greater, which no conversion to a word tells.
-/

namespace ArrayEngine

namespace Binary.Double

variable {x y lo hi : Double} {m n : ℤ}

/-! ### Operations on all doubles -/

/-- A number without its fraction. A NaN counts as zero, and infinities stay. -/
def truncated (x : Double) : WithBot (WithTop ℤ) :=
  if x.isNaN then 0
  else if x.isInfinite then if x.isNegative then ⊥ else ⊤
  else ((towardZero x.value : ℤ) : WithTop ℤ)

/-- Sum of two doubles. There is none of opposite infinities. -/
def plus (x y : Double) : Double :=
  if x.isNaN || y.isNaN then nan
  else if x.isInfinite then if y.isInfinite && x.isNegative != y.isNegative then nan else x
  else if y.isInfinite then y
  else x.add y

/-- `x`, or `lo` if `x` is less. -/
def atLeast (lo x : Double) : Double := if x.lt lo then lo else x

/-- `x`, or `hi` if `x` is greater. -/
def atMost (hi x : Double) : Double := if hi.lt x then hi else x

/-- The greater of two numbers, and the other one of a NaN. -/
def maxNum (x y : Double) : Double := if x.isNaN then y else y.atLeast x

/-- The lesser of two numbers, and the other one of a NaN. -/
def minNum (x y : Double) : Double := if x.isNaN then y else y.atMost x

/-- `x` clamped to an interval, if this is one. -/
def clamp? (lo hi x : Double) : Option Double :=
  if lo.le hi then some (hi.atMost (lo.atLeast x)) else none

/-! ### Integers and infinities in units -/

/-- What is counted in whole ones is the integer that it is truncated to, an infinity included. -/
theorem toInt_eq_of_signedUnits (hnan : x.isNaN = false) (h : x.signedUnits = n * one) :
    x.toInt = n := by
  have hone : (0 : ℤ) < one := Int.natCast_pos.mpr one_pos
  rw [signedUnits, withSign] at h
  rw [toInt_of_not_isNaN hnan, withSign]
  split at h
  · rw [if_pos ‹_›, Int.natCast_ediv, show (x.units : ℤ) = -n * one by linarith,
      Int.mul_ediv_cancel _ hone.ne', neg_neg]
  · rw [if_neg ‹_›, Int.natCast_ediv, h, Int.mul_ediv_cancel _ hone.ne']

theorem signedUnits_of_isInfinite (hx : x.isInfinite) : x.signedUnits = x.toInt * one := by
  have hwhole : binary64.units binary64.infinity / one * one
      = binary64.units binary64.infinity := by
    decide +kernel
  rw [toInt_of_not_isNaN (not_isNaN_of_isInfinite hx), signedUnits, withSign, withSign,
    units_of_isInfinite hx]
  split
  · rw [neg_mul, ← Nat.cast_mul, hwhole]
  · rw [← Nat.cast_mul, hwhole]

theorem toIntegerOrInfinity_of_isInfinite (hx : x.isInfinite) : x.toIntegerOrInfinity = x := by
  have heq : x.magnitude = binary64.infinity := of_decide_eq_true hx
  have hzero : x.isZero = false := by
    rw [isZero, heq]
    decide
  have hfinite : x.isFinite = false := by
    rw [isFinite, heq]
    decide
  rw [toIntegerOrInfinity, not_isNaN_of_isInfinite hx, hzero, truncate, hfinite]
  rfl

theorem isInt_toIntegerOrInfinity (hx : x.isInfinite = false) :
    x.toIntegerOrInfinity.IsInt x.toInt := by
  rw [toIntegerOrInfinity]
  cases hnan : x.isNaN with
  | true => rw [toInt, hnan]; exact isInt_zero
  | false =>
    cases hzero : x.isZero with
    | true =>
      have hunits : x.units = 0 := units_eq_zero_iff.mpr (of_decide_eq_true hzero)
      have hint : x.toInt = 0 := by
        rw [toInt_of_not_isNaN hnan, hunits, Nat.zero_div, withSign]
        split <;> rfl
      rw [hint]
      exact isInt_zero
    | false => exact isInt_truncate (isFinite_of_not_isNaN hnan hx)

/-- The integral part of any double, in units. -/
theorem signedUnits_toIntegerOrInfinity (x : Double) :
    x.toIntegerOrInfinity.isNaN = false ∧ x.toIntegerOrInfinity.signedUnits = x.toInt * one := by
  cases hx : x.isInfinite with
  | true =>
    rw [toIntegerOrInfinity_of_isInfinite hx]
    exact ⟨not_isNaN_of_isInfinite hx, signedUnits_of_isInfinite hx⟩
  | false =>
    have hint := isInt_toIntegerOrInfinity hx
    exact ⟨not_isNaN_of_isFinite hint.1, hint.2⟩

theorem isInt_ofNat_of_le {k : Nat} (h : k ≤ 2 ^ 53) : (ofNat k).IsInt k := by
  rcases Nat.lt_or_eq_of_le h with hlt | rfl
  · exact isInt_ofNat hlt
  · constructor <;> decide +kernel

/-! ### Operations in units -/

theorem signedUnits_atLeast (hlo : lo.isNaN = false) (hx : x.isNaN = false) :
    (lo.atLeast x).isNaN = false ∧
      (lo.atLeast x).signedUnits = max x.signedUnits lo.signedUnits := by
  have hlt := lt_iff hx hlo
  rw [atLeast]
  split
  · exact ⟨hlo, (max_eq_right (hlt.mp ‹_›).le).symm⟩
  · exact ⟨hx, (max_eq_left (not_lt.mp (hlt.not.mp ‹_›))).symm⟩

theorem signedUnits_atMost (hhi : hi.isNaN = false) (hx : x.isNaN = false) :
    (hi.atMost x).isNaN = false ∧
      (hi.atMost x).signedUnits = min x.signedUnits hi.signedUnits := by
  have hlt := lt_iff hhi hx
  rw [atMost]
  split
  · exact ⟨hhi, (min_eq_right (hlt.mp ‹_›).le).symm⟩
  · exact ⟨hx, (min_eq_left (not_lt.mp (hlt.not.mp ‹_›))).symm⟩

theorem signedUnits_maxNum (hx : x.isNaN = false) (hy : y.isNaN = false) :
    (x.maxNum y).isNaN = false ∧ (x.maxNum y).signedUnits = max x.signedUnits y.signedUnits := by
  rw [maxNum, hx]
  exact signedUnits_atLeast hy hx

theorem signedUnits_minNum (hx : x.isNaN = false) (hy : y.isNaN = false) :
    (x.minNum y).isNaN = false ∧ (x.minNum y).signedUnits = min x.signedUnits y.signedUnits := by
  rw [minNum, hx]
  exact signedUnits_atMost hy hx

/-- A number between two integers becomes one of them or an integer between them. -/
theorem clamp?_eq {lower upper : ℤ} (hx : x.isNaN = false) (hunits : x.signedUnits = n * one)
    (hlo : lo.IsInt lower) (hhi : hi.IsInt upper) (h : lower ≤ upper) :
    ∃ y, clamp? lo hi x = some y ∧ y.isNaN = false ∧
      y.signedUnits = min (max n lower) upper * one := by
  have hone : (0 : ℤ) < one := Int.natCast_pos.mpr one_pos
  have hlo' := not_isNaN_of_isFinite hlo.1
  have hhi' := not_isNaN_of_isFinite hhi.1
  have hinterval : lo.le hi := by
    rw [le_iff hlo' hhi', hlo.2, hhi.2]
    exact mul_le_mul_of_nonneg_right h hone.le
  obtain ⟨hleast, hmax⟩ := signedUnits_atLeast hlo' hx
  obtain ⟨hmost, hmin⟩ := signedUnits_atMost hhi' hleast
  refine ⟨_, if_pos hinterval, hmost, ?_⟩
  rw [hmin, hmax, hunits, hlo.2, hhi.2, min_mul_of_nonneg _ _ hone.le,
    max_mul_of_nonneg _ _ hone.le]

/-- Rounding does not take a negative sum to a positive number. -/
theorem signedUnits_add_of_neg (h : x.signedUnits + y.signedUnits < 0) :
    (x.add y).isNaN = false ∧ (x.add y).signedUnits ≤ 0 := by
  have hle : ∀ k, binary64.nearest k 1 ≤ binary64.infinity := fun _ => Nat.min_le_right ..
  have hlt := fun k => (hle k).trans_lt infinity_lt_signBit
  simp only [add]
  rw [if_neg h.ne, decide_eq_true h, ofUnits]
  constructor
  · rw [isNaN, magnitude_ofMagnitude (hlt _)]
    exact decide_eq_false (Nat.not_lt.mpr (hle _))
  · rw [signedUnits, withSign, isNegative_ofMagnitude (hlt _), if_pos rfl]
    omega

/-- A negative integer or infinity added to an integer: the sum is exact where it is not negative,
and negative or zero otherwise. -/
theorem IsInt.plus (hx : x.IsInt m) (hm : m ≤ 2 ^ 53) (y : Double) (hy : y.toInt < 0) :
    (x.plus y.toIntegerOrInfinity).isNaN = false ∧
      max (x.plus y.toIntegerOrInfinity).signedUnits 0 = max (m + y.toInt) 0 * one := by
  have hone : (0 : ℤ) < one := Int.natCast_pos.mpr one_pos
  have hnan := (signedUnits_toIntegerOrInfinity y).1
  have hfinite : x.isInfinite = false := by
    have hlt : x.magnitude < binary64.infinity := of_decide_eq_true hx.1
    exact decide_eq_false hlt.ne
  have hplus : x.plus y.toIntegerOrInfinity
      = if y.toIntegerOrInfinity.isInfinite then y.toIntegerOrInfinity
        else x.add y.toIntegerOrInfinity := by
    simp only [Double.plus, not_isNaN_of_isFinite hx.1, hnan, hfinite, Bool.or_false,
      Bool.false_eq_true, if_false]
  rw [hplus]
  cases hinfinite : y.isInfinite with
  | true =>
    have hgreat := two_pow_lt_units_of_isInfinite hinfinite
    have hint : y.toInt = y.withSign (y.units / one) :=
      toInt_of_not_isNaN (not_isNaN_of_isInfinite hinfinite)
    have hfar : m + y.toInt ≤ 0 := by
      generalize y.units / one = k at hgreat hint
      rw [withSign] at hint
      split at hint <;> omega
    rw [toIntegerOrInfinity_of_isInfinite hinfinite, if_pos hinfinite, max_eq_right hfar, zero_mul,
      signedUnits_of_isInfinite hinfinite]
    exact ⟨not_isNaN_of_isInfinite hinfinite, max_eq_right (mul_neg_of_neg_of_pos hy hone).le⟩
  | false =>
    have hint := isInt_toIntegerOrInfinity hinfinite
    have hlt : y.toIntegerOrInfinity.magnitude < binary64.infinity := of_decide_eq_true hint.1
    rw [if_neg (by rw [isInfinite, decide_eq_true_eq]; exact hlt.ne)]
    rcases Int.lt_or_le (m + y.toInt) 0 with hneg | hpos
    · have hsum : x.signedUnits + y.toIntegerOrInfinity.signedUnits < 0 := by
        rw [hx.2, hint.2, ← Int.add_mul]
        exact mul_neg_of_neg_of_pos hneg hone
      obtain ⟨hsumNaN, hle⟩ := signedUnits_add_of_neg hsum
      exact ⟨hsumNaN, by rw [max_eq_right hle, max_eq_right hneg.le, zero_mul]⟩
    · have hsum := hx.add hint (by omega)
      refine ⟨not_isNaN_of_isFinite hsum.1, ?_⟩
      rw [hsum.2, max_eq_left hpos, max_eq_left (mul_nonneg hpos hone.le)]

end Binary.Double

open Binary (Double)

variable {length : Nat}

/-! ### Positions and bounds, operation by operation -/

/-- Position that an integer or an infinity denotes in something of a given length. -/
noncomputable def resolve (t : WithBot (WithTop ℤ)) (length : Nat) : WithBot (WithTop ℤ) :=
  if 0 ≤ t then min t length else max (length + t) 0

/-- Position `x` in something of the given length, by operations on doubles. -/
def computedPosition (x : Double) (length : Nat) : Nat :=
  let relative := x.toIntegerOrInfinity
  let size := Double.ofNat length
  let position :=
    if relative.lt .zero then (size.plus relative).maxNum .zero else relative.minNum size
  position.saturated 64

/-- Number of elements that a splice removes of those that follow its start: none without a start,
all without a count, and otherwise the count as far as it goes. -/
def removable (available : Nat) (start count : Option Double) : WithBot (WithTop ℤ) :=
  match start, count with
  | none, _ => 0
  | some _, none => available
  | some _, some count => max 0 (min count.truncated available)

/-- Bounds of a splice, by operations on doubles and on numbers of 32 bits: a position loses what 32
bits do not hold, a negative difference has no result, and neither has a clamped number where the
interval is empty. -/
def computedBounds? (length : Nat) (start count : Option Double) : Option (Nat × Nat) := do
  let first := start.elim 0 (computedPosition · length) % 2 ^ 32
  let available ← Word.sub? length first
  match start, count with
  | none, _ => return (first, 0)
  | some _, none => return (first, available)
  | some _, some count =>
    let clamped ← Double.clamp? .zero (.ofNat available) count.toIntegerOrInfinity
    return (first, clamped.saturated 32)

/-! ### Positions -/

/-- The operations on doubles yield the position that integers do. -/
theorem computedPosition_eq (h : length ≤ 2 ^ 53) (x : Double) :
    computedPosition x length = adjustIndex x length := by
  have hsize := Double.isInt_ofNat_of_le h
  have hsizeNaN := Double.not_isNaN_of_isFinite hsize.1
  have hzeroNaN := Double.not_isNaN_of_isFinite Double.isInt_zero.1
  have hone : (0 : ℤ) < Double.one := Int.natCast_pos.mpr Double.one_pos
  obtain ⟨hnan, hunits⟩ := Double.signedUnits_toIntegerOrInfinity x
  have hlt : x.toIntegerOrInfinity.lt .zero ↔ x.toInt < 0 := by
    rw [Double.lt_iff hnan hzeroNaN, hunits, Double.isInt_zero.2]
    exact mul_lt_mul_iff_of_pos_right hone
  rw [adjustIndex_eq h]
  simp only [computedPosition, Double.saturated]
  rcases Int.lt_or_le x.toInt 0 with hneg | hpos
  · rw [if_pos (hlt.mpr hneg), if_pos hneg]
    obtain ⟨hsumNaN, hsum⟩ := hsize.plus (by omega) x hneg
    obtain ⟨hmaxNaN, hmax⟩ := Double.signedUnits_maxNum hsumNaN hzeroNaN
    rw [Double.isInt_zero.2, zero_mul, hsum] at hmax
    rw [Double.toInt_eq_of_signedUnits hmaxNaN hmax]
    omega
  · rw [if_neg (by rw [hlt]; omega), if_neg (by omega)]
    obtain ⟨hminNaN, hmin⟩ := Double.signedUnits_minNum hnan hsizeNaN
    rw [hunits, hsize.2, ← min_mul_of_nonneg _ _ hone.le] at hmin
    rw [Double.toInt_eq_of_signedUnits hminNaN hmin]
    omega

/-- A number without its fraction is an integer, or an infinity that is beyond any length. -/
theorem truncated_cases (x : Double) :
    x.truncated = ((x.toInt : WithTop ℤ) : WithBot (WithTop ℤ)) ∨
      x.truncated = ⊤ ∧ 2 ^ 53 < x.toInt ∨ x.truncated = ⊥ ∧ x.toInt < -2 ^ 53 := by
  rw [Double.truncated]
  cases hnan : x.isNaN with
  | true =>
    have hzero : x.toInt = 0 := if_pos hnan
    exact .inl (by rw [if_pos rfl, hzero]; rfl)
  | false =>
    cases hinfinite : x.isInfinite with
    | true =>
      have hgreat := two_pow_lt_units_of_isInfinite hinfinite
      have hint := Double.toInt_of_not_isNaN hnan
      generalize x.units / Double.one = k at hgreat hint
      rw [Double.withSign] at hint
      cases hsign : x.isNegative with
      | true =>
        rw [if_pos hsign] at hint
        exact .inr (.inr ⟨by simp, by omega⟩)
      | false =>
        rw [hsign, if_neg Bool.false_ne_true] at hint
        exact .inr (.inl ⟨by simp, by omega⟩)
    | false =>
      refine .inl ?_
      simp only [Bool.false_eq_true, if_false]
      rw [Double.towardZero_value hnan]

/-- An integer that is a natural number is one among the infinities too. -/
theorem natCast_eq_coe {k : ℕ} {n : ℤ} (h : (k : ℤ) = n) :
    (k : WithBot (WithTop ℤ)) = ((n : WithTop ℤ) : WithBot (WithTop ℤ)) := by
  rw [← h]
  rfl

/-- A position is the one that the number without its fraction denotes. -/
theorem adjustIndex_eq_resolve (h : length ≤ 2 ^ 53) (x : Double) :
    (adjustIndex x length : WithBot (WithTop ℤ)) = resolve x.truncated length := by
  rw [adjustIndex_eq h, resolve]
  rcases truncated_cases x with hint | ⟨htop, hgreat⟩ | ⟨hbot, hless⟩
  · rw [hint]
    rcases Int.lt_or_le x.toInt 0 with hneg | hpos
    · have hvalue : ((length + x.toInt).toNat : ℤ) = max (length + x.toInt) 0 := Int.toNat_eq_max _
      rw [if_pos hneg, if_neg (by norm_cast; omega)]
      exact (natCast_eq_coe hvalue).trans (by push_cast; rfl)
    · have hvalue : ((min x.toInt.toNat length : ℕ) : ℤ) = min x.toInt length := by omega
      rw [if_neg (by omega), if_pos (by norm_cast)]
      exact (natCast_eq_coe hvalue).trans (by push_cast; rfl)
  · rw [htop, if_neg (by omega), if_pos le_top, min_eq_right (by omega), min_eq_right le_top]
  · rw [hbot, if_pos (by omega), if_neg (by simp), WithBot.add_bot, max_eq_right bot_le,
      Int.toNat_of_nonpos (by omega), Nat.cast_zero]

/-- Greater integers of the same sign denote positions that are not less. -/
theorem resolve_le_resolve {t u : WithBot (WithTop ℤ)} (h : t ≤ u) (hsign : 0 ≤ t ∨ u < 0) :
    resolve t length ≤ resolve u length := by
  rw [resolve, resolve]
  rcases hsign with hpos | hneg
  · rw [if_pos hpos, if_pos (hpos.trans h)]
    exact min_le_min_right _ h
  · rw [if_neg (h.trans_lt hneg).not_ge, if_neg hneg.not_ge]
    exact max_le_max_right 0 (add_le_add_right h _)

theorem adjustIndex_le_adjustIndex (h : length ≤ 2 ^ 53) {x y : Double}
    (hxy : x.truncated ≤ y.truncated) (hsign : 0 ≤ x.truncated ∨ y.truncated < 0) :
    adjustIndex x length ≤ adjustIndex y length := by
  have hle : resolve x.truncated length ≤ resolve y.truncated length :=
    resolve_le_resolve hxy hsign
  rw [← adjustIndex_eq_resolve h, ← adjustIndex_eq_resolve h] at hle
  exact_mod_cast hle

/-! ### Bounds of a splice -/

/-- None of the operations fails, and they yield what integers do. -/
theorem computedBounds?_eq (h : length ≤ maxLength) (start count : Option Double) :
    computedBounds? length start count = some (spliceBounds length start count) := by
  have hmax : maxLength + 1 = 2 ^ 32 := by decide
  have hfirst : start.elim 0 (computedPosition · length) = start.elim 0 (adjustIndex · length) := by
    cases start with
    | none => rfl
    | some start => exact computedPosition_eq (by omega) start
  have hle : start.elim 0 (adjustIndex · length) ≤ length := by
    cases start with
    | none => exact Nat.zero_le _
    | some start => exact adjustIndex_le (by omega) start
  simp only [computedBounds?, Word.sub?, hfirst]
  rw [Nat.mod_eq_of_lt (by omega), if_pos hle, Option.bind_eq_bind, Option.bind_some]
  cases start with
  | none => rfl
  | some start =>
    cases count with
    | none => rfl
    | some count =>
      dsimp only [Option.elim_some] at hle ⊢
      have havailable : (Double.ofNat (length - adjustIndex start length)).IsInt
          (length - adjustIndex start length : ℕ) := Double.isInt_ofNat_of_le (by omega)
      obtain ⟨hnan, hunits⟩ := Double.signedUnits_toIntegerOrInfinity count
      obtain ⟨y, hclamp, hy, hvalue⟩ :=
        Double.clamp?_eq hnan hunits Double.isInt_zero havailable (Int.natCast_nonneg _)
      rw [hclamp, Option.bind_eq_bind, Option.bind_some, Double.saturated,
        Double.toInt_eq_of_signedUnits hy hvalue, spliceBounds]
      refine congrArg (fun n => some (adjustIndex start length, n)) ?_
      omega

/-- A splice removes what its count and the rest behind its start allow. -/
theorem spliceBounds_snd_eq (h : length ≤ 2 ^ 53) (start count : Option Double) :
    ((spliceBounds length start count).2 : WithBot (WithTop ℤ))
      = removable (length - (spliceBounds length start count).1) start count := by
  cases start with
  | none => rfl
  | some start =>
    cases count with
    | none => rfl
    | some count =>
      rw [spliceBounds, removable]
      dsimp only
      have hle : length - adjustIndex start length ≤ 2 ^ 53 := by omega
      generalize length - adjustIndex start length = available at hle
      rcases truncated_cases count with hint | ⟨htop, hgreat⟩ | ⟨hbot, hless⟩
      · have hvalue : ((min count.toInt.toNat available : ℕ) : ℤ)
            = max 0 (min count.toInt available) := by omega
        rw [hint]
        exact (natCast_eq_coe hvalue).trans (by push_cast; rfl)
      · rw [htop, min_eq_right le_top, max_eq_right (mod_cast Nat.zero_le _),
          min_eq_right (by omega)]
      · rw [hbot, min_eq_left bot_le, max_eq_left bot_le, Int.toNat_of_nonpos (by omega),
          Nat.zero_min, Nat.cast_zero]

/-! ### The result -/

/-- **A position is computed exactly.** Whatever double is given, the operations on doubles yield
the position that its integral part denotes among the integers and the infinities: clamped to the
length, and counted from the end if it is negative. It is not beyond the end, and it is not less for
a greater integral part of the same sign.

For every length of 32 bits and whatever is given, each operation that yields the bounds of a splice
has a result. The start is the position, and the end of what is removed is not beyond the length. -/
theorem relativeBounds_exact {n length : Nat} (hn : n ≤ 2 ^ 53) (hlength : length ≤ maxLength) :
    (∀ x : Double,
      computedPosition x n = adjustIndex x n ∧
      (adjustIndex x n : WithBot (WithTop ℤ)) = resolve x.truncated n ∧
      adjustIndex x n ≤ n ∧
      ∀ y : Double, x.truncated ≤ y.truncated → 0 ≤ x.truncated ∨ y.truncated < 0 →
        adjustIndex x n ≤ adjustIndex y n) ∧
    ∀ start count : Option Double, ∃ first removed,
      computedBounds? length start count = some (first, removed) ∧
      spliceBounds length start count = (first, removed) ∧
      first = start.elim 0 (adjustIndex · length) ∧
      (removed : WithBot (WithTop ℤ)) = removable (length - first) start count ∧
      first ≤ length ∧ first + removed ≤ length := by
  have hmax : maxLength ≤ 2 ^ 53 := by decide
  have hsmall : length ≤ 2 ^ 53 := hlength.trans hmax
  refine ⟨fun x => ⟨computedPosition_eq hn x, adjustIndex_eq_resolve hn x, adjustIndex_le hn x,
    fun y => adjustIndex_le_adjustIndex hn⟩, fun start count => ?_⟩
  obtain ⟨hfirst, hremoved⟩ := spliceBounds_le hsmall start count
  have hstart : (spliceBounds length start count).1 = start.elim 0 (adjustIndex · length) := by
    cases start <;> cases count <;> rfl
  exact ⟨_, _, computedBounds?_eq hlength start count, rfl, hstart,
    spliceBounds_snd_eq hsmall start count, hfirst, Nat.add_le_of_le_sub' hfirst hremoved⟩

/-- From `-1.5` on, one of five elements is left for an infinite count to remove. -/
theorem relativeBounds_exact_of_fraction :
    2 ^ 53 ≤ 2 ^ 53 ∧ 5 ≤ maxLength ∧
      computedBounds? 5 (some ⟨0xbff8000000000000⟩) (some .infinity) = some (4, 1) := by
  have hlength : 5 ≤ maxLength := by decide
  obtain ⟨first, removed, hcomputed, hbounds, -⟩ :=
    (relativeBounds_exact (Nat.le_refl (2 ^ 53)) hlength).2 (some ⟨0xbff8000000000000⟩)
      (some .infinity)
  refine ⟨Nat.le_refl _, hlength, ?_⟩
  rw [hcomputed, ← hbounds]
  decide +kernel

end ArrayEngine
