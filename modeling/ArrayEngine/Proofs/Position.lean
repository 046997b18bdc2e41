import ArrayEngine.Proofs.Binary.Value
import ArrayEngine.Proofs.Bounds

/-!
# Positions that numbers denote

What index a number denotes in something of a given length, said without the arithmetic that
computes it: the number is truncated, counts from the end if it is negative, and is clamped.

## Main definitions

* `relativePosition`, `relativeEnd`: the index that a number denotes, clamped
* `relativeIndex?`: the index that a number denotes, if there is one

## Main results

* `adjustIndex_eq_relativePosition`, `adjustEnd_eq_relativeEnd`: a position is computed as the index
  that it denotes
-/

namespace ArrayEngine

open Binary (Double towardZero)

variable {length : Nat}

/-- Index that a number denotes in something of a given length. A NaN is the start, an infinity is
either end, and any other number loses its fraction, counts from the end if it is negative, and is
clamped. -/
def relativePosition (x : Double) (length : Nat) : Nat :=
  if x.isNaN then 0
  else if x.isInfinite then if x.isNegative then 0 else length
  else if towardZero x.value < 0 then (length + towardZero x.value).toNat
  else min (towardZero x.value).toNat length

/-- Index up to which a range goes: the one that a number denotes, or the very end. -/
def relativeEnd (x : Option Double) (length : Nat) : Nat :=
  x.elim length (relativePosition · length)

/-- Index that a number denotes in something of a given length, counted from the end if it is
negative. A NaN denotes the first one. Neither an infinity nor what is outside denotes any. -/
def relativeIndex? (x : Double) (length : Nat) : Option Nat :=
  if x.isInfinite then none
  else
    let n := if x.isNaN then 0 else towardZero x.value
    let index := if n < 0 then length + n else n
    if 0 ≤ index ∧ index < length then some index.toNat else none

theorem relativePosition_le (x : Double) (length : Nat) : relativePosition x length ≤ length := by
  rw [relativePosition]
  split_ifs <;> omega

theorem relativeEnd_le (x : Option Double) (length : Nat) : relativeEnd x length ≤ length := by
  cases x with
  | none => exact Nat.le_refl _
  | some x => exact relativePosition_le x length

/-- An infinity truncates to more than any length. -/
theorem two_pow_lt_units_of_isInfinite {x : Double} (hx : x.isInfinite) :
    2 ^ 53 < x.units / Double.one := by
  rw [Double.units_of_isInfinite hx]
  decide +kernel

theorem adjustIndex_eq_relativePosition (h : length ≤ 2 ^ 53) (x : Double) :
    adjustIndex x length = relativePosition x length := by
  rw [adjustIndex_eq h, relativePosition]
  cases hnan : x.isNaN with
  | true =>
    have hzero : x.toInt = 0 := if_pos hnan
    simp [hzero]
  | false =>
    cases hinfinite : x.isInfinite with
    | true =>
      have hgreat := two_pow_lt_units_of_isInfinite hinfinite
      simp only [Double.toInt_of_not_isNaN hnan, Double.withSign, Bool.false_eq_true, if_false,
        if_true]
      cases x.isNegative with
      | true =>
        rw [if_pos rfl, if_pos rfl, if_pos (by omega)]
        omega
      | false =>
        simp only [Bool.false_eq_true, if_false]
        rw [if_neg (by omega)]
        omega
    | false =>
      rw [Double.towardZero_value hnan]
      rfl

theorem adjustEnd_eq_relativeEnd (h : length ≤ 2 ^ 53) (x : Option Double) :
    adjustEnd x length = relativeEnd x length := by
  cases x with
  | none => rfl
  | some x => exact adjustIndex_eq_relativePosition h x

end ArrayEngine
