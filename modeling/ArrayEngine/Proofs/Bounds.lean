import ArrayEngine.Bounds
import ArrayEngine.Proofs.Binary.Exact

/-!
# Bounds of relative positions

Whatever number is given, the position it denotes lies in what it is a position of, and a splice
removes no more than there is.

## Implementation notes

The bounds are those of lengths up to `2 ^ 53`. Greater lengths are rounded as they become
numbers, possibly upwards.
-/

namespace ArrayEngine

open Binary (Double Format binary64)

variable {length : Nat}

/-! ### Lengths as numbers -/

theorem two_pow_le_maxWord : 2 ^ 53 ≤ maxWord := by decide

theorem toInt_ofNat (h : length ≤ 2 ^ 53) : (Double.ofNat length).toInt = length := by
  rcases Nat.lt_or_eq_of_le h with hlt | rfl
  · exact Double.toInt_ofInt (n := length) (by simpa using hlt)
  · decide +kernel

/-- Magnitudes with a great exponent field stand for many units. -/
theorem implicitBit_mul_le_units {f : Format} {m exponent : Nat}
    (h : (exponent + 1) * f.implicitBit ≤ m) : f.implicitBit * 2 ^ exponent ≤ f.units m := by
  have hexponent : exponent + 1 ≤ m / f.implicitBit :=
    (Nat.le_div_iff_mul_le Format.implicitBit_pos).mpr h
  rw [Format.units, if_neg (by omega)]
  exact Nat.mul_le_mul (Nat.le_add_right _ _) (Nat.pow_le_pow_right Nat.two_pos (by omega))

/-- What is too great to be exact is rounded to a number that is great as well. -/
theorem one_le_units_ofQuotient {f : Format} (hrange : f.scale + 2 < Nat.pow 2 f.exponentBits)
    {n : Nat} (h : 2 * f.implicitBit ≤ n) : f.one ≤ f.units (f.ofQuotient n 1) := by
  have hlog : f.fractionBits + 1 + f.scale ≤ (n * f.one).log2 := by
    have hle : 2 ^ (f.fractionBits + 1 + f.scale) ≤ n * f.one := by
      rw [pow_add, pow_succ']
      exact Nat.mul_le_mul_right _ h
    exact (Nat.le_log2 (Nat.ne_of_gt (Nat.lt_of_lt_of_le (Nat.two_pow_pos _) hle))).mpr hle
  have hmagnitude : (f.scale + 1) * f.implicitBit ≤ f.ofQuotient n 1 := by
    rw [Format.ofQuotient, Format.nearest, Nat.div_one]
    refine le_min (Nat.le_trans ?_ (Nat.le_add_right _ _)) (Nat.mul_le_mul_right _ (by omega))
    exact Nat.mul_le_mul_right _ (by omega)
  calc f.one ≤ f.implicitBit * 2 ^ f.scale := Nat.le_mul_of_pos_left _ Format.implicitBit_pos
    _ ≤ f.units (f.ofQuotient n 1) := implicitBit_mul_le_units hmagnitude

/-- Rounding does not take a negative integer to zero. -/
theorem toInt_ofInt_neg {n : Int} (h : n < 0) : (Double.ofInt n).toInt < 0 := by
  rcases Nat.lt_or_ge n.natAbs (2 ^ 53) with hlt | hle
  · rwa [Double.toInt_ofInt hlt]
  · have hinfinity : binary64.ofQuotient n.natAbs 1 ≤ binary64.infinity := Nat.min_le_right _ _
    have hsign := hinfinity.trans_lt Double.infinity_lt_signBit
    have hnan : (Double.ofInt n).isNaN = false := by
      rw [Double.isNaN, Double.ofInt, Double.ofQuotient, Double.magnitude_ofMagnitude hsign]
      exact decide_eq_false (Nat.not_lt.mpr hinfinity)
    have hneg : (Double.ofInt n).isNegative = true := by
      rw [Double.ofInt, Double.ofQuotient, Double.isNegative_ofMagnitude hsign]
      exact decide_eq_true h
    have hunits : 1 ≤ (Double.ofInt n).units / Double.one := by
      rw [Nat.one_le_div_iff Double.one_pos, Double.units, Double.ofInt, Double.ofQuotient,
        Double.magnitude_ofMagnitude hsign]
      exact one_le_units_ofQuotient (by decide) hle
    rw [Double.toInt_of_not_isNaN hnan, Double.withSign_of_isNegative hneg]
    exact Int.neg_neg_of_pos (Int.natCast_pos.mpr hunits)

/-! ### Positions -/

/-- Up to that length, a position is computed as if on integers. -/
theorem adjustIndex_eq (h : length ≤ 2 ^ 53) (x : Double) :
    adjustIndex x length
      = if x.toInt < 0 then (length + x.toInt).toNat else min x.toInt.toNat length := by
  have hword := two_pow_le_maxWord
  simp only [adjustIndex, toInt_ofNat h]
  split
  · rename_i hx
    rcases Int.lt_or_le (length + x.toInt) 0 with hneg | hpos
    · have := toInt_ofInt_neg hneg
      omega
    · rw [Double.toInt_ofInt (by omega)]
      omega
  · omega

theorem adjustIndex_le (h : length ≤ 2 ^ 53) (x : Double) : adjustIndex x length ≤ length := by
  rw [adjustIndex_eq h]
  split <;> omega

/-- A position beyond the end is the end. -/
theorem adjustIndex_of_le (h : length ≤ 2 ^ 53) {x : Double} (hx : length ≤ x.toInt) :
    adjustIndex x length = length := by
  rw [adjustIndex_eq h, if_neg (by omega)]
  omega

theorem adjustEnd_le (h : length ≤ 2 ^ 53) (x : Option Double) : adjustEnd x length ≤ length := by
  cases x with
  | none => exact Nat.le_refl _
  | some x => exact adjustIndex_le h x

theorem spliceBounds_le (h : length ≤ 2 ^ 53) (start count : Option Double) :
    (spliceBounds length start count).1 ≤ length ∧
      (spliceBounds length start count).2 ≤ length - (spliceBounds length start count).1 := by
  cases start with
  | none => exact ⟨Nat.zero_le _, Nat.zero_le _⟩
  | some start =>
    have hstart := adjustIndex_le h start
    cases count with
    | none => exact ⟨hstart, Nat.le_refl _⟩
    | some count => exact ⟨hstart, Nat.min_le_right _ _⟩

end ArrayEngine
