import ArrayEngine.Proofs.Binary.Value

/-!
# Integers rounded to the nearest number

A natural number that is too great for the fraction field becomes the nearest double, and of two
that are equally near the one whose magnitude is even. A double on the other side of zero is never
nearer, so that this is a matter of units, which `Format.nearest` decides.

## Main definitions

* `Double.IsNearest`: a double is the nearest to a rational number

## Main results

* `Double.isNearest_ofNat`: natural numbers below `2 ^ 1023`
-/

namespace ArrayEngine.Binary.Double

/-- No finite double is nearer to a number, and if another one is as near, the last bit of this one
is zero. -/
structure IsNearest (x : Double) (q : ℚ) : Prop where
  isFinite : x.isFinite
  abs_sub_le : ∀ y : Double, y.isFinite → |q - x.value| ≤ |q - y.value|
  even : ∀ y : Double, y.isFinite → |q - x.value| = |q - y.value| → y.value ≠ x.value →
    Even x.magnitude

variable {n : Nat}

theorem ofQuotient_lt_signBit (num den : Nat) : binary64.ofQuotient num den < binary64.signBit :=
  (Nat.min_le_right ..).trans_lt infinity_lt_signBit

theorem magnitude_ofNat (n : Nat) : (ofNat n).magnitude = binary64.ofQuotient n 1 :=
  magnitude_ofMagnitude (ofQuotient_lt_signBit n 1)

theorem isNegative_ofNat (n : Nat) : (ofNat n).isNegative = false :=
  isNegative_ofMagnitude (ofQuotient_lt_signBit n 1)

/-- Overflow begins half a step below `2 ^ 1024`. -/
theorem ofQuotient_lt_infinity (h : n < 2 ^ 1023) :
    binary64.ofQuotient n 1 < binary64.infinity := by
  obtain ⟨scale, hone, rfl⟩ := exists_one_eq
  have hne : binary64.ofQuotient n 1 ≠ binary64.infinity := by
    rw [Ne, Format.ofQuotient, Format.nearest_eq_infinity_iff Nat.one_pos
      (show Nat.pow 2 11 = 2045 + 3 from rfl), Nat.not_le, hone, Nat.one_mul]
    calc 2 * (n * 2 ^ 1074) < 2 * (2 ^ 1023 * 2 ^ 1074) := by omega
      _ = 2 ^ 53 * 2 ^ 2045 := by rw [← pow_add, ← pow_add, ← pow_succ']
      _ ≤ (4 * binary64.implicitBit - 1) * 2 ^ 2045 := Nat.mul_le_mul_right _ (by decide)
  exact Nat.lt_of_le_of_ne (Nat.min_le_right ..) hne

/-- A distance from the absolute value of a double as a distance of numbers of units. -/
theorem abs_natCast_sub_abs_value (n : Nat) (y : Double) :
    |(n - |y.value| : ℚ)| = (|((n * one : ℕ) : ℤ) - (1 * y.units : ℕ)| : ℤ) / (one : ℚ) := by
  have hone : (0 : ℚ) < one := Nat.cast_pos.mpr one_pos
  rw [abs_value, sub_div' hone.ne', abs_div, abs_of_pos hone]
  push_cast
  rw [one_mul]

theorem abs_value_ofNat (n : Nat) : |(ofNat n).value| = (ofNat n).value := by
  rw [abs_value, value_eq, isNegative_ofNat, if_neg Bool.false_ne_true, one_mul]

/-- Only absolute values count where a number is not negative. -/
theorem abs_natCast_sub_abs_le (n : Nat) (y : Double) :
    |(n - |y.value| : ℚ)| ≤ |(n - y.value : ℚ)| := by
  have h := abs_abs_sub_abs_le (n : ℚ) y.value
  rwa [Nat.abs_cast] at h

theorem abs_sub_ofNat_le (h : n < 2 ^ 1023) (y : Double) :
    |(n - (ofNat n).value : ℚ)| ≤ |(n - |y.value| : ℚ)| := by
  have hunits : (ofNat n).units = binary64.units (binary64.ofQuotient n 1) := by
    rw [units, magnitude_ofNat]
  rw [← abs_value_ofNat, abs_natCast_sub_abs_value, abs_natCast_sub_abs_value, hunits]
  refine div_le_div_of_nonneg_right ?_ (Nat.cast_nonneg _)
  exact_mod_cast Format.abs_nearest_le Nat.one_pos (ofQuotient_lt_infinity h) y.magnitude

/-- If a double of another absolute value is as near, the magnitude is even. -/
theorem even_magnitude_ofNat (h : n < 2 ^ 1023) {y : Double}
    (htie : |(n - (ofNat n).value : ℚ)| = |(n - |y.value| : ℚ)|)
    (hne : |y.value| ≠ (ofNat n).value) : Even (ofNat n).magnitude := by
  have hone : (one : ℚ) ≠ 0 := Nat.cast_ne_zero.mpr one_pos.ne'
  have hunits : (ofNat n).units = binary64.units (binary64.ofQuotient n 1) := by
    rw [units, magnitude_ofNat]
  have hdistinct : y.units ≠ (ofNat n).units := fun heq =>
    hne (by rw [← abs_value_ofNat, abs_value, abs_value, heq])
  rw [← abs_value_ofNat, abs_natCast_sub_abs_value, abs_natCast_sub_abs_value,
    div_left_inj' hone, Int.cast_inj, hunits] at htie
  rw [hunits] at hdistinct
  rw [magnitude_ofNat]
  exact Format.even_nearest Nat.one_pos (by decide) (ofQuotient_lt_infinity h) htie hdistinct

/-- A natural number becomes the nearest double. -/
theorem isNearest_ofNat (h : n < 2 ^ 1023) : (ofNat n).IsNearest n where
  isFinite := by
    rw [Double.isFinite, magnitude_ofNat]
    exact decide_eq_true (ofQuotient_lt_infinity h)
  abs_sub_le y _ := (abs_sub_ofNat_le h y).trans (abs_natCast_sub_abs_le n y)
  even y _ htie hne := by
    by_cases habs : |y.value| = (ofNat n).value
    -- The opposite number is as near only if both are zero.
    · exfalso
      have hopposite : y.value = -(ofNat n).value := by
        rw [← abs_value_ofNat] at habs
        exact (abs_eq_abs.mp habs).resolve_left hne
      have hle := abs_sub_ofNat_le h zero
      have hzero : zero.value = 0 := Format.value_zero (by decide)
      rw [hopposite] at htie hne
      rw [hzero, abs_zero, sub_zero] at hle
      rcases abs_eq_abs.mp htie with heq | heq
      · have hvalue : (ofNat n).value = 0 := by linarith
        exact hne (by rw [hvalue, neg_zero])
      · have hn : (n : ℚ) = 0 := by linarith
        rw [hn, abs_zero, zero_sub, abs_neg] at hle
        exact hne (by rw [abs_nonpos_iff.mp hle, neg_zero])
    · refine even_magnitude_ofNat h ?_ habs
      exact (abs_sub_ofNat_le h y).antisymm ((abs_natCast_sub_abs_le n y).trans_eq htie.symm)

end ArrayEngine.Binary.Double
