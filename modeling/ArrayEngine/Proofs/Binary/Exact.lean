import ArrayEngine.Value.Coercion
import Mathlib.Tactic.Ring

/-!
# Integers as floating-point numbers

A number of units that has a magnitude of its own is rounded to that magnitude, so integers of at
most `fractionBits + 1` bits become numbers and come back unchanged. This is what lets a store
keep 32-bit integers in place of the numbers that were written.

## Main results

* `Format.nearest_units`: the units of a magnitude are rounded to that magnitude
* `Format.units_ofQuotient`: an integer that is not too long is represented exactly
* `Double.exactInt32?_ofInt`, `Double.exactInt32?_eq_some`: the two directions for 32 bits
-/

namespace ArrayEngine.Binary

theorem roundHalfEven_mul (m : Nat) {den : Nat} (h : 0 < den) :
    roundHalfEven (m * den) den = m := by
  simp [roundHalfEven, Nat.mul_div_cancel m h, h]

namespace Format

variable {f : Format}

theorem implicitBit_pos : 0 < f.implicitBit := Nat.two_pow_pos _

theorem one_pos : 0 < f.one := Nat.two_pow_pos _

/-! ### Units of a magnitude -/

theorem units_of_lt {m : Nat} (h : m < f.implicitBit) : f.units m = m := by
  simp [units, Nat.div_eq_of_lt h, Nat.mod_eq_of_lt h]

/-- A significand with its implicit bit, `shift` places up. -/
theorem units_add {m : Nat} (hle : f.implicitBit ≤ m) (hlt : m < 2 * f.implicitBit) (shift : Nat) :
    f.units (shift * f.implicitBit + m) = m * Nat.pow 2 shift := by
  obtain ⟨fraction, rfl⟩ := Nat.exists_eq_add_of_le hle
  have hfraction : fraction < f.implicitBit := by omega
  have hsplit : shift * f.implicitBit + (f.implicitBit + fraction)
      = fraction + f.implicitBit * (shift + 1) := by ring
  have hdiv : (fraction + f.implicitBit * (shift + 1)) / f.implicitBit = shift + 1 := by
    rw [Nat.add_mul_div_left _ _ implicitBit_pos, Nat.div_eq_of_lt hfraction, Nat.zero_add]
  have hmod : (fraction + f.implicitBit * (shift + 1)) % f.implicitBit = fraction := by
    rw [Nat.add_mul_mod_self_left, Nat.mod_eq_of_lt hfraction]
  simp [units, hsplit, hdiv, hmod]

/-- A magnitude with an implicit bit is such a significand. -/
theorem exists_significand {m : Nat} (h : f.implicitBit ≤ m) :
    ∃ shift significand, f.implicitBit ≤ significand ∧ significand < 2 * f.implicitBit ∧
      m = shift * f.implicitBit + significand := by
  have hpos : 0 < m / f.implicitBit := Nat.div_pos h implicitBit_pos
  have hmod := Nat.mod_lt m (implicitBit_pos (f := f))
  refine ⟨m / f.implicitBit - 1, f.implicitBit + m % f.implicitBit, by omega, by omega, ?_⟩
  calc m = m / f.implicitBit * f.implicitBit + m % f.implicitBit := (Nat.div_add_mod' _ _).symm
    _ = (m / f.implicitBit - 1 + 1) * f.implicitBit + m % f.implicitBit := by
        rw [Nat.sub_add_cancel hpos]
    _ = (m / f.implicitBit - 1) * f.implicitBit + (f.implicitBit + m % f.implicitBit) := by ring

/-! ### Rounding what needs no rounding -/

theorem nearest_of_lt {u : Nat} (h : u < 2 * f.implicitBit) :
    f.nearest u 1 = min u f.infinity := by
  have hlog : u.log2 - f.fractionBits = 0 := by
    rcases Nat.eq_zero_or_pos u with rfl | hu
    · simp
    · have : u.log2 < f.fractionBits + 1 := by
        rw [Nat.log2_lt (by omega), pow_succ]
        simp only [implicitBit, Nat.pow_eq] at h
        omega
      omega
  have hround := roundHalfEven_mul u Nat.one_pos
  simp only [mul_one] at hround
  simp [nearest, hlog, hround]

theorem nearest_mul_pow {m : Nat} (hle : f.implicitBit ≤ m) (hlt : m < 2 * f.implicitBit)
    (shift : Nat) :
    f.nearest (m * Nat.pow 2 shift) 1 = min (shift * f.implicitBit + m) f.infinity := by
  have hm : m ≠ 0 := by have := implicitBit_pos (f := f); omega
  have hlog : (m * Nat.pow 2 shift).log2 = f.fractionBits + shift := by
    simp only [implicitBit, Nat.pow_eq] at hle hlt ⊢
    rw [Nat.log2_eq_iff (Nat.mul_ne_zero hm (Nat.two_pow_pos _).ne')]
    constructor
    · rw [pow_add]
      exact Nat.mul_le_mul_right _ hle
    · rw [show f.fractionBits + shift + 1 = f.fractionBits + 1 + shift by omega, pow_add]
      refine Nat.mul_lt_mul_of_pos_right ?_ (Nat.two_pow_pos _)
      rwa [pow_succ, Nat.mul_comm]
  have hround : roundHalfEven (m * Nat.pow 2 shift) (1 * Nat.pow 2 shift) = m := by
    rw [one_mul]
    exact roundHalfEven_mul m (Nat.two_pow_pos shift)
  simp only [nearest, Nat.div_one, hlog, Nat.add_sub_cancel_left, hround]

/-- The units of a magnitude are rounded to that magnitude. -/
theorem nearest_units {m : Nat} (h : m ≤ f.infinity) : f.nearest (f.units m) 1 = m := by
  rcases Nat.lt_or_ge m f.implicitBit with hlt | hle
  · rw [units_of_lt hlt, nearest_of_lt (by omega)]
    exact Nat.min_eq_left h
  · obtain ⟨shift, significand, hle', hlt', rfl⟩ := exists_significand hle
    rw [units_add hle' hlt', nearest_mul_pow hle' hlt']
    exact Nat.min_eq_left h

/-! ### Integers -/

/-- The bits of an integer that is not too long, shifted up to where the implicit bit is. -/
theorem significand_bounds {n : Nat} (hn : n < 2 * f.implicitBit) (hn₀ : n ≠ 0) :
    f.implicitBit ≤ n * 2 ^ (f.fractionBits - n.log2) ∧
      n * 2 ^ (f.fractionBits - n.log2) < 2 * f.implicitBit := by
  have hlog : n.log2 ≤ f.fractionBits := by
    rw [← Nat.lt_succ_iff, Nat.log2_lt hn₀, pow_succ, Nat.mul_comm]
    exact hn
  constructor
  · calc f.implicitBit = 2 ^ n.log2 * 2 ^ (f.fractionBits - n.log2) := by
          rw [← pow_add, Nat.add_sub_cancel' hlog]; rfl
      _ ≤ n * 2 ^ (f.fractionBits - n.log2) := Nat.mul_le_mul_right _ (Nat.log2_self_le hn₀)
  · calc n * 2 ^ (f.fractionBits - n.log2) < 2 ^ (n.log2 + 1) * 2 ^ (f.fractionBits - n.log2) :=
          Nat.mul_lt_mul_of_pos_right Nat.lt_log2_self (Nat.two_pow_pos _)
      _ = 2 * 2 ^ (n.log2 + (f.fractionBits - n.log2)) := by rw [pow_add, pow_succ]; ring
      _ = 2 * f.implicitBit := by rw [Nat.add_sub_cancel' hlog]; rfl

/-- An integer of at most `fractionBits + 1` bits is a number of the format. The hypothesis on the
scale says that the format has integers of that length; each of the three formats does. -/
theorem ofQuotient_eq {n : Nat} (hn : n < 2 * f.implicitBit) (hn₀ : n ≠ 0)
    (hscale : f.fractionBits ≤ f.scale) (hrange : f.scale + 2 < Nat.pow 2 f.exponentBits) :
    ∃ shift significand, f.implicitBit ≤ significand ∧ significand < 2 * f.implicitBit ∧
      n * f.one = significand * Nat.pow 2 shift ∧
      f.ofQuotient n 1 = shift * f.implicitBit + significand ∧
      f.ofQuotient n 1 < f.infinity := by
  have hlog : n.log2 ≤ f.fractionBits := by
    rw [← Nat.lt_succ_iff, Nat.log2_lt hn₀, pow_succ, Nat.mul_comm]
    exact hn
  obtain ⟨hle, hlt⟩ := significand_bounds hn hn₀
  have hone : n * f.one = n * 2 ^ (f.fractionBits - n.log2)
      * Nat.pow 2 (f.scale - f.fractionBits + n.log2) := by
    simp only [one, Nat.pow_eq]
    rw [Nat.mul_assoc, ← pow_add]
    congr 2
    omega
  have hshift : (f.scale - f.fractionBits + n.log2) * f.implicitBit
      + n * 2 ^ (f.fractionBits - n.log2) < f.infinity := by
    calc (f.scale - f.fractionBits + n.log2) * f.implicitBit + n * 2 ^ (f.fractionBits - n.log2)
        < f.scale * f.implicitBit + 2 * f.implicitBit := by
          have := Nat.mul_le_mul_right f.implicitBit
            (show f.scale - f.fractionBits + n.log2 ≤ f.scale by omega)
          omega
      _ = (f.scale + 2) * f.implicitBit := by ring
      _ ≤ f.infinity := Nat.mul_le_mul_right _ (by omega)
  refine ⟨_, _, hle, hlt, hone, ?_, ?_⟩
  · rw [ofQuotient, hone, nearest_mul_pow hle hlt, Nat.min_eq_left hshift.le]
  · rwa [ofQuotient, hone, nearest_mul_pow hle hlt, Nat.min_eq_left hshift.le]

theorem infinity_pos (hrange : f.scale + 2 < Nat.pow 2 f.exponentBits) : 0 < f.infinity :=
  Nat.mul_pos (by omega) implicitBit_pos

theorem ofQuotient_zero : f.ofQuotient 0 1 = 0 := by
  have := nearest_of_lt (f := f) (u := 0) (by have := implicitBit_pos (f := f); omega)
  simpa [ofQuotient] using this

theorem ofQuotient_lt_infinity {n : Nat} (hn : n < 2 * f.implicitBit)
    (hscale : f.fractionBits ≤ f.scale) (hrange : f.scale + 2 < Nat.pow 2 f.exponentBits) :
    f.ofQuotient n 1 < f.infinity := by
  by_cases hn₀ : n = 0
  · rw [hn₀, ofQuotient_zero]
    exact infinity_pos hrange
  · obtain ⟨_, _, _, _, _, _, h⟩ := ofQuotient_eq hn hn₀ hscale hrange
    exact h

/-- **Exactness.** An integer of at most `fractionBits + 1` bits is represented exactly. -/
theorem units_ofQuotient {n : Nat} (hn : n < 2 * f.implicitBit)
    (hscale : f.fractionBits ≤ f.scale) (hrange : f.scale + 2 < Nat.pow 2 f.exponentBits) :
    f.units (f.ofQuotient n 1) = n * f.one := by
  by_cases hn₀ : n = 0
  · rw [hn₀, ofQuotient_zero, units_of_lt implicitBit_pos, Nat.zero_mul]
  · obtain ⟨shift, significand, hle, hlt, hone, heq, _⟩ := ofQuotient_eq hn hn₀ hscale hrange
    rw [heq, units_add hle hlt, hone]

/-! ### Signs and magnitudes -/

theorem isNegative_pattern (negative : Bool) {m : Nat} (h : m < f.signBit) :
    f.isNegative (f.pattern negative m) = negative := by
  rw [isNegative, pattern]
  cases negative <;> simp [h]

theorem magnitude_pattern (negative : Bool) {m : Nat} (h : m < f.signBit) :
    f.magnitude (f.pattern negative m) = m := by
  rw [magnitude, pattern]
  cases negative <;> simp [Nat.mod_eq_of_lt h]

/-- A pattern is its sign and its magnitude. -/
theorem pattern_isNegative_magnitude {bits : Nat} (h : bits < 2 * f.signBit) :
    f.pattern (f.isNegative bits) (f.magnitude bits) = bits := by
  rw [pattern, isNegative, magnitude]
  by_cases hsign : f.signBit ≤ bits
  · rw [if_pos (decide_eq_true hsign), Nat.mod_eq_sub_mod hsign, Nat.mod_eq_of_lt (by omega)]
    omega
  · rw [if_neg (by simpa using hsign), Nat.mod_eq_of_lt (by omega), Nat.zero_add]

end Format

namespace Double

variable {x : Double} {n : Int}

/-! ### Signs and magnitudes -/

theorem infinity_lt_signBit : binary64.infinity < binary64.signBit := by decide

theorem toNat_ofMagnitude {negative : Bool} {m : Nat} (h : m < binary64.signBit) :
    (ofMagnitude negative m).bits.toNat = binary64.pattern negative m := by
  have hsign : binary64.signBit = 2 ^ 63 := rfl
  rw [ofMagnitude, UInt64.toNat_ofNat']
  apply Nat.mod_eq_of_lt
  rw [Format.pattern]
  split <;> omega

theorem isNegative_ofMagnitude {negative : Bool} {m : Nat} (h : m < binary64.signBit) :
    (ofMagnitude negative m).isNegative = negative := by
  rw [isNegative, toNat_ofMagnitude h, Format.isNegative_pattern negative h]

theorem magnitude_ofMagnitude {negative : Bool} {m : Nat} (h : m < binary64.signBit) :
    (ofMagnitude negative m).magnitude = m := by
  rw [magnitude, toNat_ofMagnitude h, Format.magnitude_pattern negative h]

/-- A number is its sign and its magnitude. -/
theorem ofMagnitude_isNegative_magnitude (x : Double) :
    ofMagnitude x.isNegative x.magnitude = x := by
  rw [ofMagnitude, isNegative, magnitude,
    Format.pattern_isNegative_magnitude (show x.bits.toNat < 2 ^ 64 from x.bits.toNat_lt),
    UInt64.ofNat_toNat]

theorem natAbs_withSign (x : Double) (m : Nat) : (x.withSign m).natAbs = m := by
  rw [withSign]
  split <;> simp

theorem withSign_of_isNegative (h : x.isNegative = true) (m : Nat) : x.withSign m = -m := by
  simp [withSign, h]

theorem withSign_of_not_isNegative (h : x.isNegative = false) (m : Nat) : x.withSign m = m := by
  simp [withSign, h]

theorem toInt_of_not_isNaN (h : x.isNaN = false) : x.toInt = x.withSign (x.units / one) := by
  simp only [toInt, h, Bool.false_eq_true, if_false]

/-! ### Integers as numbers -/

theorem natAbs_lt (h : n.natAbs < 2 ^ 53) : n.natAbs < 2 * binary64.implicitBit := h

theorem magnitude_ofInt_lt (h : n.natAbs < 2 ^ 53) :
    binary64.ofQuotient n.natAbs 1 < binary64.infinity :=
  Format.ofQuotient_lt_infinity (natAbs_lt h) (by decide) (by decide)

theorem magnitude_ofInt (h : n.natAbs < 2 ^ 53) :
    (ofInt n).magnitude = binary64.ofQuotient n.natAbs 1 :=
  magnitude_ofMagnitude ((magnitude_ofInt_lt h).trans infinity_lt_signBit)

theorem isNegative_ofInt (h : n.natAbs < 2 ^ 53) : (ofInt n).isNegative = decide (n < 0) :=
  isNegative_ofMagnitude ((magnitude_ofInt_lt h).trans infinity_lt_signBit)

theorem units_ofInt (h : n.natAbs < 2 ^ 53) : (ofInt n).units = n.natAbs * one := by
  rw [units, magnitude_ofInt h]
  exact Format.units_ofQuotient (natAbs_lt h) (by decide) (by decide)

theorem one_pos : 0 < one := Format.one_pos

theorem not_isNaN_ofInt (h : n.natAbs < 2 ^ 53) : (ofInt n).isNaN = false := by
  have := magnitude_ofInt_lt h
  simp only [isNaN, magnitude_ofInt h, decide_eq_false_iff_not]
  omega

theorem isIntegral_ofInt (h : n.natAbs < 2 ^ 53) : (ofInt n).isIntegral = true := by
  simp [isIntegral, isFinite, magnitude_ofInt h, magnitude_ofInt_lt h, units_ofInt h]

/-- An integer below `2 ^ 53` is a number and truncates to itself. -/
theorem toInt_ofInt (h : n.natAbs < 2 ^ 53) : (ofInt n).toInt = n := by
  have hunits : (ofInt n).units / one = n.natAbs := by
    rw [units_ofInt h, Nat.mul_div_cancel _ one_pos]
  rw [toInt_of_not_isNaN (not_isNaN_ofInt h), hunits]
  by_cases hn : n < 0
  · rw [withSign_of_isNegative (by simp [isNegative_ofInt h, hn])]
    omega
  · rw [withSign_of_not_isNegative (by simp [isNegative_ofInt h, hn])]
    omega

theorem not_isNegativeZero_ofInt (h : n.natAbs < 2 ^ 53) : (ofInt n).isNegativeZero = false := by
  rcases Int.lt_or_le n 0 with hn | hn
  · have hunits := units_ofInt h
    have hmag : (ofInt n).magnitude ≠ 0 := by
      intro h₀
      have hzero : (ofInt n).units = 0 := by rw [units, h₀]; rfl
      have := Nat.mul_pos (show 0 < n.natAbs by omega) one_pos
      omega
    simp [isNegativeZero, isZero, hmag]
  · simp [isNegativeZero, isNegative_ofInt h, hn]

/-- A number that is an integer, and not the negative zero, is the number of that integer. -/
theorem ofInt_toInt (hx : x.isIntegral) (hz : x.isNegativeZero = false) : ofInt x.toInt = x := by
  simp only [isIntegral, isFinite, Bool.and_eq_true, decide_eq_true_eq, beq_iff_eq] at hx
  obtain ⟨hfinite, hmod⟩ := hx
  have hnan : x.isNaN = false := by simp only [isNaN, decide_eq_false_iff_not]; omega
  have habs : x.toInt.natAbs = x.units / one := by
    rw [toInt_of_not_isNaN hnan, natAbs_withSign]
  have hunits : x.toInt.natAbs * one = x.units := by
    rw [habs]
    exact Nat.div_mul_cancel (Nat.dvd_of_mod_eq_zero hmod)
  have hmagnitude : binary64.ofQuotient x.toInt.natAbs 1 = x.magnitude := by
    rw [Format.ofQuotient, show binary64.one = one from rfl, hunits]
    exact Format.nearest_units hfinite.le
  have hsign : decide (x.toInt < 0) = x.isNegative := by
    cases hneg : x.isNegative with
    | false =>
      have := toInt_of_not_isNaN hnan
      rw [withSign_of_not_isNegative hneg] at this
      exact decide_eq_false (by omega)
    | true =>
      have hmag : x.magnitude ≠ 0 := by
        intro h₀
        simp [isNegativeZero, isZero, h₀, hneg] at hz
      have hpos : x.toInt.natAbs ≠ 0 := by
        intro h₀
        rw [h₀, Format.ofQuotient_zero] at hmagnitude
        exact hmag hmagnitude.symm
      have := toInt_of_not_isNaN hnan
      rw [withSign_of_isNegative hneg] at this
      exact decide_eq_true (by omega)
  rw [ofInt, ofQuotient, hmagnitude, hsign, ofMagnitude_isNegative_magnitude]

/-! ### Integers of 32 bits -/

theorem exactInt32?_ofInt (h₁ : -0x80000000 ≤ n) (h₂ : n < 0x80000000) :
    (ofInt n).exactInt32? = some n := by
  have h : n.natAbs < 2 ^ 53 := by omega
  simp [exactInt32?, isIntegral_ofInt h, not_isNegativeZero_ofInt h, toInt_ofInt h, h₁, h₂]

theorem exactInt32?_eq_some (h : x.exactInt32? = some n) :
    x.toInt = n ∧ ofInt n = x ∧ -0x80000000 ≤ n ∧ n < 0x80000000 := by
  simp only [exactInt32?, Bool.and_eq_true, Bool.not_eq_true', decide_eq_true_eq,
    Option.ite_none_right_eq_some, Option.some.injEq] at h
  obtain ⟨⟨⟨⟨hintegral, hzero⟩, h₁⟩, h₂⟩, rfl⟩ := h
  exact ⟨rfl, ofInt_toInt hintegral hzero, h₁, h₂⟩

end Double

end ArrayEngine.Binary
