import ArrayEngine.Proofs.Binary.Convert
import ArrayEngine.Proofs.Binary.Nearest
import Mathlib.Algebra.Order.Field.Power
import Mathlib.Data.Rat.Cast.Order
import Mathlib.Data.Rat.Floor
import Mathlib.Tactic.FieldSimp
import Mathlib.Tactic.Positivity

/-!
# The numbers that patterns stand for

A finite pattern stands for a rational number: the significand, with an implicit bit unless the
exponent field is zero, at the place that the exponent field gives. Counted in units of the least
positive number this is `Format.units`, so what is computed with units is computed with the numbers
themselves.

A conversion between formats rounds: no finite number of the target is nearer to the number that is
converted, and of two that are equally near the one with the even magnitude is taken. Signs do not
disturb this, since a number on the other side of zero is never nearer.

## Main definitions

* `Format.exponent`, `Format.fraction`: the two fields of a pattern
* `Format.IsFinite`, `Format.IsInfinite`
* `Format.value`, `Double.value`: the number that a finite pattern stands for
* `towardZero`: truncation of a rational number

## Main results

* `Format.value_eq`: the number of units, in units of the format, with the sign
* `Format.Embeds.value_convert`: widening keeps the number
* `Format.abs_sub_convert_le`, `Format.even_convert`, `Format.isInfinite_convert_iff`: conversion
  rounds
* `Double.towardZero_value`: truncation of a double is truncation of its number
-/

namespace ArrayEngine.Binary

namespace Format

variable {f : Format} {bits : Nat}

/-- Exponent field of a pattern. -/
def exponent (f : Format) (bits : Nat) : Nat := f.magnitude bits / f.implicitBit

/-- Fraction field of a pattern. -/
def fraction (f : Format) (bits : Nat) : Nat := f.magnitude bits % f.implicitBit

/-- What an exponent field is greater than its exponent by. -/
def bias (f : Format) : Nat := 2 ^ (f.exponentBits - 1) - 1

/-- The exponent field is not full. -/
def IsFinite (f : Format) (bits : Nat) : Prop := f.magnitude bits < f.infinity

/-- The exponent field is full and the fraction field is zero. -/
def IsInfinite (f : Format) (bits : Nat) : Prop := f.magnitude bits = f.infinity

/-- Sign of a pattern as a factor. -/
def sign (f : Format) (bits : Nat) : ℚ := if f.isNegative bits then -1 else 1

/-- Number that a finite pattern stands for. -/
def value (f : Format) (bits : Nat) : ℚ :=
  f.sign bits *
    if f.exponent bits = 0 then
      (f.fraction bits / 2 ^ f.fractionBits : ℚ) * (2 : ℚ) ^ (1 - f.bias : ℤ)
    else (1 + f.fraction bits / 2 ^ f.fractionBits : ℚ) * (2 : ℚ) ^ (f.exponent bits - f.bias : ℤ)

theorem abs_sign (f : Format) (bits : Nat) : |f.sign bits| = 1 := by
  rw [sign]
  split
  · rw [abs_neg, abs_one]
  · exact abs_one

/-- The unit is the least positive number. -/
theorem scale_eq (hexponent : 2 ≤ f.exponentBits) : f.scale + 1 = f.bias + f.fractionBits := by
  have hpow : 2 ^ 1 ≤ 2 ^ (f.exponentBits - 1) := Nat.pow_le_pow_right Nat.two_pos (by omega)
  simp only [scale, bias, Nat.pow_eq]
  omega

theorem value_eq (hexponent : 2 ≤ f.exponentBits) (bits : Nat) :
    f.value bits = f.sign bits * (f.units (f.magnitude bits) / f.one) := by
  have hscale : (f.bias : ℤ) = f.scale + 1 - f.fractionBits := by
    have := scale_eq hexponent
    omega
  have htwo : (2 : ℚ) ≠ 0 := two_ne_zero
  rw [value, units, one, implicitBit]
  simp only [Nat.pow_eq]
  change f.sign bits * (if f.exponent bits = 0 then _ else _) = f.sign bits *
    (((if f.exponent bits = 0 then f.fraction bits
      else (2 ^ f.fractionBits + f.fraction bits) * 2 ^ (f.exponent bits - 1) : ℕ) : ℚ) /
        ((2 ^ f.scale : ℕ) : ℚ))
  congr 1
  split
  · rw [hscale, show (1 - (f.scale + 1 - f.fractionBits) : ℤ) = f.fractionBits - f.scale by ring,
      zpow_sub₀ htwo, zpow_natCast, zpow_natCast]
    push_cast
    field_simp
  · rename_i hne
    obtain ⟨e, he⟩ := Nat.exists_eq_succ_of_ne_zero hne
    rw [he, hscale, show ((e.succ : ℕ) - (f.scale + 1 - f.fractionBits) : ℤ)
      = e + f.fractionBits - f.scale by push_cast; ring, zpow_sub₀ htwo, zpow_add₀ htwo]
    simp only [zpow_natCast, Nat.succ_sub_one]
    push_cast
    field_simp

theorem abs_value (hexponent : 2 ≤ f.exponentBits) (bits : Nat) :
    |f.value bits| = f.units (f.magnitude bits) / f.one := by
  have hunits : (0 : ℚ) ≤ f.units (f.magnitude bits) / f.one := by positivity
  rw [value_eq hexponent, abs_mul, abs_sign, one_mul, abs_of_nonneg hunits]

/-- A number is its absolute value with the sign of its pattern. -/
theorem sign_mul_abs_value (hexponent : 2 ≤ f.exponentBits) (bits : Nat) :
    f.sign bits * |f.value bits| = f.value bits := by
  rw [abs_value hexponent, ← value_eq hexponent]

theorem units_zero : f.units 0 = 0 := units_of_lt implicitBit_pos

theorem value_zero (hexponent : 2 ≤ f.exponentBits) : f.value 0 = 0 := by
  have hunits : f.units (f.magnitude 0) = 0 := by rw [magnitude, Nat.zero_mod, units_zero]
  rw [value_eq hexponent, hunits, Nat.cast_zero, zero_div, mul_zero]

/-! ### Numbers under conversion -/

section Convert

variable {g : Format}

theorem isNegative_convert (hg : 0 < g.fractionBits) (bits : Nat) :
    g.isNegative (f.convert g bits) = f.isNegative bits := by
  obtain ⟨m, heq, hm, -⟩ := exists_convert (f := f) hg bits
  rw [heq, isNegative_pattern _ hm]

theorem magnitude_convert (hfinite : f.IsFinite bits) :
    g.magnitude (f.convert g bits) = g.ofQuotient (f.units (f.magnitude bits)) f.one := by
  have hle : g.ofQuotient (f.units (f.magnitude bits)) f.one ≤ g.infinity := Nat.min_le_right ..
  rw [convert_of_lt hfinite, magnitude_pattern _ (hle.trans_lt g.infinity_lt_signBit)]

/-- Widening keeps the number. -/
theorem Embeds.value_convert (h : f.Embeds g) (hf : 2 ≤ f.exponentBits) (hg : 2 ≤ g.exponentBits)
    (hfraction : 0 < g.fractionBits) (hfinite : f.IsFinite bits) :
    g.IsFinite (f.convert g bits) ∧ g.value (f.convert g bits) = f.value bits := by
  obtain ⟨hlt, hunits⟩ := h.units_ofQuotient hfinite
  have hone : (g.one : ℚ) = 2 ^ (g.scale - f.scale) * f.one := by exact_mod_cast h.one_eq
  rw [IsFinite, value_eq hg, value_eq hf, sign, sign, isNegative_convert hfraction,
    magnitude_convert hfinite, hunits, hone]
  refine ⟨hlt, ?_⟩
  push_cast
  rw [mul_comm (f.units (f.magnitude bits) : ℚ), mul_div_mul_left _ _ (by positivity)]

/-- A distance of absolute values as a distance of integers. -/
theorem abs_abs_value_sub (hf : 2 ≤ f.exponentBits) (hg : 2 ≤ g.exponentBits) (a b : Nat) :
    |(|f.value a| - |g.value b|)|
      = (|((f.units (f.magnitude a) * g.one : ℕ) : ℤ) - (f.one * g.units (g.magnitude b) : ℕ)| : ℤ)
        / (f.one * g.one : ℚ) := by
  have hfone : (0 : ℚ) < f.one := Nat.cast_pos.mpr one_pos
  have hgone : (0 : ℚ) < g.one := Nat.cast_pos.mpr one_pos
  rw [abs_value hf, abs_value hg, div_sub_div _ _ hfone.ne' hgone.ne', abs_div,
    abs_of_pos (mul_pos hfone hgone)]
  push_cast
  rfl

/-- Between numbers of the same sign only the absolute values count. -/
theorem abs_sub_convert (hf : 2 ≤ f.exponentBits) (hg : 2 ≤ g.exponentBits)
    (hfraction : 0 < g.fractionBits) (bits : Nat) :
    |f.value bits - g.value (f.convert g bits)|
      = |(|f.value bits| - |g.value (f.convert g bits)|)| := by
  have hsign : g.sign (f.convert g bits) = f.sign bits := by
    rw [sign, sign, isNegative_convert hfraction]
  calc |f.value bits - g.value (f.convert g bits)|
      = |(f.sign bits * |f.value bits| - f.sign bits * |g.value (f.convert g bits)|)| := by
        rw [sign_mul_abs_value hf, ← hsign, sign_mul_abs_value hg]
    _ = |(|f.value bits| - |g.value (f.convert g bits)|)| := by
        rw [← mul_sub, abs_mul, abs_sign, one_mul]

theorem abs_abs_sub_convert_le (hf : 2 ≤ f.exponentBits) (hg : 2 ≤ g.exponentBits)
    (hfinite : f.IsFinite bits) (hrange : g.IsFinite (f.convert g bits)) (other : Nat) :
    |(|f.value bits| - |g.value (f.convert g bits)|)| ≤ |(|f.value bits| - |g.value other|)| := by
  rw [IsFinite, magnitude_convert hfinite] at hrange
  rw [abs_abs_value_sub hf hg, abs_abs_value_sub hf hg, magnitude_convert hfinite]
  refine div_le_div_of_nonneg_right ?_ (by positivity)
  exact_mod_cast abs_nearest_le one_pos hrange (g.magnitude other)

/-- No number of the target is nearer than the one to which a number is converted. -/
theorem abs_sub_convert_le (hf : 2 ≤ f.exponentBits) (hg : 2 ≤ g.exponentBits)
    (hfraction : 0 < g.fractionBits) (hfinite : f.IsFinite bits)
    (hrange : g.IsFinite (f.convert g bits)) (other : Nat) :
    |f.value bits - g.value (f.convert g bits)| ≤ |f.value bits - g.value other| :=
  calc |f.value bits - g.value (f.convert g bits)|
      = |(|f.value bits| - |g.value (f.convert g bits)|)| := abs_sub_convert hf hg hfraction bits
    _ ≤ |(|f.value bits| - |g.value other|)| := abs_abs_sub_convert_le hf hg hfinite hrange other
    _ ≤ |f.value bits - g.value other| := abs_abs_sub_abs_le ..

/-- If another number of the target is as near, the one that is taken has an even magnitude. -/
theorem even_convert (hf : 2 ≤ f.exponentBits) (hg : 2 ≤ g.exponentBits)
    (hfraction : 0 < g.fractionBits) (hfinite : f.IsFinite bits)
    (hrange : g.IsFinite (f.convert g bits)) {other : Nat}
    (htie : |f.value bits - g.value (f.convert g bits)| = |f.value bits - g.value other|)
    (hne : g.value other ≠ g.value (f.convert g bits)) :
    Even (g.magnitude (f.convert g bits)) := by
  have hnearest := abs_sub_convert_le hf hg hfraction hfinite hrange
  by_cases habs : |g.value other| = |g.value (f.convert g bits)|
  -- The only other number at the same distance from zero is as near to zero alone, which is kept.
  · exfalso
    have hopposite : g.value other = -g.value (f.convert g bits) :=
      (abs_eq_abs.mp habs).resolve_left hne
    rw [hopposite] at htie hne
    rcases abs_eq_abs.mp htie with heq | heq
    · have hzero : g.value (f.convert g bits) = 0 := by linarith
      exact hne (by rw [hzero, neg_zero])
    · have hzero : f.value bits = 0 := by linarith
      have hle := hnearest 0
      rw [hzero, value_zero hg, sub_zero, abs_zero, zero_sub, abs_neg] at hle
      have hresult : g.value (f.convert g bits) = 0 := abs_nonpos_iff.mp hle
      exact hne (by rw [hresult, neg_zero])
  · have hdistance : |(|f.value bits| - |g.value (f.convert g bits)|)|
        = |(|f.value bits| - |g.value other|)| := by
      refine (abs_abs_sub_convert_le hf hg hfinite hrange other).antisymm ?_
      calc |(|f.value bits| - |g.value other|)| ≤ |f.value bits - g.value other| :=
            abs_abs_sub_abs_le ..
        _ = |f.value bits - g.value (f.convert g bits)| := htie.symm
        _ = |(|f.value bits| - |g.value (f.convert g bits)|)| :=
            abs_sub_convert hf hg hfraction bits
    have hunits : g.units (g.magnitude other) ≠ g.units (g.magnitude (f.convert g bits)) :=
      fun heq => habs (by rw [abs_value hg, abs_value hg, heq])
    have hone : (f.one * g.one : ℚ) ≠ 0 :=
      mul_ne_zero (Nat.cast_ne_zero.mpr one_pos.ne') (Nat.cast_ne_zero.mpr one_pos.ne')
    rw [abs_abs_value_sub hf hg, abs_abs_value_sub hf hg, div_left_inj' hone, Int.cast_inj]
      at hdistance
    rw [IsFinite] at hrange
    rw [magnitude_convert hfinite] at hdistance hunits hrange ⊢
    exact even_nearest one_pos hfraction hrange hdistance hunits

/-- What is converted to an infinity: the numbers from half a step above the greatest finite number
of the target on. -/
theorem isInfinite_convert_iff (hf : 2 ≤ f.exponentBits) (hfinite : f.IsFinite bits) {top : Nat}
    (htop : Nat.pow 2 g.exponentBits = top + 3) :
    g.IsInfinite (f.convert g bits)
      ↔ ((4 * g.implicitBit - 1 : ℕ) * 2 ^ top : ℚ) ≤ 2 * (|f.value bits| * g.one) := by
  have hone : (0 : ℚ) < f.one := Nat.cast_pos.mpr one_pos
  have hscaled : 2 * (|f.value bits| * g.one)
      = (2 * (f.units (f.magnitude bits) * g.one) : ℕ) / (f.one : ℚ) := by
    rw [abs_value hf]
    push_cast
    ring
  rw [IsInfinite, magnitude_convert hfinite, ofQuotient, nearest_eq_infinity_iff one_pos htop,
    hscaled, le_div_iff₀ hone, mul_assoc, mul_comm ((2 : ℚ) ^ top)]
  norm_cast

end Convert

end Format

/-! ### Integers next to a number -/

/-- No integer is nearer to a quotient than the one to which it is rounded, and if another one is as
near, it is even. -/
theorem abs_sub_roundHalfEven (num : Nat) {den : Nat} (hden : 0 < den) (n : ℤ) :
    |(num / den - roundHalfEven num den : ℚ)| ≤ |(num / den - n : ℚ)| ∧
      (|(num / den - roundHalfEven num den : ℚ)| = |(num / den - n : ℚ)| →
        n ≠ roundHalfEven num den → Even (roundHalfEven num den)) := by
  have hden' : (0 : ℚ) < den := Nat.cast_pos.mpr hden
  have hscale (k : ℕ) : |(num / den - k : ℚ)| = (|(num : ℤ) - (den * k : ℕ)| : ℤ) / (den : ℚ) := by
    rw [div_sub' hden'.ne', abs_div, abs_of_pos hden']
    push_cast
    rfl
  have hnatural (k : ℕ) :
      |(num / den - roundHalfEven num den : ℚ)| ≤ |(num / den - k : ℚ)| := by
    rw [hscale, hscale]
    refine div_le_div_of_nonneg_right ?_ hden'.le
    exact_mod_cast le_abs_roundHalfEven num hden k
  rcases Int.lt_or_le n 0 with hneg | hpos
  -- A negative integer is farther away than zero.
  · have hfar : |(num / den - (0 : ℕ) : ℚ)| < |(num / den - n : ℚ)| := by
      have hquotient : (0 : ℚ) ≤ num / den := by positivity
      have hn : (n : ℚ) < 0 := Int.cast_lt_zero.mpr hneg
      rw [Nat.cast_zero, sub_zero, abs_of_nonneg hquotient, abs_of_pos (by linarith)]
      linarith
    have hlt := (hnatural 0).trans_lt hfar
    exact ⟨hlt.le, fun htie => absurd htie hlt.ne⟩
  · obtain ⟨k, rfl⟩ := Int.eq_ofNat_of_zero_le hpos
    rw [Int.cast_natCast]
    refine ⟨hnatural k, fun htie hne => ?_⟩
    rw [hscale, hscale, div_left_inj' hden'.ne', Int.cast_inj] at htie
    refine even_roundHalfEven num hden htie fun heq => hne ?_
    rw [Nat.eq_of_mul_eq_mul_left hden heq]

/-! ### Truncation -/

/-- A rational number without its fractional part. -/
def towardZero (q : ℚ) : ℤ := if 0 ≤ q then ⌊q⌋ else ⌈q⌉

theorem towardZero_neg (q : ℚ) : towardZero (-q) = -towardZero q := by
  rcases lt_trichotomy q 0 with hneg | rfl | hpos
  · rw [towardZero, towardZero, if_pos (by linarith), if_neg (by linarith), Int.floor_neg]
  · simp [towardZero]
  · rw [towardZero, towardZero, if_neg (by linarith), if_pos (by linarith), Int.ceil_neg]

/-! ### Doubles -/

namespace Double

/-- Number that a finite double stands for. -/
def value (x : Double) : ℚ := binary64.value x.bits.toNat

variable {x : Double}

theorem value_eq (x : Double) :
    x.value = (if x.isNegative then -1 else 1) * ((x.units : ℚ) / one) :=
  Format.value_eq (by decide) _

theorem abs_value (x : Double) : |x.value| = (x.units : ℚ) / one := Format.abs_value (by decide) _

/-- Number of units in one, by the place of the unit. -/
theorem exists_one_eq : ∃ scale, binary64.one = 2 ^ scale ∧ scale = 1074 :=
  ⟨binary64.scale, by rw [Format.one, Nat.pow_eq], by decide⟩

theorem not_isNaN_of_isFinite (hx : x.isFinite) : x.isNaN = false := by
  have hlt : x.magnitude < binary64.infinity := of_decide_eq_true hx
  exact decide_eq_false (Nat.lt_asymm hlt)

theorem isFinite_of_not_isNaN (hnan : x.isNaN = false) (hinfinite : x.isInfinite = false) :
    x.isFinite := by
  have hle : ¬binary64.infinity < x.magnitude := of_decide_eq_false hnan
  have hne : ¬x.magnitude = binary64.infinity := of_decide_eq_false hinfinite
  exact decide_eq_true (by omega)

theorem not_isNaN_of_isInfinite (hx : x.isInfinite) : x.isNaN = false := by
  have heq : x.magnitude = binary64.infinity := of_decide_eq_true hx
  exact decide_eq_false (by omega)

theorem units_of_isInfinite (hx : x.isInfinite) : x.units = binary64.units binary64.infinity :=
  congrArg binary64.units (of_decide_eq_true hx)

/-- Truncation of a double is truncation of its number. -/
theorem towardZero_value (hnan : x.isNaN = false) : towardZero x.value = x.toInt := by
  have hunits : (0 : ℚ) ≤ x.units / one := by positivity
  have hfloor : towardZero ((x.units : ℚ) / one) = (x.units / one : ℕ) := by
    rw [towardZero, if_pos hunits]
    exact Rat.floor_natCast_div_natCast ..
  rw [toInt_of_not_isNaN hnan, value_eq, withSign]
  split
  · rw [neg_one_mul, towardZero_neg, hfloor]
  · rw [one_mul, hfloor]

end Double

end ArrayEngine.Binary
