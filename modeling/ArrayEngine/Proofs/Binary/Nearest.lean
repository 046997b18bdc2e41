import ArrayEngine.Proofs.Binary.Exact
import Mathlib.Algebra.Order.Group.Int

/-!
# Rounding to the nearest magnitude

`Format.nearest` picks a shift by the length of the quotient and rounds once at that place. That the
result is nearest among all magnitudes, and not only among those with the same exponent, is what has
to be shown: magnitudes with a greater exponent are multiples of the same power of two, and those
with a smaller one lie below the least significand at that place.

Numbers are compared as numbers of units, and distances as distances of integers, so nothing here is
a fraction: `|num / den - n|` is `|num - den * n|` up to the factor `den`.

## Main results

* `le_abs_roundHalfEven`, `even_roundHalfEven`: quotients rounded to integers
* `Format.abs_nearest_le`, `Format.even_nearest`: quotients rounded to magnitudes
* `Format.nearest_eq_infinity_iff`: what is rounded to infinity
-/

namespace ArrayEngine.Binary

/-! ### Rounding to an integer -/

section RoundHalfEven

variable {num den m : Nat}

/-- The two integers next to a quotient, and which of them is chosen. -/
theorem roundHalfEven_cases (num den : Nat) :
    (2 * (num % den) ≤ den ∧ roundHalfEven num den = num / den) ∨
      (den ≤ 2 * (num % den) ∧ roundHalfEven num den = num / den + 1) := by
  simp only [roundHalfEven]
  split
  · exact .inl ⟨by omega, rfl⟩
  · split
    · exact .inr ⟨by omega, rfl⟩
    · rcases Nat.mod_two_eq_zero_or_one (num / den) with heven | hodd
      · exact .inl ⟨by omega, by rw [heven, Nat.add_zero]⟩
      · exact .inr ⟨by omega, by rw [hodd]⟩

/-- Of two equally near integers the even one is chosen. -/
theorem even_roundHalfEven_of_tie (h : 2 * (num % den) = den) : Even (roundHalfEven num den) := by
  rw [Nat.even_iff]
  simp only [roundHalfEven, h, Nat.lt_irrefl, if_false]
  omega

/-- A product lies on the one side of the quotient or on the other. -/
theorem mul_le_or_le_mul (num den k : Nat) :
    den * k ≤ den * (num / den) ∨ den * (num / den) + den ≤ den * k := by
  rcases Nat.lt_or_ge (num / den) k with hlt | hge
  · refine .inr ?_
    rw [← Nat.mul_succ]
    exact Nat.mul_le_mul_left den hlt
  · exact .inl (Nat.mul_le_mul_left den hge)

/-- No integer is nearer to a quotient than the one to which it is rounded. -/
theorem le_abs_roundHalfEven (num : Nat) (hden : 0 < den) (k : Nat) :
    |(num : ℤ) - (den * roundHalfEven num den : ℕ)| ≤ |(num : ℤ) - (den * k : ℕ)| := by
  have hdivmod := Nat.div_add_mod num den
  have hmod := Nat.mod_lt num hden
  have hside := mul_le_or_le_mul num den k
  simp only [Int.abs_eq_natAbs]
  rcases roundHalfEven_cases num den with ⟨hle, heq⟩ | ⟨hle, heq⟩
  · rw [heq]
    omega
  · rw [heq, Nat.mul_succ]
    omega

/-- If another integer is as near, the one that was chosen is even. -/
theorem even_roundHalfEven (num : Nat) (hden : 0 < den) {k : Nat}
    (htie : |(num : ℤ) - (den * roundHalfEven num den : ℕ)| = |(num : ℤ) - (den * k : ℕ)|)
    (hne : den * k ≠ den * roundHalfEven num den) : Even (roundHalfEven num den) := by
  have hdivmod := Nat.div_add_mod num den
  have hmod := Nat.mod_lt num hden
  have hside := mul_le_or_le_mul num den k
  simp only [Int.abs_eq_natAbs] at htie
  refine even_roundHalfEven_of_tie ?_
  rcases roundHalfEven_cases num den with ⟨hle, heq⟩ | ⟨hle, heq⟩
  · rw [heq] at htie hne
    omega
  · rw [heq, Nat.mul_succ] at htie hne
    omega

theorem roundHalfEven_le (hden : 0 < den) (h : num ≤ den * m) : roundHalfEven num den ≤ m := by
  have hdivmod := Nat.div_add_mod num den
  have hmod := Nat.mod_lt num hden
  rcases roundHalfEven_cases num den with ⟨-, heq⟩ | ⟨hhalf, heq⟩
  · rw [heq]
    exact Nat.div_le_of_le_mul h
  · rw [heq]
    refine Nat.lt_of_mul_lt_mul_left (a := den) ?_
    omega

theorem le_roundHalfEven (hden : 0 < den) (h : den * m ≤ num) : m ≤ roundHalfEven num den := by
  have hle : m ≤ num / den := (Nat.le_div_iff_mul_le hden).mpr (by rwa [Nat.mul_comm])
  rcases roundHalfEven_cases num den with ⟨-, heq⟩ | ⟨-, heq⟩ <;> omega

/-- An even integer is reached from half a step below it on, that place included. -/
theorem le_roundHalfEven_iff (hden : 0 < den) (hm : Even m) (hpos : 0 < m) :
    m ≤ roundHalfEven num den ↔ (2 * m - 1) * den ≤ 2 * num := by
  obtain ⟨n, rfl⟩ := Nat.exists_eq_succ_of_ne_zero hpos.ne'
  have hthreshold : (2 * n.succ - 1) * den = 2 * (den * n) + den := by
    rw [show 2 * n.succ - 1 = 2 * n + 1 by omega]
    ring
  have hdivmod := Nat.div_add_mod num den
  have hmod := Nat.mod_lt num hden
  have hcases := roundHalfEven_cases num den
  rw [hthreshold]
  rcases Nat.lt_trichotomy (num / den) n with hlt | heq | hgt
  · have hle : den * (num / den) + den ≤ den * n := by
      rw [← Nat.mul_succ]
      exact Nat.mul_le_mul_left den hlt
    omega
  · rw [heq] at hdivmod hcases
    constructor
    · omega
    · intro hle
      by_contra hnot
      have htie : 2 * (num % den) = den := by omega
      have heven := even_roundHalfEven_of_tie htie
      rw [Nat.even_iff] at hm heven
      omega
  · have hle : den * n + den ≤ den * (num / den) := by
      rw [← Nat.mul_succ]
      exact Nat.mul_le_mul_left den hgt
    omega

/-- A part that is even stays out of the rounding. -/
theorem roundHalfEven_add {k : Nat} (hk : Even k) (n : Nat) (hden : 0 < den) :
    roundHalfEven (den * k + n) den = k + roundHalfEven n den := by
  rw [Nat.even_iff] at hk
  simp only [roundHalfEven, Nat.mul_add_div hden, Nat.mul_add_mod]
  split_ifs <;> omega

theorem roundHalfEven_eq_zero (h : 2 * num < den) : roundHalfEven num den = 0 := by
  have hlt : num < den := by omega
  simp only [roundHalfEven, Nat.div_eq_of_lt hlt, Nat.mod_eq_of_lt hlt, if_pos h]

end RoundHalfEven

namespace Format

variable {f : Format} {num den : Nat}

/-! ### Magnitudes and a place to round at -/

/-- A significand that is rounded up to a power of two is one with a greater exponent. -/
theorem units_shift_add {shift r : Nat} (hle : r ≤ 2 * f.implicitBit)
    (hshift : shift = 0 ∨ f.implicitBit ≤ r) :
    f.units (shift * f.implicitBit + r) = r * 2 ^ shift := by
  have hpos := implicitBit_pos (f := f)
  rcases Nat.lt_or_eq_of_le hle with hlt | rfl
  · rcases Nat.lt_or_ge r f.implicitBit with hsmall | hlarge
    · obtain rfl : shift = 0 := by omega
      rw [Nat.zero_mul, Nat.zero_add, units_of_lt hsmall, pow_zero, Nat.mul_one]
    · exact units_add hlarge hlt shift
  · rw [show shift * f.implicitBit + 2 * f.implicitBit
      = (shift + 1) * f.implicitBit + f.implicitBit by ring,
      units_add (Nat.le_refl _) (by omega), Nat.pow_eq, pow_succ]
    ring

/-- Seen from a place to round at, a magnitude is a multiple of that place's unit, or less than the
least significand there. -/
theorem units_cases (f : Format) (shift m : Nat) :
    (∃ k, f.units m = k * 2 ^ shift) ∨ 0 < shift ∧ f.units m < f.implicitBit * 2 ^ shift := by
  rcases Nat.eq_zero_or_pos shift with rfl | hpos
  · exact .inl ⟨f.units m, by rw [pow_zero, Nat.mul_one]⟩
  rcases Nat.lt_or_ge m f.implicitBit with hlt | hge
  · rw [units_of_lt hlt]
    exact .inr ⟨hpos, hlt.trans_le (Nat.le_mul_of_pos_right _ (Nat.two_pow_pos _))⟩
  · obtain ⟨exponent, significand, hle, hlt, rfl⟩ := exists_significand hge
    rw [units_add hle hlt, Nat.pow_eq]
    rcases Nat.lt_or_ge exponent shift with hsmall | hlarge
    · refine .inr ⟨hpos, ?_⟩
      calc significand * 2 ^ exponent < 2 * f.implicitBit * 2 ^ exponent :=
            Nat.mul_lt_mul_of_pos_right hlt (Nat.two_pow_pos _)
        _ = f.implicitBit * 2 ^ (exponent + 1) := by ring
        _ ≤ f.implicitBit * 2 ^ shift :=
            Nat.mul_le_mul_left _ (Nat.pow_le_pow_right Nat.two_pos hsmall)
    · obtain ⟨rest, rfl⟩ := Nat.exists_eq_add_of_le hlarge
      exact .inl ⟨significand * 2 ^ rest, by ring⟩

/-- The place at which a quotient is rounded, and what is known of the quotient there. -/
theorem exists_nearest (f : Format) (num : Nat) (hden : 0 < den) :
    ∃ shift, f.nearest num den
        = min (shift * f.implicitBit + roundHalfEven num (den * 2 ^ shift)) f.infinity ∧
      num ≤ den * 2 ^ shift * (2 * f.implicitBit) ∧
      (shift = 0 ∨ den * 2 ^ shift * f.implicitBit ≤ num) := by
  refine ⟨(num / den).log2 - f.fractionBits, rfl, ?_, ?_⟩
  · have hlt : num / den < 2 ^ ((num / den).log2 + 1) := Nat.lt_log2_self
    have hnum : num < den * 2 ^ ((num / den).log2 + 1) := by
      rw [Nat.mul_comm]
      exact (Nat.div_lt_iff_lt_mul hden).mp hlt
    refine hnum.le.trans ?_
    rw [Nat.mul_assoc, implicitBit, Nat.pow_eq, ← pow_succ', ← pow_add]
    exact Nat.mul_le_mul_left _ (Nat.pow_le_pow_right Nat.two_pos (by omega))
  · rcases Nat.eq_zero_or_pos ((num / den).log2 - f.fractionBits) with hzero | hpos
    · exact .inl hzero
    · refine .inr ?_
      have hne : num / den ≠ 0 := by
        intro h
        rw [h, Nat.log2_zero] at hpos
        omega
      have hle := Nat.log2_self_le hne
      rw [Nat.mul_assoc, implicitBit, Nat.pow_eq, ← pow_add, Nat.mul_comm,
        ← Nat.le_div_iff_mul_le hden, Nat.sub_add_cancel (by omega)]
      exact hle

/-! ### Nearest magnitudes -/

/-- At the place where a quotient is rounded: the result as a multiple of that place's unit, and
every other magnitude as a multiple or as one that is farther away than the least significand. -/
theorem abs_nearest_cases (hden : 0 < den) (hfinite : f.nearest num den < f.infinity) :
    ∃ shift r, f.nearest num den = shift * f.implicitBit + r ∧
      r = roundHalfEven num (den * 2 ^ shift) ∧
      den * f.units (f.nearest num den) = den * 2 ^ shift * r ∧
      ∀ m, (∃ k, den * f.units m = den * 2 ^ shift * k) ∨
        |(num : ℤ) - (den * 2 ^ shift * r : ℕ)| < |(num : ℤ) - (den * f.units m : ℕ)| := by
  obtain ⟨shift, hnearest, hlt, hge⟩ := f.exists_nearest num hden
  have hunit : 0 < den * 2 ^ shift := Nat.mul_pos hden (Nat.two_pow_pos _)
  generalize hr : roundHalfEven num (den * 2 ^ shift) = r at hnearest
  have hexact : f.nearest num den = shift * f.implicitBit + r := by omega
  have hle : r ≤ 2 * f.implicitBit := hr ▸ roundHalfEven_le hunit hlt
  have hsignificand : shift = 0 ∨ f.implicitBit ≤ r :=
    hge.imp id fun h => hr ▸ le_roundHalfEven hunit h
  refine ⟨shift, r, hexact, hr.symm, ?_, fun m => ?_⟩
  · rw [hexact, units_shift_add hle hsignificand]
    ring
  · rcases f.units_cases shift m with ⟨k, hk⟩ | ⟨hpos, hsmall⟩
    · exact .inl ⟨k, by rw [hk]; ring⟩
    · right
      have hbound : den * 2 ^ shift * f.implicitBit ≤ num := by omega
      have hbelow : den * f.units m < den * 2 ^ shift * f.implicitBit := by
        calc den * f.units m < den * (f.implicitBit * 2 ^ shift) :=
              Nat.mul_lt_mul_of_pos_left hsmall hden
          _ = den * 2 ^ shift * f.implicitBit := by ring
      have hnear := le_abs_roundHalfEven num hunit f.implicitBit
      rw [hr] at hnear
      simp only [Int.abs_eq_natAbs] at hnear ⊢
      omega

/-- No magnitude is nearer to a quotient than the one to which it is rounded. -/
theorem abs_nearest_le (hden : 0 < den) (hfinite : f.nearest num den < f.infinity) (m : Nat) :
    |(num : ℤ) - (den * f.units (f.nearest num den) : ℕ)|
      ≤ |(num : ℤ) - (den * f.units m : ℕ)| := by
  obtain ⟨shift, r, -, rfl, hunits, hcases⟩ := abs_nearest_cases hden hfinite
  rw [hunits]
  rcases hcases m with ⟨k, hk⟩ | hfar
  · rw [hk]
    exact le_abs_roundHalfEven num (Nat.mul_pos hden (Nat.two_pow_pos _)) k
  · exact hfar.le

/-- If another magnitude is as near, the one that was chosen is even. -/
theorem even_nearest (hden : 0 < den) (hfraction : 0 < f.fractionBits)
    (hfinite : f.nearest num den < f.infinity) {m : Nat}
    (htie : |(num : ℤ) - (den * f.units (f.nearest num den) : ℕ)|
      = |(num : ℤ) - (den * f.units m : ℕ)|)
    (hne : f.units m ≠ f.units (f.nearest num den)) : Even (f.nearest num den) := by
  obtain ⟨shift, r, hexact, rfl, hunits, hcases⟩ := abs_nearest_cases hden hfinite
  have hne' : den * f.units m ≠ den * f.units (f.nearest num den) := fun h =>
    hne (Nat.eq_of_mul_eq_mul_left hden h)
  rw [hunits] at htie hne'
  have hbit : Even f.implicitBit := by
    rw [implicitBit, Nat.pow_eq]
    exact (Nat.even_pow.mpr ⟨even_two, by omega⟩)
  rw [hexact]
  refine (hbit.mul_left shift).add ?_
  rcases hcases m with ⟨k, hk⟩ | hfar
  · rw [hk] at htie hne'
    exact even_roundHalfEven num (Nat.mul_pos hden (Nat.two_pow_pos _)) htie hne'
  · exact absurd htie hfar.ne

/-! ### Overflow -/

/-- What is rounded to infinity: everything from half a step above the greatest finite number on.
The greatest finite number has `2 * implicitBit - 1` as its significand, `top` places up. -/
theorem nearest_eq_infinity_iff (hden : 0 < den) {top : Nat}
    (htop : Nat.pow 2 f.exponentBits = top + 3) :
    f.nearest num den = f.infinity ↔ (4 * f.implicitBit - 1) * (den * 2 ^ top) ≤ 2 * num := by
  obtain ⟨shift, hnearest, hlt, hge⟩ := f.exists_nearest num hden
  have hbit := implicitBit_pos (f := f)
  have hunit : 0 < den * 2 ^ shift := Nat.mul_pos hden (Nat.two_pow_pos _)
  have hinfinity : f.infinity = (top + 2) * f.implicitBit := by
    rw [infinity, htop]
    rfl
  have hle := roundHalfEven_le hunit hlt
  rw [hnearest, hinfinity, min_eq_right_iff]
  rcases Nat.lt_trichotomy shift top with hsmall | rfl | hlarge
  -- Everything that is rounded at a lower place stays finite.
  · refine iff_of_false (Nat.not_le.mpr ?_) (Nat.not_le.mpr ?_)
    · calc shift * f.implicitBit + roundHalfEven num (den * 2 ^ shift)
          ≤ shift * f.implicitBit + 2 * f.implicitBit := Nat.add_le_add_left hle _
        _ = (shift + 2) * f.implicitBit := (Nat.add_mul ..).symm
        _ < (top + 2) * f.implicitBit := Nat.mul_lt_mul_of_pos_right (by omega) hbit
    · have hpow : den * 2 ^ shift * 2 ≤ den * 2 ^ top := by
        rw [Nat.mul_assoc, ← pow_succ]
        exact Nat.mul_le_mul_left _ (Nat.pow_le_pow_right Nat.two_pos hsmall)
      calc 2 * num ≤ 2 * (den * 2 ^ shift * (2 * f.implicitBit)) := Nat.mul_le_mul_left 2 hlt
        _ = 2 * f.implicitBit * (den * 2 ^ shift * 2) := by ring
        _ ≤ 2 * f.implicitBit * (den * 2 ^ top) := Nat.mul_le_mul_left _ hpow
        _ < (4 * f.implicitBit - 1) * (den * 2 ^ top) :=
          Nat.mul_lt_mul_of_pos_right (by omega) (Nat.mul_pos hden (Nat.two_pow_pos _))
  -- At the highest place a significand has to be rounded up to the next power of two.
  · rw [Nat.add_mul, Nat.add_le_add_iff_left,
      le_roundHalfEven_iff hunit (even_two_mul _) (by omega),
      show 2 * (2 * f.implicitBit) = 4 * f.implicitBit by omega]
  · have hsignificand := hge.resolve_left (by omega)
    refine iff_of_true ?_ ?_
    · calc (top + 2) * f.implicitBit = (top + 1) * f.implicitBit + f.implicitBit := by ring
        _ ≤ shift * f.implicitBit + roundHalfEven num (den * 2 ^ shift) :=
          Nat.add_le_add (Nat.mul_le_mul_right _ hlarge) (le_roundHalfEven hunit hsignificand)
    · have hpow : den * 2 ^ top * 2 ≤ den * 2 ^ shift := by
        rw [Nat.mul_assoc, ← pow_succ]
        exact Nat.mul_le_mul_left _ (Nat.pow_le_pow_right Nat.two_pos hlarge)
      calc (4 * f.implicitBit - 1) * (den * 2 ^ top)
          ≤ 4 * f.implicitBit * (den * 2 ^ top) := Nat.mul_le_mul_right _ (Nat.sub_le ..)
        _ = 2 * (den * 2 ^ top * 2 * f.implicitBit) := by ring
        _ ≤ 2 * (den * 2 ^ shift * f.implicitBit) :=
          Nat.mul_le_mul_left 2 (Nat.mul_le_mul_right _ hpow)
        _ ≤ 2 * num := Nat.mul_le_mul_left 2 hsignificand

end Format

end ArrayEngine.Binary
