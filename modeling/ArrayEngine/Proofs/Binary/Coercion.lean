import ArrayEngine.Proofs.Binary.Arithmetic
import ArrayEngine.Value.Coercion

/-!
# Conversion to integers, operation by operation

A number is reduced to 32 bits through the remainder of its integral part, which has the sign of the
number, and is clamped to a byte by comparisons with the ends of the interval and with one half.
Each step is an operation on doubles that could round. None does, so the results are the residue and
the nearest byte that integer arithmetic yields.

## Main definitions

* `Double.modulo32`: the residue, by operations on doubles
* `Double.clampedByte`: the nearest byte, by operations on doubles

## Main results

* `Double.modulo32_eq`, `Double.clampedByte_eq`: both agree with integer arithmetic
* `Double.numericEq_modulo32_iff`: the numbers that are their own residue
-/

namespace ArrayEngine.Binary.Double

variable {x : Double}

/-! ### The steps of a conversion -/

/-- Integral part of a finite number, reduced to 32 bits. The remainder has the sign of `x`, and a
negative one is moved up. -/
def reduced (x : Double) : Double :=
  let remainder := x.truncate.rem (ofNat (2 ^ 32))
  if remainder.lt zero then remainder.add (ofNat (2 ^ 32)) else remainder

/-- `x` truncated and reduced to 32 bits. -/
def modulo32 (x : Double) : Nat :=
  if x.isNaN || x.isInfinite || x.numericEq zero then 0 else x.reduced.saturated 32

/-- The number one half. -/
def half : Double := ⟨0x3fe0000000000000⟩

/-- Nearest integer to a number, by what is left of it above the integer below. -/
def rounded (x : Double) : Double :=
  let below := x.floor
  let rest := x.sub below
  if rest.lt half then below
  else if half.lt rest then below.add (ofNat 1)
  else if (below.rem (ofNat 2)).numericEq zero then below
  else below.add (ofNat 1)

/-- `x` clamped to a byte and rounded. -/
def clampedByte (x : Double) : Nat :=
  if x.isNaN || x.le zero then 0 else if (ofNat 255).le x then 255 else x.rounded.saturated 8

/-! ### Reduction to 32 bits -/

theorem toUnsigned_of_isInfinite (hx : x.isInfinite) : x.toUnsigned 32 = 0 := by
  have hgreat : ((binary64.units binary64.infinity / one : ℕ) : ℤ) % (2 ^ 32 : ℕ) = 0 := by
    decide +kernel
  have hdvd := Int.dvd_of_emod_eq_zero hgreat
  rw [toUnsigned, toInt_of_not_isNaN (not_isNaN_of_isInfinite hx), units_of_isInfinite hx, withSign,
    Nat.pow_eq]
  split
  · rw [Int.emod_eq_zero_of_dvd (Int.dvd_neg.mpr hdvd), Int.toNat_zero]
  · rw [hgreat, Int.toNat_zero]

/-- What is left of a finite number is the residue of its integral part. -/
theorem isInt_reduced (hx : x.isFinite) : x.reduced.IsInt (x.toInt % 2 ^ 32) := by
  have hmodulus : (ofNat (2 ^ 32)).IsInt (2 ^ 32) := isInt_ofNat (by norm_num)
  have hremainder := (isInt_truncate hx).rem hmodulus (by norm_num)
  have hnegative := hremainder.lt_iff isInt_zero
  have hmod := Int.tmod_eq_emod (a := x.toInt) (b := 2 ^ 32)
  have hnonneg := Int.emod_nonneg x.toInt (show (2 ^ 32 : ℤ) ≠ 0 by norm_num)
  have hlt := Int.emod_lt_of_pos x.toInt (show (0 : ℤ) < 2 ^ 32 by norm_num)
  simp only [reduced]
  -- The two remainders differ where the number is negative and not a multiple of the modulus.
  split at hmod
  · rw [hmod, Nat.cast_zero, Int.sub_zero] at hremainder hnegative
    rwa [if_neg (by rw [hnegative]; omega)]
  · rename_i hsigned
    have hpositive : x.toInt % 2 ^ 32 ≠ 0 := fun hzero =>
      hsigned (.inr (Int.dvd_of_emod_eq_zero hzero))
    have hsum : x.toInt.tmod (2 ^ 32) + 2 ^ 32 = x.toInt % 2 ^ 32 := by
      rw [hmod]
      norm_num
    rw [if_pos (by rw [hnegative]; omega), ← hsum]
    exact hremainder.add hmodulus (by omega)

/-- The remainder, moved up or not, is the residue of integer arithmetic. -/
theorem modulo32_eq (x : Double) : x.modulo32 = x.toUnsigned 32 := by
  rw [modulo32]
  cases hnan : x.isNaN with
  | true => simp [toUnsigned, toInt, hnan]
  | false =>
    cases hinfinite : x.isInfinite with
    | true =>
      rw [toUnsigned_of_isInfinite hinfinite]
      exact if_pos rfl
    | false =>
      have hfinite := isFinite_of_not_isNaN hnan hinfinite
      cases hzero : x.numericEq zero with
      | true =>
        have hint : x.IsInt 0 := by
          have hunits := (numericEq_iff hnan (not_isNaN_of_isFinite isInt_zero.1)).mp hzero
          exact ⟨hfinite, hunits.trans isInt_zero.2⟩
        rw [toUnsigned, hint.toInt_eq, Int.zero_emod, Int.toNat_zero]
        exact if_pos rfl
      | false =>
        have hlt := Int.emod_lt_of_pos x.toInt (show (0 : ℤ) < 2 ^ 32 by norm_num)
        have hnonneg := Int.emod_nonneg x.toInt (show (2 ^ 32 : ℤ) ≠ 0 by norm_num)
        have hsaturated := (isInt_reduced hfinite).saturated_eq hnonneg hlt
        rw [toUnsigned, Nat.pow_eq, Nat.cast_pow, Nat.cast_ofNat, ← hsaturated]
        exact if_neg Bool.false_ne_true

theorem modulo32_lt (x : Double) : x.modulo32 < 2 ^ 32 := by
  have hlt := Int.emod_lt_of_pos x.toInt (show (0 : ℤ) < 2 ^ 32 by norm_num)
  rw [modulo32_eq, toUnsigned, Nat.pow_eq, Nat.cast_pow, Nat.cast_ofNat]
  omega

theorem IsInt.modulo32_eq {k : Nat} (hx : x.IsInt k) (hk : k < 2 ^ 32) : x.modulo32 = k := by
  rw [Double.modulo32_eq, toUnsigned, hx.toInt_eq, Nat.pow_eq, ← Int.natCast_mod, Int.toNat_natCast,
    Nat.mod_eq_of_lt hk]

/-- The numbers that equal their own residue are the integers that 32 bits hold. -/
theorem numericEq_modulo32_iff :
    (ofNat x.modulo32).numericEq x ↔ ∃ k < 2 ^ 32, x.IsInt (k : ℕ) := by
  have hresidue : (ofNat x.modulo32).IsInt x.modulo32 :=
    isInt_ofNat ((modulo32_lt x).trans (by norm_num))
  refine ⟨fun h => ⟨_, modulo32_lt x, hresidue.of_numericEq h⟩, ?_⟩
  rintro ⟨k, hk, hx⟩
  rw [hx.modulo32_eq hk] at hresidue ⊢
  exact (hresidue.numericEq_iff hx).mpr rfl

/-! ### Clamped bytes -/

theorem two_mul_half : 2 * half.signedUnits = one := by
  decide +kernel

/-- What is above the integer below a number, which is not negative. -/
theorem signedUnits_sub_floor (hx : x.isFinite) (hsign : x.isNegative = false) :
    (x.sub x.floor).isFinite ∧ (x.sub x.floor).signedUnits = (x.units % one : ℕ) := by
  have hfloor := isInt_truncate hx
  have hone : binary64.Representable one := by
    have hexact := representable_of_lt (k := 1) (by norm_num)
    rwa [Nat.one_mul] at hexact
  have hint : x.toInt = (x.units / one : ℕ) := by
    rw [toInt_of_not_isNaN (not_isNaN_of_isFinite hx), withSign_of_not_isNegative hsign]
  have hsum : x.signedUnits + x.floor.neg.signedUnits = (x.units % one : ℕ) := by
    have hdivmod := Nat.div_add_mod' x.units one
    rw [signedUnits_neg, floor_of_not_isNegative hsign, hfloor.2, hint, signedUnits,
      withSign_of_not_isNegative hsign]
    omega
  have hexact : binary64.Representable (x.signedUnits + x.floor.neg.signedUnits).natAbs := by
    rw [hsum, Int.natAbs_natCast]
    exact (representable_units hx).mod hone one_pos
  obtain ⟨hfinite, hsigned⟩ := signedUnits_add hexact
  exact ⟨hfinite, hsigned.trans hsum⟩

/-- What is left above the integer below decides between that integer and the next. -/
theorem isInt_rounded (hx : x.isFinite) (hsign : x.isNegative = false)
    (hlt : x.units < 255 * one) : x.rounded.IsInt (roundHalfEven x.units one) := by
  obtain ⟨hfinite, hrest⟩ := signedUnits_sub_floor hx hsign
  have hint : x.toInt = (x.units / one : ℕ) := by
    rw [toInt_of_not_isNaN (not_isNaN_of_isFinite hx), withSign_of_not_isNegative hsign]
  have hfloor : x.floor.IsInt (x.units / one : ℕ) := by
    rw [floor_of_not_isNegative hsign, ← hint]
    exact isInt_truncate hx
  have hbyte : x.units / one < 255 := (Nat.div_lt_iff_lt_mul one_pos).mpr hlt
  have hsucc : (x.floor.add (ofNat 1)).IsInt (x.units / one + 1 : ℕ) :=
    hfloor.add (isInt_ofNat (by norm_num)) (by rw [← Nat.cast_add, Int.natAbs_natCast]; omega)
  have hhalf := two_mul_half
  have hbelow := lt_iff (x := x.sub x.floor) (y := half) (not_isNaN_of_isFinite hfinite) rfl
  have habove := lt_iff (x := half) (y := x.sub x.floor) rfl (not_isNaN_of_isFinite hfinite)
  have heven : (x.floor.rem (ofNat 2)).numericEq zero ↔ x.units / one % 2 = 0 := by
    have hrem := hfloor.rem (isInt_ofNat (k := 2) (by norm_num)) (by norm_num)
    rw [hrem.numericEq_iff isInt_zero, ← Int.ofNat_tmod, Int.natCast_eq_zero]
  rw [hrest] at hbelow habove
  simp only [rounded]
  rcases Nat.lt_trichotomy (2 * (x.units % one)) one with hless | htie | hmore
  · have hround : roundHalfEven x.units one = x.units / one := by
      simp only [roundHalfEven, if_pos hless]
    rwa [if_pos (hbelow.mpr (by omega)), hround]
  · have hround : roundHalfEven x.units one = x.units / one + x.units / one % 2 := by
      simp only [roundHalfEven, htie, Nat.lt_irrefl, if_false]
    rw [if_neg (by rw [hbelow]; omega), if_neg (by rw [habove]; omega), hround]
    rcases Nat.mod_two_eq_zero_or_one (x.units / one) with hmod | hmod
    · rwa [if_pos (heven.mpr hmod), hmod, Nat.add_zero]
    · rwa [if_neg (by rw [heven]; omega), hmod]
  · have hround : roundHalfEven x.units one = x.units / one + 1 := by
      simp only [roundHalfEven, if_neg (Nat.lt_asymm hmore), if_pos hmore]
    rwa [if_neg (by rw [hbelow]; omega), if_pos (habove.mpr (by omega)), hround]

theorem toClampedByte_le (x : Double) : x.toClampedByte ≤ 255 := by
  rw [toClampedByte]
  split
  · exact Nat.zero_le _
  · exact Nat.min_le_left ..

theorem toClampedByte_of_le (hnan : x.isNaN = false) (hsign : x.isNegative = false)
    (h : 255 * one ≤ x.units) : x.toClampedByte = 255 := by
  have hround : 255 ≤ roundHalfEven x.units one :=
    le_roundHalfEven one_pos (by rwa [Nat.mul_comm])
  rw [toClampedByte, hnan, hsign, if_neg (by decide), Nat.min_eq_left hround]

theorem toClampedByte_of_lt (hnan : x.isNaN = false) (hsign : x.isNegative = false)
    (h : x.units < 255 * one) : x.toClampedByte = roundHalfEven x.units one := by
  have hround : roundHalfEven x.units one ≤ 255 :=
    roundHalfEven_le one_pos (by rw [Nat.mul_comm]; exact h.le)
  rw [toClampedByte, hnan, hsign, if_neg (by decide), Nat.min_eq_right hround]

theorem le_zero_iff (hnan : x.isNaN = false) : x.le zero ↔ x.isNegative = true ∨ x.units = 0 := by
  rw [le_iff hnan (not_isNaN_of_isFinite isInt_zero.1), isInt_zero.2, zero_mul, signedUnits,
    withSign]
  cases x.isNegative with
  | true => exact iff_of_true (by rw [if_pos rfl]; omega) (.inl rfl)
  | false =>
    rw [if_neg Bool.false_ne_true, or_iff_right Bool.false_ne_true]
    omega

theorem ofNat_255_le_iff (hnan : x.isNaN = false) (hsign : x.isNegative = false) :
    (ofNat 255).le x ↔ 255 * one ≤ x.units := by
  have h255 : (ofNat 255).IsInt 255 := isInt_ofNat (by norm_num)
  rw [le_iff (not_isNaN_of_isFinite h255.1) hnan, h255.2, signedUnits,
    withSign_of_not_isNegative hsign]
  norm_cast

/-- Clamping first and then rounding comes to rounding first and then clamping. -/
theorem clampedByte_eq (x : Double) : x.clampedByte = x.toClampedByte := by
  rw [clampedByte]
  cases hnan : x.isNaN with
  | true => rw [toClampedByte, hnan, Bool.true_or, Bool.true_or, if_pos rfl, if_pos rfl]
  | false =>
    have hzero := le_zero_iff hnan
    rw [Bool.false_or]
    cases hsign : x.isNegative with
    | true => rw [if_pos (hzero.mpr (.inl hsign)), toClampedByte, hsign, Bool.or_true, if_pos rfl]
    | false =>
      have hgreat := ofNat_255_le_iff hnan hsign
      by_cases hunits : x.units = 0
      · have hround := roundHalfEven_mul 0 one_pos
        have hlt : x.units < 255 * one := by
          rw [hunits]
          exact Nat.mul_pos (by decide) one_pos
        rw [Nat.zero_mul] at hround
        rw [if_pos (hzero.mpr (.inr hunits)), toClampedByte_of_lt hnan hsign hlt, hunits, hround]
      · rw [if_neg (by rw [hzero, hsign]; simpa using hunits)]
        rcases Nat.lt_or_ge x.units (255 * one) with hlt | hge
        · have hfinite := isFinite_of_units_lt (hlt.trans_le (by decide +kernel))
          have hrounded := isInt_rounded hfinite hsign hlt
          have hle := toClampedByte_le x
          rw [← toClampedByte_of_lt hnan hsign hlt] at hrounded
          rw [if_neg (hgreat.not.mpr (Nat.not_le.mpr hlt)),
            hrounded.saturated_eq (Int.natCast_nonneg _) (by omega), Int.toNat_natCast]
        · rw [if_pos (hgreat.mpr hge), toClampedByte_of_le hnan hsign hge]

end ArrayEngine.Binary.Double
