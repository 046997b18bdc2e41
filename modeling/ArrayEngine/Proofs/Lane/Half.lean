import ArrayEngine.Proofs.Binary.Half
import ArrayEngine.Proofs.Lane.Codec

/-!
# Lanes of half precision

A double is rounded to the nearest half, of two that are equally near to the one with the even
fraction, and a half is read as the double with the same number. Both hold for every pattern but the
NaNs: subnormal numbers on either side, zeros of either sign and carries into the exponent field are
no exceptions. From 65520 on, half a step above the greatest finite half, all is infinite.

## Main definitions

* `Half.RoundsTo`: a half is the one that a double is rounded to
* `Half.ReadsAs`: a double has the number of a half

## Main results

* `Half.roundsTo_readsAs`: the conversions of the lane do this, and so do their steps on the fields
-/

namespace ArrayEngine

open Binary (Double Format binary16 binary64)
open LaneKind (halfBits widened)

namespace Half

/-- A pattern is that of the half to which a double is rounded. Distances are those of the numbers
that patterns stand for. -/
structure RoundsTo (x : Double) (half : Nat) : Prop where
  lt : half < 2 ^ 16
  isNegative_eq : binary16.isNegative half = x.isNegative
  isInfinite_iff : binary16.IsInfinite half ↔ x.isInfinite ∨ 65520 ≤ |x.value|
  isFinite : ¬binary16.IsInfinite half → binary16.IsFinite half
  nearest : binary16.IsFinite half → ∀ other, binary16.IsFinite other →
    |x.value - binary16.value half| ≤ |x.value - binary16.value other|
  even_of_tie : binary16.IsFinite half → ∀ other, binary16.IsFinite other →
    |x.value - binary16.value half| = |x.value - binary16.value other| →
      binary16.value other ≠ binary16.value half → Even (binary16.fraction half)

/-- A double has the number of a half: the same finite one, or the infinity of the same sign. -/
structure ReadsAs (half : Nat) (x : Double) : Prop where
  isNegative_eq : x.isNegative = binary16.isNegative half
  value_eq : binary16.IsFinite half → x.isFinite ∧ x.value = binary16.value half
  isInfinite : binary16.IsInfinite half → x.isInfinite

variable {x : Double}

/-! ### Narrowing -/

theorem halfBits_of_not_isNaN (hx : x.isNaN = false) :
    halfBits x = binary64.convert binary16 x.bits.toNat := by
  rw [halfBits, hx]
  rfl

/-- Numbers from half a step above the greatest finite half on. -/
theorem isInfinite_convert_iff (hfinite : binary64.IsFinite x.bits.toNat) :
    binary16.IsInfinite (binary64.convert binary16 x.bits.toNat) ↔ 65520 ≤ |x.value| := by
  have hthreshold : ((4 * binary16.implicitBit - 1 : ℕ) * 2 ^ 29 : ℚ) = 4095 * 2 ^ 29 := by
    norm_num [binary16, Format.implicitBit]
  have hone : (binary16.one : ℚ) = 2 ^ 24 := by
    norm_num [binary16, Format.one, Format.scale]
  rw [Format.isInfinite_convert_iff (by decide) hfinite (show Nat.pow 2 5 = 29 + 3 from rfl),
    hthreshold, hone, Double.value]
  constructor <;> intro hle <;> linarith

/-- An even magnitude has an even fraction. -/
theorem even_fraction {half : Nat} (h : Even (binary16.magnitude half)) :
    Even (binary16.fraction half) := by
  have hbit : binary16.implicitBit = 2 ^ 10 := rfl
  rw [Nat.even_iff] at h ⊢
  rw [Format.fraction, hbit]
  omega

theorem roundsTo_of_isFinite (hfinite : binary64.IsFinite x.bits.toNat) :
    RoundsTo x (binary64.convert binary16 x.bits.toNat) where
  lt := Format.convert_lt (by decide) _
  isNegative_eq := Format.isNegative_convert (by decide) _
  isInfinite_iff := by
    have hinfinite : ¬x.isInfinite = true := fun h => hfinite.ne (of_decide_eq_true h)
    rw [isInfinite_convert_iff hfinite, or_iff_right hinfinite]
  isFinite hne := by
    refine Nat.lt_of_le_of_ne ?_ hne
    rw [Format.magnitude_convert hfinite]
    exact Nat.min_le_right ..
  nearest hrange other _ :=
    Format.abs_sub_convert_le (by decide) (by decide) (by decide) hfinite hrange other
  even_of_tie hrange _ _ htie hne :=
    even_fraction (Format.even_convert (by decide) (by decide) (by decide) hfinite hrange htie hne)

theorem roundsTo_of_isInfinite (hinfinite : binary64.IsInfinite x.bits.toNat) :
    RoundsTo x (binary64.convert binary16 x.bits.toNat) := by
  have hresult : binary16.IsInfinite (binary64.convert binary16 x.bits.toNat) := by
    rw [Format.IsInfinite, Format.convert_of_eq hinfinite]
    exact Format.magnitude_pattern _ (Format.infinity_lt_signBit _)
  exact {
    lt := Format.convert_lt (by decide) _
    isNegative_eq := Format.isNegative_convert (by decide) _
    isInfinite_iff := iff_of_true hresult (.inl (decide_eq_true hinfinite))
    isFinite := fun hne => absurd hresult hne
    nearest := fun hfinite => absurd hresult hfinite.ne
    even_of_tie := fun hfinite => absurd hresult hfinite.ne }

/-! ### Widening -/

theorem readsAs_widened (half : Nat) : ReadsAs half (widened binary16 half) where
  isNegative_eq := by
    rw [Double.isNegative, LaneKind.toNat_widened, Format.isNegative_convert (by decide)]
  value_eq hfinite := by
    obtain ⟨hwide, hvalue⟩ := Format.embeds_binary16.value_convert (by decide) (by decide)
      (by decide) hfinite
    rw [Double.isFinite, Double.magnitude, Double.value, LaneKind.toNat_widened]
    exact ⟨decide_eq_true hwide, hvalue⟩
  isInfinite hinfinite := by
    rw [Double.isInfinite, Double.magnitude, LaneKind.toNat_widened,
      Format.convert_of_eq hinfinite, Format.magnitude_pattern _ (Format.infinity_lt_signBit _)]
    exact decide_eq_true rfl

/-! ### Both -/

/-- **Half lanes round to nearest.** A double that is not a NaN is written to a lane as the half it
is rounded to, a half is read as the double with its number, and the steps on the fields of a
pattern come to the same. -/
theorem roundsTo_readsAs (hx : x.isNaN = false) :
    (RoundsTo x (halfBits x) ∧ narrow x = halfBits x) ∧
      ∀ half < 2 ^ 16, ReadsAs half (widened binary16 half) ∧
        widen half = (widened binary16 half).bits.toNat := by
  refine ⟨⟨?_, narrow_eq x⟩, fun half _ => ⟨readsAs_widened half, ?_⟩⟩
  · rw [halfBits_of_not_isNaN hx]
    cases hinfinite : x.isInfinite with
    | true =>
      have hmagnitude : x.magnitude = binary64.infinity := of_decide_eq_true hinfinite
      exact roundsTo_of_isInfinite hmagnitude
    | false =>
      have hmagnitude : x.magnitude < binary64.infinity :=
        of_decide_eq_true (Double.isFinite_of_not_isNaN hx hinfinite)
      exact roundsTo_of_isFinite hmagnitude
  · rw [widen_eq, LaneKind.toNat_widened]

/-- Half a step above one is rounded down, to the even fraction. -/
theorem roundsTo_readsAs_of_tie :
    Double.isNaN ⟨0x3ff0020000000000⟩ = false ∧ RoundsTo ⟨0x3ff0020000000000⟩ 0x3c00 ∧
      narrow ⟨0x3ff0020000000000⟩ = 0x3c00 := by
  have hnan : Double.isNaN ⟨0x3ff0020000000000⟩ = false := by decide
  have hbits : halfBits ⟨0x3ff0020000000000⟩ = 0x3c00 := by decide +kernel
  have h := (roundsTo_readsAs hnan).1
  rw [hbits] at h
  exact ⟨hnan, h⟩

end Half

end ArrayEngine
