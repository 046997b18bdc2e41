import ArrayEngine.Lane.Codec
import ArrayEngine.Proofs.Binary.Nearest
import ArrayEngine.Proofs.Binary.Value

/-!
# Half precision, field by field

The conversions between doubles and halves as they are carried out on the fields of a pattern. There
are four ranges. A number with a great exponent is rounded to infinity. One that is normal as a half
loses the last 42 bits of its fraction, where a carry out of the fraction goes into the exponent
field. One that is subnormal as a half is shifted down with its implicit bit, and rounded by the
last bit that is shifted out and by whether any bit before it is set. What is left is too small.

Widening a subnormal half looks for its highest bit.

## Main definitions

* `Half.narrowFields`, `Half.narrow`: the half nearest to a double
* `Half.normalize`, `Half.widen`: a half as a double

## Main results

* `Half.narrow_eq`, `Half.widen_eq`: these are the conversions between formats
-/

namespace ArrayEngine

open Binary (Double Format binary16 binary64 roundHalfEven)

namespace Half

/-! ### Narrowing -/

/-- Fraction of a normal half: the leading bits of the fraction of a double, rounded. It may be the
power of two just above them. -/
def roundNormal (fraction : Nat) : Nat :=
  let mantissa := fraction / 2 ^ 42
  let rest := fraction % 2 ^ 42
  let halfway := 2 ^ 41
  if halfway < rest ∨ rest = halfway ∧ mantissa % 2 ≠ 0 then mantissa + 1 else mantissa

/-- Fraction of a subnormal half: a significand without its last `shift` bits, rounded by the last
of them and by whether any of the others is set. -/
def roundSubnormal (significand shift : Nat) : Nat :=
  let mantissa := significand / 2 ^ shift % 2 ^ 10
  let roundBit := significand / 2 ^ (shift - 1) % 2
  let sticky := significand % 2 ^ (shift - 1)
  if roundBit = 1 ∧ (0 < sticky ∨ mantissa % 2 ≠ 0) then mantissa + 1 else mantissa

/-- Magnitude of the half nearest to a double with the given fields, which is finite and not
zero. -/
def narrowFields (exponent fraction : Nat) : Nat :=
  if 1023 + 15 < exponent then 0x7c00
  else if 1023 - 14 ≤ exponent then
    let rounded := roundNormal fraction
    let result := (exponent + 15 - 1023) * 2 ^ 10 + rounded % 2 ^ 10
    if 0x3ff < rounded then result + 2 ^ 10 else result
  else
    let shift := 28 + 1023 - exponent
    if 53 < shift then 0
    else if shift = 53 then if 0 < fraction then 1 else 0
    else
      let rounded := roundSubnormal (2 ^ 52 + fraction) shift
      if 2 ^ 10 ≤ rounded then 2 ^ 10 else rounded

/-- Pattern of the half nearest to a double. -/
def narrow (x : Double) : Nat :=
  if x.isNaN then 0x7e00
  else
    binary16.pattern x.isNegative <|
      if x.isInfinite then 0x7c00
      else if x.isZero then 0
      else narrowFields (binary64.exponent x.bits.toNat) (binary64.fraction x.bits.toNat)

/-! ### Widening -/

/-- Shifts a fraction up until it has its eleventh bit, and counts the places. -/
def normalize (fraction shifts : Nat) : Nat × Nat :=
  if 0 < fraction ∧ fraction < 0x400 then normalize (2 * fraction) (shifts + 1)
  else (fraction, shifts)
termination_by 0x400 - fraction

/-- Magnitude of the double with the number of a half with the given fields. -/
def widenFields (exponent fraction : Nat) : Nat :=
  if exponent = 0 then
    if fraction = 0 then 0
    else
      let (normal, shifts) := normalize fraction 0
      (1023 - 14 - shifts) * 2 ^ 52 + normal % 2 ^ 10 * 2 ^ 42
  else if exponent = 31 then
    if fraction = 0 then 0x7ff0000000000000 else 0x7ff8000000000000 ||| fraction * 2 ^ 42
  else (exponent + 1023 - 15) * 2 ^ 52 + fraction * 2 ^ 42

/-- Pattern of the double with the number of a half. -/
def widen (bits : Nat) : Nat :=
  binary64.pattern (binary16.isNegative bits)
    (widenFields (binary16.exponent bits) (binary16.fraction bits))

/-! ### Rounding by bits -/

theorem roundNormal_eq (fraction : Nat) :
    roundNormal fraction = roundHalfEven fraction (2 ^ 42) := by
  simp only [roundNormal, roundHalfEven]
  split_ifs <;> omega

/-- What is shifted out is the last bit and those before it. -/
theorem roundSubnormal_eq {significand shift : Nat} (hshift : 0 < shift)
    (hlt : significand < 2 ^ 10 * 2 ^ shift) :
    roundSubnormal significand shift = roundHalfEven significand (2 ^ shift) := by
  obtain ⟨k, rfl⟩ := Nat.exists_eq_succ_of_ne_zero hshift.ne'
  have hmantissa : significand / 2 ^ k.succ % 2 ^ 10 = significand / 2 ^ k.succ :=
    Nat.mod_eq_of_lt (Nat.div_lt_of_lt_mul (by rwa [Nat.mul_comm]))
  have hrest : significand % 2 ^ k.succ
      = significand % 2 ^ k + 2 ^ k * (significand / 2 ^ k % 2) := Nat.mod_pow_succ
  have hpow : 2 ^ k.succ = 2 ^ k * 2 := pow_succ 2 k
  have hsticky := Nat.mod_lt significand (Nat.two_pow_pos k)
  simp only [roundSubnormal, roundHalfEven, hmantissa, Nat.succ_sub_one]
  generalize significand / 2 ^ k.succ = mantissa
  rw [hrest, hpow]
  rcases Nat.mod_two_eq_zero_or_one (significand / 2 ^ k) with hbit | hbit
  · simp only [hbit, zero_ne_one, false_and, if_false, Nat.mul_zero, Nat.add_zero]
    rw [if_pos (by omega)]
  · simp only [hbit, true_and, Nat.mul_one]
    split_ifs <;> omega

/-! ### Narrowing is rounding -/

section Narrow

variable {significand shift : Nat}

/-- Normal halves: whatever the exponent is, the last 42 bits are rounded off. -/
theorem nearest_of_le (hle : 2 ^ 52 ≤ significand) (hlt : significand < 2 ^ 53)
    (hshift : shift ≤ 42) :
    binary16.nearest significand (2 ^ shift)
      = min ((42 - shift) * 2 ^ 10 + roundHalfEven significand (2 ^ 42)) binary16.infinity := by
  have hpow {n : Nat} (hn : shift ≤ n) : 2 ^ (n - shift) * 2 ^ shift = 2 ^ n := by
    rw [← pow_add, Nat.sub_add_cancel hn]
  have hlog : (significand / 2 ^ shift).log2 = 52 - shift := by
    have hpos : significand / 2 ^ shift ≠ 0 := by
      have hle' : 2 ^ shift ≤ 2 ^ 52 := Nat.pow_le_pow_right Nat.two_pos (by omega)
      exact (Nat.div_pos (hle'.trans hle) (Nat.two_pow_pos _)).ne'
    rw [Nat.log2_eq_iff hpos, Nat.le_div_iff_mul_le (Nat.two_pow_pos _), hpow (by omega),
      Nat.div_lt_iff_lt_mul (Nat.two_pow_pos _), show 52 - shift + 1 = 53 - shift by omega,
      hpow (by omega)]
    exact ⟨hle, hlt⟩
  have hplace : 52 - shift - binary16.fractionBits = 42 - shift := by
    change 52 - shift - 10 = _
    omega
  simp only [Format.nearest, hlog, hplace, Nat.pow_eq]
  rw [Nat.mul_comm (2 ^ shift), hpow hshift]
  rfl

/-- Subnormal halves: everything below the unit is rounded off. -/
theorem nearest_of_lt (hlt : significand < 2 ^ 10 * 2 ^ shift) :
    binary16.nearest significand (2 ^ shift) = roundHalfEven significand (2 ^ shift) := by
  have hlog : (significand / 2 ^ shift).log2 - binary16.fractionBits = 0 := by
    have hdiv : significand / 2 ^ shift < 2 ^ 10 := Nat.div_lt_of_lt_mul (by rwa [Nat.mul_comm])
    rcases Nat.eq_zero_or_pos (significand / 2 ^ shift) with hzero | hpos
    · rw [hzero, Nat.log2_zero, Nat.zero_sub]
    · have hten := (Nat.log2_lt hpos.ne').mpr hdiv
      exact Nat.sub_eq_zero_of_le (Nat.le_of_lt hten)
  have hle : roundHalfEven significand (2 ^ shift) ≤ 2 ^ 10 :=
    Binary.roundHalfEven_le (Nat.two_pow_pos _) (by rw [Nat.mul_comm]; exact hlt.le)
  simp only [Format.nearest, hlog, Nat.pow_eq, pow_zero, Nat.mul_one, Nat.zero_mul, Nat.zero_add]
  exact Nat.min_eq_left (hle.trans (by decide))

/-- What is below half a unit is rounded to zero. -/
theorem nearest_eq_zero (h : 2 * significand < 2 ^ shift) :
    binary16.nearest significand (2 ^ shift) = 0 := by
  rw [nearest_of_lt (by omega), Binary.roundHalfEven_eq_zero h]

/-- A double as a quotient of its significand and a power of two. -/
theorem ofQuotient_eq_nearest {exponent : Nat} (hpos : 0 < exponent) (hle : exponent ≤ 1051) :
    binary16.ofQuotient (significand * 2 ^ (exponent - 1)) binary64.one
      = binary16.nearest significand (2 ^ (1051 - exponent)) := by
  obtain ⟨scale, hone, hscale⟩ := Double.exists_one_eq
  have hhalf : binary16.one = 2 ^ 24 := rfl
  rw [Format.ofQuotient, hone, hhalf, Nat.mul_assoc, ← pow_add,
    show exponent - 1 + 24 = exponent + 23 by omega,
    show scale = 1051 - exponent + (exponent + 23) by omega, pow_add 2 (1051 - exponent),
    Format.nearest_mul_right _ _ _ (Nat.two_pow_pos _)]

/-- Above the greatest exponent of a half every double is rounded to infinity. -/
theorem ofQuotient_eq_infinity {exponent : Nat} (hle : 2 ^ 52 ≤ significand)
    (hexponent : 1038 < exponent) :
    binary16.ofQuotient (significand * 2 ^ (exponent - 1)) binary64.one = binary16.infinity := by
  obtain ⟨scale, hone, hscale⟩ := Double.exists_one_eq
  have hhalf : binary16.one = 2 ^ 24 := rfl
  have hbit : 4 * binary16.implicitBit - 1 ≤ 2 ^ 12 := by decide
  rw [Format.ofQuotient, hone, hhalf,
    Format.nearest_eq_infinity_iff (Nat.two_pow_pos _) (show Nat.pow 2 5 = 29 + 3 from rfl)]
  calc (4 * binary16.implicitBit - 1) * (2 ^ scale * 2 ^ 29)
      ≤ 2 ^ 12 * (2 ^ scale * 2 ^ 29) := Nat.mul_le_mul_right _ hbit
    _ = 2 ^ (12 + (scale + 29)) := by rw [pow_add, pow_add]
    _ ≤ 2 ^ (52 + (exponent - 1) + 24 + 1) := Nat.pow_le_pow_right Nat.two_pos (by omega)
    _ = 2 * (2 ^ 52 * 2 ^ (exponent - 1) * 2 ^ 24) := by
      rw [pow_succ', pow_add, pow_add 2 52]
    _ ≤ 2 * (significand * 2 ^ (exponent - 1) * 2 ^ 24) :=
      Nat.mul_le_mul_left 2 (Nat.mul_le_mul_right _ (Nat.mul_le_mul_right _ hle))

end Narrow

/-- The four ranges, and the carry from each to the next. -/
theorem narrowFields_eq {exponent fraction : Nat} (hfraction : fraction < 2 ^ 52) :
    narrowFields exponent fraction
      = binary16.ofQuotient
          (if exponent = 0 then fraction else (2 ^ 52 + fraction) * 2 ^ (exponent - 1))
          binary64.one := by
  have hinfinity : binary16.infinity = 31 * 2 ^ 10 := rfl
  rw [narrowFields]
  split
  case isTrue hoverflow =>
    have hne : exponent ≠ 0 := by omega
    rw [if_neg hne, ofQuotient_eq_infinity (Nat.le_add_right ..) hoverflow]
    rfl
  case isFalse hrange =>
    split
    case isTrue hnormal =>
      have hround : roundHalfEven (2 ^ 52 + fraction) (2 ^ 42) = 2 ^ 10 + roundNormal fraction := by
        rw [roundNormal_eq]
        exact Binary.roundHalfEven_add (k := 2 ^ 10) (by decide) fraction (Nat.two_pow_pos 42)
      have hle : roundNormal fraction ≤ 2 ^ 10 := by
        rw [roundNormal_eq]
        exact Binary.roundHalfEven_le (Nat.two_pow_pos 42) (by omega)
      have hne : exponent ≠ 0 := by omega
      rw [if_neg hne, ofQuotient_eq_nearest (by omega) (by omega),
        nearest_of_le (Nat.le_add_right ..) (by omega) (by omega), hround, hinfinity]
      dsimp only
      split <;> omega
    case isFalse hsubnormal =>
      dsimp only
      split
      case isTrue hsmall =>
        have htiny {n shift : Nat} (hn : n < 2 ^ 53) (hshift : 53 < shift) :
            binary16.nearest n (2 ^ shift) = 0 := by
          refine nearest_eq_zero (Nat.lt_of_lt_of_le ?_ (Nat.pow_le_pow_right Nat.two_pos hshift))
          omega
        split
        -- A subnormal double has the exponent of the least normal one, without its implicit bit.
        · have hunits : binary16.ofQuotient (fraction * 2 ^ (1 - 1)) binary64.one
              = binary16.nearest fraction (2 ^ (1051 - 1)) :=
            ofQuotient_eq_nearest Nat.one_pos (by omega)
          rw [Nat.sub_self, pow_zero, Nat.mul_one] at hunits
          rw [hunits, htiny (by omega) (by omega)]
        · rw [ofQuotient_eq_nearest (by omega) (by omega), htiny (by omega) (by omega)]
      case isFalse hlarge =>
        have hne : exponent ≠ 0 := by omega
        have hpow : 2 ^ 43 ≤ 2 ^ (1051 - exponent) := Nat.pow_le_pow_right Nat.two_pos (by omega)
        have hlt : 2 ^ 52 + fraction < 2 ^ 10 * 2 ^ (1051 - exponent) := by omega
        rw [if_neg hne, ofQuotient_eq_nearest (by omega) (by omega), nearest_of_lt hlt,
          show 28 + 1023 - exponent = 1051 - exponent by omega]
        split
        · rename_i hlast
          rw [hlast]
          simp only [roundHalfEven]
          split_ifs <;> omega
        · have hle : roundHalfEven (2 ^ 52 + fraction) (2 ^ (1051 - exponent)) ≤ 2 ^ 10 :=
            Binary.roundHalfEven_le (Nat.two_pow_pos _) (by rw [Nat.mul_comm]; exact hlt.le)
          rw [roundSubnormal_eq (by omega) hlt]
          split <;> omega

/-- The half nearest to a double. -/
theorem narrow_eq (x : Double) : narrow x = LaneKind.halfBits x := by
  rw [narrow, LaneKind.halfBits]
  cases hnan : x.isNaN with
  | true => rfl
  | false =>
    have hle : x.magnitude ≤ binary64.infinity := by
      rw [Double.isNaN, decide_eq_false_iff_not] at hnan
      omega
    simp only [Bool.false_eq_true, if_false]
    rcases Nat.lt_or_eq_of_le hle with hfinite | hinfinite
    · have hfraction : binary64.fraction x.bits.toNat < 2 ^ 52 :=
        Nat.mod_lt _ Format.implicitBit_pos
      have hunits : binary64.units (binary64.magnitude x.bits.toNat)
          = if binary64.exponent x.bits.toNat = 0 then binary64.fraction x.bits.toNat
            else (2 ^ 52 + binary64.fraction x.bits.toNat)
              * 2 ^ (binary64.exponent x.bits.toNat - 1) := rfl
      have hinfinite : x.isInfinite = false := decide_eq_false hfinite.ne
      rw [Format.convert_of_lt hfinite, hunits, ← narrowFields_eq hfraction, hinfinite]
      congr 1
      cases hzero : x.isZero with
      | false => rfl
      | true =>
        have hmagnitude : binary64.magnitude x.bits.toNat = 0 := of_decide_eq_true hzero
        simp [narrowFields, Format.exponent, hmagnitude]
    · have hinfinite' : x.isInfinite = true := decide_eq_true hinfinite
      rw [Format.convert_of_eq hinfinite, hinfinite']
      rfl

/-! ### Widening is exact -/

theorem normalize_spec {fraction : Nat} (hpos : 0 < fraction) (hlt : fraction < 0x800)
    (shifts : Nat) : ∃ k, normalize fraction shifts = (fraction * 2 ^ k, shifts + k) ∧
      0x400 ≤ fraction * 2 ^ k ∧ fraction * 2 ^ k < 0x800 := by
  fun_induction normalize fraction shifts with
  | case1 fraction shifts h ih =>
    obtain ⟨k, heq, hge, hlt⟩ := ih (by omega) (by omega)
    have hdouble : 2 * fraction * 2 ^ k = fraction * 2 ^ (k + 1) := by
      rw [pow_succ]
      ring
    rw [hdouble] at heq hge hlt
    exact ⟨k + 1, by rw [heq, Nat.add_right_comm, Nat.add_assoc], hge, hlt⟩
  | case2 fraction shifts h =>
    refine ⟨0, ?_, ?_, ?_⟩
    · rw [pow_zero, Nat.mul_one, Nat.add_zero]
    · omega
    · omega

/-- The quiet bit is set, whether it was or not. -/
theorem quiet_or_eq {fraction : Nat} (hlt : fraction < 2 ^ 10) :
    0x7ff8000000000000 ||| fraction * 2 ^ 42 = 0x7ff8000000000000 + fraction * 2 ^ 42 % 2 ^ 51 := by
  have hquiet : 0x7ff8000000000000 = 2 ^ 51 * 0xfff := rfl
  rcases Nat.lt_or_ge fraction 512 with hsmall | hlarge
  · have hpayload : fraction * 2 ^ 42 < 2 ^ 51 := by omega
    rw [Nat.mod_eq_of_lt hpayload, hquiet, Nat.two_pow_add_eq_or_of_lt hpayload]
  · obtain ⟨payload, rfl⟩ := Nat.exists_eq_add_of_le hlarge
    have hpayload : payload * 2 ^ 42 < 2 ^ 51 := by omega
    have hsplit : (512 + payload) * 2 ^ 42 = 2 ^ 51 * 1 + payload * 2 ^ 42 := by ring
    rw [hsplit, Nat.mul_add_mod, Nat.mod_eq_of_lt hpayload, Nat.two_pow_add_eq_or_of_lt hpayload,
      ← Nat.or_assoc, hquiet, Nat.two_pow_add_eq_or_of_lt hpayload]
    rfl

/-- A half with the significand `n` has it as a double, 42 places up. -/
theorem ofQuotient_widen {units n shift : Nat} (hge : 2 ^ 10 ≤ n) (hlt : n < 2 ^ 11)
    (hunits : units * 2 ^ (binary64.scale - 66) = n * 2 ^ shift) :
    binary64.ofQuotient units binary16.one
      = min (shift * 2 ^ 52 + n * 2 ^ 42) binary64.infinity := by
  have hone : binary64.one = 2 ^ (binary64.scale - 66) * 2 ^ 42 * 2 ^ 24 := by
    rw [Format.one, Nat.pow_eq, ← pow_add, ← pow_add,
      show binary64.scale - 66 + 42 + 24 = binary64.scale by decide]
  have hhalf : binary16.one = 2 ^ 24 := rfl
  have hscaled : units * (2 ^ (binary64.scale - 66) * 2 ^ 42) = n * 2 ^ 42 * Nat.pow 2 shift := by
    rw [← Nat.mul_assoc, hunits, Nat.pow_eq]
    ring
  have hbit : binary64.implicitBit = 2 ^ 10 * 2 ^ 42 := rfl
  rw [Format.ofQuotient, hone, ← Nat.mul_assoc, hhalf, Format.nearest_mul _ (Nat.two_pow_pos _),
    hscaled, Format.nearest_mul_pow (by omega) (by omega)]
  rfl

theorem ofQuotient_zero (f g : Format) : f.ofQuotient 0 g.one = 0 := by
  have hcancel := Format.nearest_mul (f := f) 0 (Format.one_pos (f := g))
  rw [Nat.zero_mul] at hcancel
  rw [Format.ofQuotient, Nat.zero_mul, hcancel,
    Format.nearest_of_lt (Nat.mul_pos Nat.two_pos Format.implicitBit_pos), Nat.zero_min]

/-- Magnitudes of the doubles that finite halves are widened to. -/
theorem widenFields_eq {exponent fraction : Nat} (hexponent : exponent < 31)
    (hfraction : fraction < 2 ^ 10) :
    widenFields exponent fraction
      = binary64.ofQuotient
          (if exponent = 0 then fraction else (2 ^ 10 + fraction) * 2 ^ (exponent - 1))
          binary16.one := by
  have hscale : binary64.scale = 1074 := by decide
  have hinfinity : binary64.infinity = 2047 * 2 ^ 52 := rfl
  rw [widenFields]
  split
  case isTrue hzero =>
    split
    · rename_i hnone
      rw [hnone, ofQuotient_zero]
    · obtain ⟨k, hnormal, hge, hlt⟩ := normalize_spec (Nat.pos_of_ne_zero ‹_›) (by omega) 0
      have hk : k < 11 := by
        refine (Nat.pow_lt_pow_iff_right Nat.one_lt_two).mp (Nat.lt_of_le_of_lt ?_ hlt)
        exact Nat.le_mul_of_pos_left _ (Nat.pos_of_ne_zero ‹_›)
      have hunits : fraction * 2 ^ (binary64.scale - 66) = fraction * 2 ^ k * 2 ^ (1008 - k) := by
        rw [Nat.mul_assoc, ← pow_add, hscale, show k + (1008 - k) = 1074 - 66 by omega]
      rw [hnormal, ofQuotient_widen hge hlt hunits, hinfinity]
      clear hunits
      dsimp only
      omega
  case isFalse hpos =>
    have hunits : (2 ^ 10 + fraction) * 2 ^ (exponent - 1) * 2 ^ (binary64.scale - 66)
        = (2 ^ 10 + fraction) * 2 ^ (exponent - 1 + (binary64.scale - 66)) := by
      rw [Nat.mul_assoc, ← pow_add]
    rw [if_neg (by omega), ofQuotient_widen (by omega) (by omega) hunits, hinfinity]
    clear hunits
    omega

/-- The double with the number of a half. -/
theorem widen_eq (bits : Nat) : widen bits = binary16.convert binary64 bits := by
  have hinfinity : binary16.infinity = 31 * 2 ^ 10 := rfl
  have hexponent : binary16.exponent bits = binary16.magnitude bits / 2 ^ 10 := rfl
  have hfraction : binary16.fraction bits = binary16.magnitude bits % 2 ^ 10 := rfl
  have hmagnitude : binary16.magnitude bits < 32 * 2 ^ 10 :=
    Nat.mod_lt bits (show 0 < binary16.signBit by decide)
  rcases Nat.lt_trichotomy (binary16.magnitude bits) binary16.infinity with hlt | heq | hgt
  · have hunits : binary16.units (binary16.magnitude bits)
        = if binary16.exponent bits = 0 then binary16.fraction bits
          else (2 ^ 10 + binary16.fraction bits) * 2 ^ (binary16.exponent bits - 1) := rfl
    rw [widen, Format.convert_of_lt hlt, hunits, widenFields_eq (by omega) (by omega)]
  · have hfull : binary16.exponent bits = 31 := by omega
    have hnone : binary16.fraction bits = 0 := by omega
    rw [widen, Format.convert_of_eq heq, hfull, hnone]
    rfl
  · have hfull : binary16.exponent bits = 31 := by omega
    have hsome : binary16.fraction bits ≠ 0 := by omega
    have hpayload : binary16.quietPayload binary64 (binary16.magnitude bits)
        = 2 ^ 51 + binary16.fraction bits * 2 ^ 52 / 2 ^ 10 % 2 ^ 51 := rfl
    have haligned : binary16.fraction bits * 2 ^ 52 / 2 ^ 10 = binary16.fraction bits * 2 ^ 42 := by
      omega
    rw [widen, Format.convert, hfull, widenFields]
    simp only [hsome, if_false, if_neg (Nat.lt_asymm hgt), if_neg hgt.ne', hpayload]
    rw [haligned, if_neg (by decide), if_pos trivial, quiet_or_eq (by omega), ← Nat.add_assoc]
    rfl

end Half

end ArrayEngine
