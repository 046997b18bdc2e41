import ArrayEngine.Proofs.Binary.Coercion
import ArrayEngine.Proofs.Lane.Bytes
import ArrayEngine.Proofs.Lane.Codec
import Mathlib.Data.Int.ModEq
import Mathlib.Data.Set.Defs

/-!
# Lanes of integers

A lane of width `w` holds the residue modulo `2 ^ w` of the integral part of a number, or of a big
integer, and is read as the one integer with that residue in the range of its kind. Magnitudes are
not limited: a number may be as great as `2 ^ 1024`, and a big integer has any number of bytes. The
lane of clamped bytes holds the nearest byte, of two that are equally near the even one.

That the lanes do this is stated of the conversion that runs, and of the operations by which it can
be carried out: the remainder of doubles and its correction, comparisons with one half, and bytes in
two's complement with the sign filled in.

## Main definitions

* `LaneKind.range`: the integers that a kind of lane is read as
* `LaneKind.HoldsResidue`, `LaneKind.ClampsTo`: what a lane holds
* `LaneKind.reducedBits`, `LaneKind.lowBits`: the conversions, operation by operation

## Main results

* `LaneKind.eq_of_modEq`: a residue is that of one integer of the range
* `LaneKind.reducedBits_eq`, `LaneKind.lowBits_eq`: both conversions come to the residue
* `LaneKind.holdsResidue_clampsTo`: what each kind of lane holds
-/

namespace ArrayEngine

open Binary (Double binary64 roundHalfEven)

/-- A value is the given integer. Of the zeros both are. -/
def Value.IsInteger : Value → ℤ → Prop
  | .number x, n => x.isFinite ∧ x.value = n
  | .bigInt m, n => m = n
  | _, _ => False

namespace LaneKind

variable {kind : LaneKind} {bits : Nat} {m n t : ℤ} {x : Double}

/-! ### Integers of a lane -/

/-- Whether a lane of the kind is read as a signed integer. -/
def isSigned : LaneKind → Bool
  | int8 | int16 | int32 | bigInt64 => true
  | _ => false

/-- Integers that a lane of the kind is read as. -/
def range (kind : LaneKind) : Set ℤ :=
  if kind.isSigned then {n | -2 ^ (kind.width - 1) ≤ n ∧ n < 2 ^ (kind.width - 1)}
  else {n | 0 ≤ n ∧ n < 2 ^ kind.width}

theorem width_pos (kind : LaneKind) : 0 < kind.width := Nat.mul_pos (by decide) kind.size_pos

theorem two_pow_pred_width (kind : LaneKind) : (2 : ℤ) * 2 ^ (kind.width - 1) = 2 ^ kind.width := by
  rw [← pow_succ', Nat.sub_add_cancel kind.width_pos]

/-- A residue is that of one integer of the range. -/
theorem eq_of_modEq (hm : m ∈ kind.range) (hn : n ∈ kind.range)
    (h : m ≡ n [ZMOD 2 ^ kind.width]) : m = n := by
  have hpow := kind.two_pow_pred_width
  have hlt : |n - m| < 2 ^ kind.width := by
    rw [range] at hm hn
    rw [abs_lt]
    split at hm
    · rw [if_pos ‹_›] at hn
      obtain ⟨hm₁, hm₂⟩ := hm
      obtain ⟨hn₁, hn₂⟩ := hn
      omega
    · rw [if_neg ‹_›] at hn
      obtain ⟨hm₁, hm₂⟩ := hm
      obtain ⟨hn₁, hn₂⟩ := hn
      omega
  have hzero := Int.eq_zero_of_abs_lt_dvd h.dvd hlt
  omega

theorem signed_mem_range (hkind : kind.isSigned = true) (bits : Nat) :
    kind.signed bits ∈ kind.range := by
  have hpow := kind.two_pow_pred_width
  have hpos : 0 < Nat.pow 2 kind.width := Nat.two_pow_pos _
  have hle := Int.le_bmod (x := bits) hpos
  have hlt := Int.bmod_lt (x := bits) hpos
  rw [Nat.pow_eq, Nat.cast_pow, Nat.cast_ofNat] at hle hlt
  rw [range, if_pos hkind, signed, Nat.pow_eq]
  exact ⟨by omega, by omega⟩

theorem signed_modEq (kind : LaneKind) (bits : Nat) :
    kind.signed bits ≡ bits [ZMOD 2 ^ kind.width] := by
  have hmod : kind.signed bits % (2 ^ kind.width : ℕ) = bits % (2 ^ kind.width : ℕ) :=
    Int.bmod_emod
  rwa [Nat.cast_pow, Nat.cast_ofNat] at hmod

/-- Kinds of lanes that hold a number as an integer reduced to their width. -/
def isModular : LaneKind → Bool
  | int8 | uint8 | int16 | uint16 | int32 | uint32 => true
  | _ => false

theorem isInteger_ofInt (h : n.natAbs < 2 ^ 53) : (Value.number (Double.ofInt n)).IsInteger n :=
  ⟨(Double.isInt_ofInt h).1, (Double.isInt_ofInt h).value_eq⟩

theorem isInteger_ofNat (h : bits < 2 ^ 53) : (Value.number (Double.ofNat bits)).IsInteger bits :=
  ⟨(Double.isInt_ofNat h).1, (Double.isInt_ofNat h).value_eq⟩

/-- An integer lane is read as an integer of its range. -/
theorem exists_isInteger_decode (hkind : kind.isModular ∨ kind.isBigInt)
    (hbits : bits < 256 ^ kind.size) :
    ∃ n ∈ kind.range, (kind.decode bits).IsInteger n ∧ n ≡ bits [ZMOD 2 ^ kind.width] := by
  have hunsigned (hkind : kind.isSigned = false) : (bits : ℤ) ∈ kind.range := by
    rw [← two_pow_width, Nat.pow_eq] at hbits
    rw [range, hkind, if_neg Bool.false_ne_true]
    exact ⟨Int.natCast_nonneg _, by exact_mod_cast hbits⟩
  cases kind with
  | int8 | int16 | int32 =>
    exact ⟨_, signed_mem_range rfl bits, isInteger_ofInt (natAbs_signed_lt (by decide)),
      signed_modEq _ bits⟩
  | uint8 | uint16 | uint32 =>
    exact ⟨bits, hunsigned rfl, isInteger_ofNat (lt_two_pow_of_size_le (by decide) hbits), .rfl⟩
  | bigInt64 => exact ⟨_, signed_mem_range rfl bits, rfl, signed_modEq _ bits⟩
  | bigUint64 => exact ⟨bits, hunsigned rfl, rfl, .rfl⟩
  | uint8Clamped | float16 | float32 | float64 => simp [isModular, isBigInt] at hkind

/-! ### Residues -/

/-- A lane of the kind takes a value for the integer `t`: it holds the residue of `t`, and is read
as the one integer of its range with that residue. -/
structure HoldsResidue (kind : LaneKind) (v : Value) (t : ℤ) (bits : ℕ) : Prop where
  encode_eq : kind.encode v = .ok bits
  lt : bits < 2 ^ kind.width
  modEq : bits ≡ t [ZMOD 2 ^ kind.width]
  decode_unique : ∃ n ∈ kind.range, (kind.decode bits).IsInteger n ∧
    n ≡ t [ZMOD 2 ^ kind.width] ∧ ∀ m ∈ kind.range, m ≡ t [ZMOD 2 ^ kind.width] → m = n

theorem wrapped_modEq (kind : LaneKind) (t : ℤ) :
    (kind.wrapped t : ℤ) ≡ t [ZMOD 2 ^ kind.width] := by
  have hne : ((2 ^ kind.width : ℕ) : ℤ) ≠ 0 := by positivity
  have hmod : (kind.wrapped t : ℤ) = t % (2 ^ kind.width : ℕ) := by
    rw [wrapped, Nat.pow_eq, Int.toNat_of_nonneg (Int.emod_nonneg t hne)]
  rw [Nat.cast_pow, Nat.cast_ofNat] at hmod
  rw [hmod]
  exact Int.mod_modEq ..

theorem holdsResidue_wrapped (hkind : kind.isModular ∨ kind.isBigInt) {v : Value}
    (h : kind.encode v = .ok (kind.wrapped t)) : kind.HoldsResidue v t (kind.wrapped t) where
  encode_eq := h
  lt := by
    rw [← Nat.pow_eq, two_pow_width]
    exact wrapped_lt kind t
  modEq := wrapped_modEq kind t
  decode_unique := by
    obtain ⟨n, hn, hinteger, hmod⟩ := exists_isInteger_decode hkind (wrapped_lt kind t)
    have hresidue := hmod.trans (wrapped_modEq kind t)
    exact ⟨n, hn, hinteger, hresidue, fun m hm h => eq_of_modEq hm hn (h.trans hresidue.symm)⟩

/-- Pattern of a number in an integer lane: the low bits of the 32-bit residue, for the signed kinds
read as a signed integer in between. -/
def reducedBits (kind : LaneKind) (x : Double) : Nat :=
  if kind.isSigned then kind.wrapped (kind.signed x.modulo32) else kind.wrapped x.modulo32

theorem wrapped_congr (h : m ≡ n [ZMOD 2 ^ kind.width]) : kind.wrapped m = kind.wrapped n := by
  have hmod : m % 2 ^ kind.width = n % 2 ^ kind.width := h
  rw [wrapped, wrapped, Nat.pow_eq, Nat.cast_pow, Nat.cast_ofNat, hmod]

theorem reducedBits_eq (hkind : kind.isModular = true) (x : Double) :
    kind.reducedBits x = kind.wrapped x.toInt := by
  have hsize : kind.width ≤ 32 := by cases kind <;> first | decide | cases hkind
  have hmodulo : (x.modulo32 : ℤ) ≡ x.toInt [ZMOD 2 ^ kind.width] := by
    have hmod : (x.modulo32 : ℤ) = x.toInt % 2 ^ 32 := by
      have hnonneg := Int.emod_nonneg x.toInt (show (2 ^ 32 : ℤ) ≠ 0 by norm_num)
      rw [Double.modulo32_eq, Double.toUnsigned, Nat.pow_eq, Nat.cast_pow, Nat.cast_ofNat,
        Int.toNat_of_nonneg hnonneg]
    rw [hmod]
    exact (Int.mod_modEq ..).of_dvd (pow_dvd_pow 2 hsize)
  rw [reducedBits]
  split
  · exact wrapped_congr ((signed_modEq kind _).trans hmodulo)
  · exact wrapped_congr hmodulo

/-! ### Clamped bytes -/

/-- The number of the interval of bytes that is nearest to a number. -/
def clampByte (q : ℚ) : ℚ := max 0 (min 255 q)

/-- A byte is the one to which a double is clamped and rounded. -/
structure ClampsTo (x : Double) (bits : ℕ) : Prop where
  encode_eq : uint8Clamped.encode (.number x) = .ok bits
  decode_isInteger : (uint8Clamped.decode bits).IsInteger bits
  le : bits ≤ 255
  of_isNaN : x.isNaN → bits = 0
  of_isInfinite : x.isInfinite → bits = if x.isNegative then 0 else 255
  nearest : x.isFinite → ∀ n : ℤ, |clampByte x.value - bits| ≤ |clampByte x.value - n|
  even_of_tie : x.isFinite → ∀ n : ℤ,
    |clampByte x.value - bits| = |clampByte x.value - n| → n ≠ bits → Even bits

/-- Either the interval ends at the byte, or the number lies in the interval and is rounded. -/
theorem clampByte_value_cases (hx : x.isNaN = false) :
    clampByte x.value = x.toClampedByte ∨
      clampByte x.value = x.units / Double.one ∧
        x.toClampedByte = roundHalfEven x.units Double.one := by
  have hone : (0 : ℚ) < Double.one := Nat.cast_pos.mpr Double.one_pos
  have hquotient : (0 : ℚ) ≤ x.units / Double.one := div_nonneg (Nat.cast_nonneg _) hone.le
  rw [clampByte, Double.value_eq]
  cases hsign : x.isNegative with
  | true =>
    have hbyte : x.toClampedByte = 0 := by
      rw [Double.toClampedByte, hsign, Bool.or_true, if_pos rfl]
    left
    rw [hbyte, if_pos rfl, neg_one_mul, Nat.cast_zero]
    exact max_eq_left ((min_le_right ..).trans (neg_nonpos.mpr hquotient))
  | false =>
    rw [if_neg Bool.false_ne_true, one_mul]
    rcases Nat.lt_or_ge x.units (255 * Double.one) with hlt | hge
    · right
      have hless : (x.units / Double.one : ℚ) ≤ 255 := by
        rw [div_le_iff₀ hone]
        exact_mod_cast hlt.le
      rw [min_eq_right hless, max_eq_right hquotient]
      exact ⟨rfl, Double.toClampedByte_of_lt hx hsign hlt⟩
    · left
      have hgreat : (255 : ℚ) ≤ x.units / Double.one := by
        rw [le_div_iff₀ hone]
        exact_mod_cast hge
      rw [Double.toClampedByte_of_le hx hsign hge, min_eq_left hgreat]
      norm_num

theorem clampsTo_toClampedByte (x : Double) : ClampsTo x x.toClampedByte where
  encode_eq := rfl
  decode_isInteger := isInteger_ofNat (by have := Double.toClampedByte_le x; omega)
  le := Double.toClampedByte_le x
  of_isNaN hnan := by
    rw [Double.toClampedByte, hnan]
    rfl
  of_isInfinite hinfinite := by
    have hnan := Double.not_isNaN_of_isInfinite hinfinite
    have hgreat : 255 * Double.one ≤ x.units := by
      rw [Double.units_of_isInfinite hinfinite]
      decide +kernel
    cases hsign : x.isNegative with
    | true => rw [Double.toClampedByte, hsign, Bool.or_true, if_pos rfl, if_pos rfl]
    | false =>
      rw [Double.toClampedByte_of_le hnan hsign hgreat]
      rfl
  nearest hfinite n := by
    rcases clampByte_value_cases (Double.not_isNaN_of_isFinite hfinite) with hend | ⟨hclamp, hbyte⟩
    · rw [hend, sub_self, abs_zero]
      exact abs_nonneg _
    · rw [hclamp, hbyte]
      exact (Binary.abs_sub_roundHalfEven _ Double.one_pos n).1
  even_of_tie hfinite n htie hne := by
    rcases clampByte_value_cases (Double.not_isNaN_of_isFinite hfinite) with hend | ⟨hclamp, hbyte⟩
    · rw [hend, sub_self, abs_zero, eq_comm, abs_eq_zero, sub_eq_zero] at htie
      exact absurd (by exact_mod_cast htie.symm) hne
    · rw [hclamp, hbyte] at htie
      rw [hbyte] at hne ⊢
      exact (Binary.abs_sub_roundHalfEven _ Double.one_pos n).2 htie hne

/-! ### Big integers -/

/-- Integer with the given bytes in two's complement, least significant first. -/
def twosComplement (bytes : List UInt8) : ℤ :=
  Int.bmod (ofLittleEndian bytes) (256 ^ bytes.length)

/-- Low 64 bits of an integer, given its bytes in two's complement: its first eight bytes, with the
sign filled in where there are fewer. -/
def lowBits (v : ℤ) (bytes : List UInt8) : Nat :=
  let fill : UInt8 := if v < 0 then 0xff else 0
  ofLittleEndian (bytes.take 8 ++ List.replicate (8 - bytes.length) fill)

theorem twosComplement_modEq (bytes : List UInt8) :
    twosComplement bytes ≡ ofLittleEndian bytes [ZMOD 256 ^ bytes.length] := by
  have hmod : twosComplement bytes % (256 ^ bytes.length : ℕ)
      = ofLittleEndian bytes % (256 ^ bytes.length : ℕ) := Int.bmod_emod
  rwa [Nat.cast_pow, Nat.cast_ofNat] at hmod

/-- The sign says whether the bytes have been moved down by a whole turn. -/
theorem twosComplement_cases (bytes : List UInt8) :
    0 ≤ twosComplement bytes ∧ twosComplement bytes = ofLittleEndian bytes ∨
      twosComplement bytes < 0 ∧
        twosComplement bytes = ofLittleEndian bytes - (256 ^ bytes.length : ℕ) := by
  have hlt := ofLittleEndian_lt bytes
  rw [twosComplement, Int.bmod, ← Int.natCast_emod, Nat.mod_eq_of_lt hlt]
  split <;> omega

/-- Filling the sign in does not change an integer, and what is cut off does not change its
residue. -/
theorem lowBits_modEq (bytes : List UInt8) :
    (lowBits (twosComplement bytes) bytes : ℤ) ≡ twosComplement bytes [ZMOD 2 ^ 64] := by
  have hpow : (2 ^ 64 : ℤ) = 256 ^ 8 := by norm_num
  rcases Nat.lt_or_ge bytes.length 8 with hshort | hlong
  · have htake : bytes.take 8 = bytes := List.take_of_length_le hshort.le
    rcases twosComplement_cases bytes with ⟨hsign, heq⟩ | ⟨hsign, heq⟩
    · have hbits : lowBits (twosComplement bytes) bytes = ofLittleEndian bytes := by
        simp only [lowBits, if_neg (Int.not_lt.mpr hsign), htake, ofLittleEndian_append,
          ofLittleEndian_replicate_zero, Nat.mul_zero, Nat.add_zero]
      rw [hbits, heq]
    · have hfill := ofLittleEndian_replicate_full (8 - bytes.length)
      have hbits : lowBits (twosComplement bytes) bytes + 256 ^ bytes.length
          = ofLittleEndian bytes + 256 ^ 8 := by
        simp only [lowBits, if_pos hsign, htake, ofLittleEndian_append]
        rw [Nat.add_assoc, ← Nat.mul_succ, Nat.succ_eq_add_one, hfill, ← pow_add,
          Nat.add_sub_cancel' hshort.le]
      -- With the sign filled in, the bytes are those of the integer moved up by one whole turn.
      exact Int.modEq_iff_dvd.mpr ⟨-1, by omega⟩
  · have htake : lowBits (twosComplement bytes) bytes = ofLittleEndian bytes % 256 ^ 8 := by
      rw [lowBits, Nat.sub_eq_zero_of_le hlong, List.replicate_zero, List.append_nil,
        ofLittleEndian_take bytes hlong]
    rw [htake, Int.natCast_emod, Nat.cast_pow, Nat.cast_ofNat, hpow]
    have hresidue := (twosComplement_modEq bytes).of_dvd (pow_dvd_pow 256 hlong)
    exact (Int.mod_modEq ..).trans hresidue.symm

theorem lowBits_lt (v : ℤ) (bytes : List UInt8) : lowBits v bytes < 256 ^ 8 := by
  refine (ofLittleEndian_lt _).trans_le (Nat.pow_le_pow_right (by decide) ?_)
  simp only [List.length_append, List.length_take, List.length_replicate]
  omega

/-- The bytes of a big integer are cut off to its residue. -/
theorem lowBits_eq (hkind : kind.isBigInt = true) (bytes : List UInt8) :
    lowBits (twosComplement bytes) bytes = kind.wrapped (twosComplement bytes) := by
  have hsize : kind.size = 8 := by cases kind <;> first | rfl | cases hkind
  have hmod := lowBits_modEq bytes
  have hlt := lowBits_lt (twosComplement bytes) bytes
  rw [← hsize] at hlt
  rw [← wrapped_natCast hlt]
  refine wrapped_congr ?_
  rwa [width, hsize]

/-! ### Integer lanes -/

theorem encode_number (hkind : kind.isModular = true) (x : Double) :
    kind.encode (.number x) = .ok (kind.reducedBits x) := by
  rw [reducedBits_eq hkind]
  cases kind <;> first | rfl | cases hkind

theorem reducedBits_of_not_isFinite (kind : LaneKind) (hx : ¬x.isFinite) :
    kind.reducedBits x = 0 := by
  have hclass : (x.isNaN || x.isInfinite || x.numericEq Double.zero) = true := by
    cases hnan : x.isNaN with
    | true => rfl
    | false =>
      cases hinfinite : x.isInfinite with
      | true => rfl
      | false => exact absurd (Double.isFinite_of_not_isNaN hnan hinfinite) hx
  rw [reducedBits, Double.modulo32, if_pos hclass]
  cases kind <;> rfl

theorem isInteger_decode_zero (hkind : kind.isModular = true) : (kind.decode 0).IsInteger 0 := by
  cases kind with
  | int8 | int16 | int32 => exact isInteger_ofInt (show (0 : ℤ).natAbs < 2 ^ 53 by decide)
  | uint8 | uint16 | uint32 => exact isInteger_ofNat (show 0 < 2 ^ 53 by decide)
  | _ => cases hkind

/-- **Integer lanes hold residues**: those of width 32 and less of a number's integral part, and
those of width 64 of a big integer. A clamped byte is the nearest one. The operations of the
conversions, on doubles and on bytes, come to this. -/
theorem holdsResidue_clampsTo :
    (∀ kind : LaneKind, kind.isModular → ∀ x : Double,
      (x.isFinite →
        kind.HoldsResidue (.number x) (Binary.towardZero x.value) (kind.reducedBits x)) ∧
      (¬x.isFinite → kind.encode (.number x) = .ok 0 ∧ kind.reducedBits x = 0 ∧
        (kind.decode 0).IsInteger 0)) ∧
    (∀ x : Double, ClampsTo x x.clampedByte) ∧
    ∀ kind : LaneKind, kind.isBigInt → ∀ v : ℤ,
      kind.HoldsResidue (.bigInt v) v (kind.wrapped v) ∧
        ∀ bytes, twosComplement bytes = v → lowBits v bytes = kind.wrapped v := by
  refine ⟨fun kind hkind x => ⟨fun hx => ?_, fun hx => ?_⟩, fun x => ?_, fun kind hkind v => ?_⟩
  · have hencode := encode_number hkind x
    rw [reducedBits_eq hkind] at hencode ⊢
    rw [Double.towardZero_value (Double.not_isNaN_of_isFinite hx)]
    exact holdsResidue_wrapped (.inl hkind) hencode
  · have hencode := encode_number hkind x
    have hzero := reducedBits_of_not_isFinite kind hx
    rw [hzero] at hencode
    exact ⟨hencode, hzero, isInteger_decode_zero hkind⟩
  · rw [Double.clampedByte_eq]
    exact clampsTo_toClampedByte x
  · refine ⟨holdsResidue_wrapped (.inr hkind) ?_, ?_⟩
    · rw [encode, if_pos hkind]
      rfl
    · rintro bytes rfl
      exact lowBits_eq hkind bytes

/-- A number far below the range of its lane, a byte between two others, and a negative big integer
in one byte. -/
theorem holdsResidue_clampsTo_of_three :
    int8.HoldsResidue (.number ⟨0xC072C80000000000⟩) (-300) 212 ∧
      ClampsTo ⟨0x405FA00000000000⟩ 126 ∧ lowBits (-1) [0xff] = 2 ^ 64 - 1 := by
  have h := holdsResidue_clampsTo
  have hfinite : Double.isFinite ⟨0xC072C80000000000⟩ = true := by decide
  have hresidue := (h.1 int8 rfl ⟨0xC072C80000000000⟩).1 hfinite
  have hclamps := h.2.1 ⟨0x405FA00000000000⟩
  have hbytes := (h.2.2 bigUint64 rfl (-1)).2 [0xff] (by decide)
  rw [Double.towardZero_value (by decide)] at hresidue
  have hint : Double.toInt ⟨0xC072C80000000000⟩ = -300 := by decide +kernel
  have hbits : int8.reducedBits ⟨0xC072C80000000000⟩ = 212 := by decide +kernel
  have hbyte : Double.clampedByte ⟨0x405FA00000000000⟩ = 126 := by decide +kernel
  rw [hint, hbits] at hresidue
  rw [hbyte] at hclamps
  exact ⟨hresidue, hclamps, hbytes.trans (by decide)⟩

end LaneKind

end ArrayEngine
