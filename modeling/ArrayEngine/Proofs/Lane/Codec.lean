import ArrayEngine.Lane.Codec
import ArrayEngine.Proofs.Binary.Convert
import ArrayEngine.Proofs.Bounds

/-!
# Lanes keep what they hold

A value that has been read from a lane is written to a lane of the same kind as the pattern that it
was read from. Only the NaNs of the narrow floating-point lanes are an exception, which may come
back as another NaN: as a stored value that is the same one.

Between numbers, and between big integers, what one kind of lane holds can be written to any other.
From one sort to the other nothing can.

## Main definitions

* `Value.isNaN`

## Main results

* `LaneKind.encode_lt`: an encoded value fits in its lane
* `LaneKind.encode_decode`, `LaneKind.exists_encode_decode`: reading and writing back
* `LaneKind.exists_encode`: which conversions of read values succeed
-/

namespace ArrayEngine

open Binary (Double Format binary16 binary32 binary64)

/-! ### NaNs as values -/

namespace Value

/-- Whether the value is a number that stands for none. -/
def isNaN : Value → Bool
  | number x => x.isNaN
  | _ => false

@[simp] theorem sameValue_self (v : Value) : v.sameValue v := by
  cases v <;> simp [sameValue, equalBy, Double.sameValue]

theorem sameValue_of_isNaN {v w : Value} (hv : v.isNaN) (hw : w.isNaN) : v.sameValue w := by
  cases v with
  | number x =>
    cases w with
    | number y =>
      have hx : x.isNaN = true := hv
      have hy : y.isNaN = true := hw
      simp [sameValue, equalBy, Double.sameValue, hx, hy]
    | _ => cases hw
  | _ => cases hv

end Value

namespace LaneKind

variable {kind : LaneKind} {bits : Nat}

theorem two_pow_width (kind : LaneKind) : Nat.pow 2 kind.width = 256 ^ kind.size := by
  rw [width, Nat.pow_eq, pow_mul]
  norm_num

/-! ### Encoded values fit -/

theorem wrapped_lt (kind : LaneKind) (n : Int) : kind.wrapped n < 256 ^ kind.size := by
  have hpos : 0 < Nat.pow 2 kind.width := Nat.two_pow_pos _
  have hlt : n % Nat.pow 2 kind.width < Nat.pow 2 kind.width := Int.emod_lt_of_pos n (by omega)
  rw [wrapped, ← two_pow_width]
  omega

theorem halfBits_lt (x : Double) : halfBits x < 2 * binary16.signBit := by
  rw [halfBits]
  split
  · decide
  · exact Format.convert_lt (by decide) _

theorem encodeNumber_lt (kind : LaneKind) (x : Double) :
    kind.encodeNumber x < 256 ^ kind.size := by
  cases kind with
  | uint8Clamped =>
    rw [encodeNumber, Double.toClampedByte]
    split
    · exact Nat.two_pow_pos 8
    · exact Nat.lt_of_le_of_lt (Nat.min_le_left ..) (by decide)
  | float16 => exact halfBits_lt x
  | float32 => exact Format.convert_lt (show 0 < binary32.fractionBits by decide) _
  | float64 => exact x.bits.toNat_lt
  | _ => exact wrapped_lt _ _

/-- An encoded value fits in its lane. -/
theorem encode_lt {v : Value} (h : kind.encode v = .ok bits) : bits < 256 ^ kind.size := by
  rw [encode] at h
  split_ifs at h
  · cases hv : v.toBigInt with
    | error e =>
      rw [hv] at h
      cases h
    | ok n =>
      rw [hv] at h
      cases h
      exact wrapped_lt kind n
  · cases h
    exact encodeNumber_lt kind _

/-! ### Integers -/

theorem wrapped_natCast (h : bits < 256 ^ kind.size) : kind.wrapped bits = bits := by
  rw [← two_pow_width] at h
  rw [wrapped, ← Int.natCast_emod, Int.toNat_natCast, Nat.mod_eq_of_lt h]

/-- The signed reading of a pattern is reduced to the pattern. -/
theorem wrapped_signed (h : bits < 256 ^ kind.size) : kind.wrapped (kind.signed bits) = bits := by
  rw [wrapped, signed, Int.bmod_emod]
  exact wrapped_natCast h

theorem natAbs_signed_lt (hsize : kind.size ≤ 4) : (kind.signed bits).natAbs < 2 ^ 53 := by
  have hpos : 0 < Nat.pow 2 kind.width := Nat.two_pow_pos _
  have hpow : Nat.pow 2 kind.width ≤ 2 ^ 32 :=
    Nat.pow_le_pow_right Nat.two_pos (show 8 * kind.size ≤ 32 by omega)
  have hle := Int.le_bmod (x := bits) hpos
  have hlt := Int.bmod_lt (x := bits) hpos
  rw [signed]
  omega

/-- A number that was read as a signed integer is written as the pattern it was read from. -/
theorem wrapped_toInt_ofInt_signed (hsize : kind.size ≤ 4) (h : bits < 256 ^ kind.size) :
    kind.wrapped (Double.ofInt (kind.signed bits)).toInt = bits := by
  rw [Double.toInt_ofInt (natAbs_signed_lt hsize), wrapped_signed h]

theorem lt_two_pow_of_size_le (hsize : kind.size ≤ 4) (h : bits < 256 ^ kind.size) :
    bits < 2 ^ 53 := by
  have hpow : 256 ^ kind.size ≤ 256 ^ 4 := Nat.pow_le_pow_right (by decide) hsize
  omega

theorem wrapped_toInt_ofNat (hsize : kind.size ≤ 4) (h : bits < 256 ^ kind.size) :
    kind.wrapped (Double.ofNat bits).toInt = bits := by
  rw [toInt_ofNat (lt_two_pow_of_size_le hsize h).le, wrapped_natCast h]

theorem ofNat_eq_ofInt (n : Nat) : Double.ofNat n = Double.ofInt n := by
  have hsign : decide ((n : Int) < 0) = false := decide_eq_false (by omega)
  rw [Double.ofNat, Double.ofInt, hsign, Int.natAbs_natCast]

theorem toClampedByte_ofNat (h : bits < 256) : (Double.ofNat bits).toClampedByte = bits := by
  have habs : (bits : Int).natAbs < 2 ^ 53 := by omega
  have hsign : decide ((bits : Int) < 0) = false := decide_eq_false (by omega)
  rw [ofNat_eq_ofInt, Double.toClampedByte, Double.not_isNaN_ofInt habs,
    Double.isNegative_ofInt habs, hsign, Double.units_ofInt habs, Int.natAbs_natCast,
    Binary.roundHalfEven_mul _ Double.one_pos]
  exact Nat.min_eq_right (by omega)

/-! ### Floating-point numbers -/

theorem toNat_widened (format : Format) (bits : Nat) :
    (widened format bits).bits.toNat = format.convert binary64 bits := by
  have hlt : format.convert binary64 bits < 2 * binary64.signBit :=
    Format.convert_lt (by decide) bits
  rw [widened, UInt64.toNat_ofNat']
  exact Nat.mod_eq_of_lt hlt

/-- A pattern is read as a NaN exactly if it is one. -/
theorem isNaN_widened (format : Format) (bits : Nat) :
    (widened format bits).isNaN = decide (format.infinity < format.magnitude bits) := by
  rw [Double.isNaN, Double.magnitude, toNat_widened]
  exact decide_eq_decide.mpr (Format.infinity_lt_magnitude_convert (by decide) bits)

/-- Narrowing undoes widening. -/
theorem convert_widened {format : Format} (h : format.Embeds binary64)
    (hbits : bits < 2 * format.signBit) (hnan : (widened format bits).isNaN = false) :
    binary64.convert format (widened format bits).bits.toNat = bits := by
  rw [isNaN_widened, decide_eq_false_iff_not, Nat.not_lt] at hnan
  rw [toNat_widened, Format.convert_convert h hbits hnan]

/-- A NaN is narrowed to a pattern that is read as a NaN. -/
theorem isNaN_widened_convert {format : Format} (hformat : 0 < format.fractionBits) {x : Double}
    (hx : x.isNaN) : (widened format (binary64.convert format x.bits.toNat)).isNaN := by
  rw [isNaN_widened, decide_eq_true_iff, Format.infinity_lt_magnitude_convert hformat]
  exact of_decide_eq_true hx

/-! ### Reading and writing back -/

/-- A value that was read from a lane is written as the pattern that it was read from. -/
theorem encode_decode (h : bits < 256 ^ kind.size) (hnan : (kind.decode bits).isNaN = false) :
    kind.encode (kind.decode bits) = .ok bits := by
  have hnumber {x : Double} (hkind : kind.isBigInt = false) (heq : kind.encodeNumber x = bits) :
      kind.encode (.number x) = .ok bits := by
    rw [encode, hkind, ← heq]
    rfl
  have hbigInt {n : Int} (hkind : kind.isBigInt = true) (heq : kind.wrapped n = bits) :
      kind.encode (.bigInt n) = .ok bits := by
    rw [encode, hkind, ← heq]
    rfl
  cases kind with
  | int8 | int16 | int32 => exact hnumber rfl (wrapped_toInt_ofInt_signed (by decide) h)
  | uint8 | uint16 | uint32 => exact hnumber rfl (wrapped_toInt_ofNat (by decide) h)
  | uint8Clamped => exact hnumber rfl (toClampedByte_ofNat h)
  | float16 =>
    refine hnumber rfl ?_
    have hnan : (widened binary16 bits).isNaN = false := hnan
    rw [encodeNumber, halfBits, hnan]
    exact convert_widened Format.embeds_binary16 h hnan
  | float32 => exact hnumber rfl (convert_widened Format.embeds_binary32 h hnan)
  | float64 => exact hnumber rfl (UInt64.toNat_ofNat_of_lt' h)
  | bigInt64 => exact hbigInt rfl (wrapped_signed h)
  | bigUint64 => exact hbigInt rfl (wrapped_natCast h)

/-- Only floating-point lanes are read as NaNs. -/
theorem float_of_isNaN (h : bits < 256 ^ kind.size) (hnan : (kind.decode bits).isNaN) :
    kind = .float16 ∨ kind = .float32 ∨ kind = .float64 := by
  have hinteger {n : Int} (hn : n.natAbs < 2 ^ 53) : ¬(Value.number (Double.ofInt n)).isNaN := by
    rw [Value.isNaN, Double.not_isNaN_ofInt hn]
    exact Bool.false_ne_true
  have hnatural (hsize : kind.size ≤ 4) : ¬(Value.number (Double.ofNat bits)).isNaN := by
    rw [ofNat_eq_ofInt]
    exact hinteger (lt_two_pow_of_size_le hsize h)
  cases kind with
  | int8 | int16 | int32 => exact absurd hnan (hinteger (natAbs_signed_lt (by decide)))
  | uint8 | uint8Clamped | uint16 | uint32 => exact absurd hnan (hnatural (by decide))
  | float16 => exact Or.inl rfl
  | float32 => exact Or.inr (Or.inl rfl)
  | float64 => exact Or.inr (Or.inr rfl)
  | bigInt64 | bigUint64 => cases hnan

/-- A NaN that is written to a floating-point lane is read as a NaN. -/
theorem isNaN_decode_encodeNumber (hkind : kind = .float16 ∨ kind = .float32 ∨ kind = .float64)
    {x : Double} (hx : x.isNaN) : (kind.decode (kind.encodeNumber x)).isNaN := by
  rcases hkind with rfl | rfl | rfl
  · rw [encodeNumber, halfBits, if_pos hx, decode, Value.isNaN, isNaN_widened]
    decide
  · exact isNaN_widened_convert (by decide) hx
  · rw [encodeNumber, decode, UInt64.ofNat_toNat]
    exact hx

theorem exists_decode_number (hkind : kind.isBigInt = false) (bits : Nat) :
    ∃ x, kind.decode bits = .number x := by
  cases kind <;> first | exact ⟨_, rfl⟩ | cases hkind

theorem exists_decode_bigInt (hkind : kind.isBigInt = true) (bits : Nat) :
    ∃ n, kind.decode bits = .bigInt n := by
  cases kind <;> first | exact ⟨_, rfl⟩ | cases hkind

/-- What was read from a lane is written back as the same value. -/
theorem exists_encode_decode (h : bits < 256 ^ kind.size) :
    ∃ bits', kind.encode (kind.decode bits) = .ok bits' ∧
      (kind.decode bits).sameValue (kind.decode bits') := by
  cases hnan : (kind.decode bits).isNaN with
  | false => exact ⟨bits, encode_decode h hnan, Value.sameValue_self _⟩
  | true =>
    have hfloat := float_of_isNaN h hnan
    have hkind : kind.isBigInt = false := by rcases hfloat with rfl | rfl | rfl <;> rfl
    obtain ⟨x, hx⟩ := exists_decode_number hkind bits
    have hwritten : kind.encode (.number x) = .ok (kind.encodeNumber x) := by
      rw [encode, hkind]
      rfl
    rw [hx] at hnan ⊢
    exact ⟨_, hwritten, Value.sameValue_of_isNaN hnan (isNaN_decode_encodeNumber hfloat hnan)⟩

/-- Between numbers and between big integers, everything that is read can be written. -/
theorem exists_encode {target : LaneKind} (hsort : kind.isBigInt = target.isBigInt) (bits : Nat) :
    ∃ bits', target.encode (kind.decode bits) = .ok bits' := by
  cases hbig : target.isBigInt with
  | true =>
    obtain ⟨n, hn⟩ := exists_decode_bigInt (hsort.trans hbig) bits
    rw [hn, encode, hbig]
    exact ⟨_, rfl⟩
  | false =>
    obtain ⟨x, hx⟩ := exists_decode_number (hsort.trans hbig) bits
    rw [hx, encode, hbig]
    exact ⟨_, rfl⟩

end LaneKind

end ArrayEngine
