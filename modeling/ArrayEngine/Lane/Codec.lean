import ArrayEngine.Error
import ArrayEngine.Value.Coercion

/-!
# Values of a lane

A lane of a kind holds a bit pattern of the kind's width. Encoding converts a value to such a
pattern: integer lanes wrap, the clamped byte clamps and rounds, floating-point lanes round to the
nearest number, and the two lanes of big integers take nothing but big integers and what converts
to them, while all others refuse them. Decoding never fails.
-/

namespace ArrayEngine.LaneKind

open Binary (Double binary16 binary32 binary64)

/-- Number of bits of a lane. -/
def width (kind : LaneKind) : Nat := 8 * kind.size

/-- Pattern of an integer, reduced to the lane's width. -/
def wrapped (kind : LaneKind) (n : Int) : Nat := (n % Nat.pow 2 kind.width).toNat

/-- Pattern of a number in half precision. All NaNs become one. -/
def halfBits (x : Double) : Nat :=
  if x.isNaN then binary16.defaultNaN else binary64.convert binary16 x.bits.toNat

/-- Number with the given pattern of another format. -/
def widened (format : Binary.Format) (bits : Nat) : Double :=
  ⟨UInt64.ofNat (format.convert binary64 bits)⟩

/-- Pattern of a number in a lane that holds numbers. -/
def encodeNumber (kind : LaneKind) (x : Double) : Nat :=
  match kind with
  | uint8Clamped => x.toClampedByte
  | float16 => halfBits x
  | float32 => binary64.convert binary32 x.bits.toNat
  | float64 => x.bits.toNat
  | int8 | uint8 | int16 | uint16 | int32 | uint32 | bigInt64 | bigUint64 =>
    kind.wrapped x.toInt

/-- Pattern of a value in a lane. -/
def encode (kind : LaneKind) (value : Value) : Except EngineError Nat :=
  if kind.isBigInt then value.toBigInt.map kind.wrapped
  else if value.isBigInt then .error .bigIntAsNumber
  else .ok (kind.encodeNumber value.toNumber)

/-- Pattern read as a signed integer of the lane's width. -/
def signed (kind : LaneKind) (bits : Nat) : Int := Int.bmod bits (Nat.pow 2 kind.width)

/-- Value of a pattern in a lane. -/
def decode (kind : LaneKind) (bits : Nat) : Value :=
  match kind with
  | int8 | int16 | int32 => .number (Double.ofInt (kind.signed bits))
  | uint8 | uint8Clamped | uint16 | uint32 => .number (Double.ofNat bits)
  | float16 => .number (widened binary16 bits)
  | float32 => .number (widened binary32 bits)
  | float64 => .number ⟨UInt64.ofNat bits⟩
  | bigInt64 => .bigInt (kind.signed bits)
  | bigUint64 => .bigInt bits

end ArrayEngine.LaneKind
