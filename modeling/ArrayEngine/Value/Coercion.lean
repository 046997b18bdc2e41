import ArrayEngine.Decimal.Numeral
import ArrayEngine.Error
import ArrayEngine.Text.Blank
import ArrayEngine.Value.Text

/-!
# Conversion of values

`Value.toNumber` converts any value, with NaN where there is no number; `Value.toBigInt` fails
instead. The conversions of a number to an integer of a fixed width are exact: the number is
truncated toward zero and reduced modulo the power of two.

## Numbers written as strings

Blanks around the text do not matter and an empty text is zero. A text with a radix prefix is an
unsigned number of at most 64 bits; any other text is a decimal numeral or a signed `Infinity`.
-/

namespace ArrayEngine

open Binary (Double)

namespace Value

/-- Number written as a text without blanks at its ends. -/
def numeral? (text : List Char) : Option Double :=
  match Decimal.radixPrefix? text with
  | some (radix, digits) => (Decimal.unsigned? radix 64 digits).map Double.ofNat
  | none =>
    if text = "Infinity".toList ∨ text = "+Infinity".toList then some Double.infinity
    else if text = "-Infinity".toList then some Double.negInfinity
    else Decimal.decimal? text

/-- Number written as a text. -/
def numberOfText (text : List Char) : Double :=
  match Text.trim text with
  | [] => Double.zero
  | trimmed => (numeral? trimmed).getD Double.nan

/-- Number of a value, NaN where it has none. -/
def toNumber : Value → Double
  | undefined | bigInt _ | object _ => Double.nan
  | null => Double.zero
  | boolean b => Double.ofNat b.toNat
  | number x => x
  | string units => numberOfText (Text.decodeUtf16 units)

/-- Big integer of a value. Only big integers, booleans and whole numbers written as strings have
one. -/
def toBigInt : Value → Except EngineError Int
  | bigInt n => .ok n
  | boolean b => .ok b.toNat
  | string units =>
    match Text.trim (Text.decodeUtf16 units) with
    | [] => .ok 0
    | trimmed =>
      match Decimal.integer? trimmed with
      | some n => .ok n
      | none => .error (.malformedBigInt (String.ofList trimmed))
  | v => .error (.notBigInt v.text)

end Value

namespace Binary.Double

/-! ### Integers of a fixed width -/

/-- `x` truncated and reduced to `bits` bits, in `[0, 2 ^ bits)`. -/
def toUnsigned (bits : Nat) (x : Double) : Nat := (x.toInt % Nat.pow 2 bits).toNat

/-- `x` truncated and reduced to `bits` bits, in `[-2 ^ (bits - 1), 2 ^ (bits - 1))`. -/
def toSigned (bits : Nat) (x : Double) : Int := x.toInt.bmod (Nat.pow 2 bits)

/-- `x` clamped to a byte and rounded to the nearest integer, a half to the even one. -/
def toClampedByte (x : Double) : Nat :=
  if x.isNaN || x.isNegative then 0 else min 255 (Binary.roundHalfEven x.units one)

/-- The 32-bit integer that `x` is, if it is one and not the negative zero. -/
def exactInt32? (x : Double) : Option Int :=
  if x.isIntegral && !x.isNegativeZero && -0x80000000 ≤ x.toInt && x.toInt < 0x80000000 then
    some x.toInt
  else none

/-- `x` truncated toward zero, with no NaN and no negative zero for a zero or a NaN. -/
def toIntegerOrInfinity (x : Double) : Double :=
  if x.isNaN || x.isZero then zero else x.truncate

end Binary.Double

end ArrayEngine
