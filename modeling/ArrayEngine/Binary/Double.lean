import ArrayEngine.Binary.Format

/-!
# Double-precision numbers

A number is kept as its bit pattern, so that what is stored is what is read back: the sign of a
zero and the payload of a NaN included. Every operation decodes the pattern, computes on natural
numbers or integers without rounding, and rounds once at the end if its result is a number again.

## Infinities in integer arithmetic

`toInt` truncates toward zero. It sends a NaN to `0` and an infinity to `2 ^ 1024` with its sign,
which lies beyond every length and index, and which is `0` modulo every power of two up to there.

## Main definitions

* `Double`, its parts and its classes
* `Double.toInt`, `Double.truncate`: truncation, as an integer and as a number
* `Double.ofNat`, `Double.ofInt`: the number nearest to an integer
* `Double.compare?`: the numeric order, in which a NaN has no place
* `Double.sameValue`, `Double.numericEq`: the two notions of equality
-/

namespace ArrayEngine.Binary

/-- A double-precision number, given by its bits. -/
structure Double where
  bits : UInt64
deriving DecidableEq, Inhabited, Repr

namespace Double

/-- Number with the given sign and magnitude. -/
def ofMagnitude (negative : Bool) (magnitude : Nat) : Double :=
  ⟨UInt64.ofNat (binary64.pattern negative magnitude)⟩

/-- Number of the given sign nearest to `num / den`. -/
def ofQuotient (negative : Bool) (num den : Nat) : Double :=
  ofMagnitude negative (binary64.ofQuotient num den)

/-- The NaN that computations yield. -/
def nan : Double := ofMagnitude false binary64.defaultNaN

/-- The positive infinity. -/
def infinity : Double := ofMagnitude false binary64.infinity

/-- The negative infinity. -/
def negInfinity : Double := ofMagnitude true binary64.infinity

/-- The positive zero. -/
def zero : Double := ofMagnitude false 0

/-- Whether the sign bit is set. -/
def isNegative (x : Double) : Bool := binary64.isNegative x.bits.toNat

/-- Exponent and fraction fields. -/
def magnitude (x : Double) : Nat := binary64.magnitude x.bits.toNat

/-- Whether `x` stands for no number. -/
def isNaN (x : Double) : Bool := binary64.infinity < x.magnitude

/-- Either infinity. -/
def isInfinite (x : Double) : Bool := x.magnitude = binary64.infinity

/-- Whether `x` is a real number. -/
def isFinite (x : Double) : Bool := x.magnitude < binary64.infinity

/-- Either zero. -/
def isZero (x : Double) : Bool := x.magnitude = 0

/-- The zero whose sign bit is set. -/
def isNegativeZero (x : Double) : Bool := x.isZero && x.isNegative

/-- Absolute value in units of the least positive number. -/
def units (x : Double) : Nat := binary64.units x.magnitude

/-- Number of units in one. -/
def one : Nat := binary64.one

/-- Whether `x` is finite and has no fractional part. -/
def isIntegral (x : Double) : Bool := x.isFinite && x.units % one == 0

/-! ### Integers -/

/-- `n` with the sign of `x`. -/
def withSign (x : Double) (n : Nat) : Int := if x.isNegative then -n else n

/-- `x` truncated toward zero. -/
def toInt (x : Double) : Int := if x.isNaN then 0 else x.withSign (x.units / one)

/-- Number nearest to a natural number. -/
def ofNat (n : Nat) : Double := ofQuotient false n 1

/-- Number nearest to an integer. -/
def ofInt (n : Int) : Double := ofQuotient (n < 0) n.natAbs 1

/-- `x` truncated toward zero, with its sign. NaNs and infinities stay. -/
def truncate (x : Double) : Double :=
  if x.isFinite then ofQuotient x.isNegative (x.units / one) 1 else x

/-! ### Order and equality -/

/-- Position of a number that is no NaN in the numeric order; the two zeros share theirs. -/
def rank (x : Double) : Int := x.withSign x.magnitude

/-- Numeric order, in which a NaN compares with nothing. -/
def compare? (x y : Double) : Option Ordering :=
  if x.isNaN || y.isNaN then none else some (compare x.rank y.rank)

/-- Numeric equality: the two zeros are equal, and a NaN equals nothing. -/
def numericEq (x y : Double) : Bool := x.compare? y == some .eq

/-- Identity as a stored value: all NaNs are one value, and the two zeros differ. -/
def sameValue (x y : Double) : Bool := x.isNaN && y.isNaN || x == y

/-- Identity up to the sign of a zero. -/
def sameValueZero (x y : Double) : Bool := x.isNaN && y.isNaN || x.numericEq y

end Double

end ArrayEngine.Binary
