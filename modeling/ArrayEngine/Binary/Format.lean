/-!
# Binary floating-point formats

An interchange format is given by the widths of its two fields. A bit pattern splits into a sign
and a *magnitude* (the exponent and fraction fields read as one number), and every finite
magnitude stands for a whole number of *units*, the unit being the least positive number of the
format. All arithmetic is therefore exact arithmetic on natural numbers.

## The order of magnitudes

The magnitude orders patterns as the numbers they stand for, infinity included, so a comparison of
two numbers is a comparison of two magnitudes. The formula for `units` goes on through the
magnitude of infinity, where it yields the power of two that the exponent range stops short of.

## Main definitions

* `Format`, and the formats `binary16`, `binary32` and `binary64`
* `Format.units`: the number of units a magnitude stands for
* `Format.nearest`: the magnitude nearest to a quotient, ties to the even magnitude
* `Format.convert`: a pattern of one format as the nearest pattern of another
-/

namespace ArrayEngine.Binary

/-- Quotient rounded to the nearest natural number; a half goes to the even neighbour. -/
def roundHalfEven (num den : Nat) : Nat :=
  let quotient := num / den
  let twice := 2 * (num % den)
  if twice < den then quotient
  else if den < twice then quotient + 1
  else quotient + quotient % 2

/-- An interchange format: one sign bit, `exponentBits` and `fractionBits`. -/
structure Format where
  exponentBits : Nat
  fractionBits : Nat
deriving DecidableEq, Repr

/-- Half precision. -/
def binary16 : Format := ⟨5, 10⟩

/-- Single precision. -/
def binary32 : Format := ⟨8, 23⟩

/-- Double precision. -/
def binary64 : Format := ⟨11, 52⟩

namespace Format

variable (f : Format)

/-- Weight of the sign bit. -/
def signBit : Nat := Nat.pow 2 (f.exponentBits + f.fractionBits)

/-- Number of values of the fraction field, which is also the weight of the implicit bit. -/
def implicitBit : Nat := Nat.pow 2 f.fractionBits

/-- Magnitude of the infinities: exponent field full, fraction field zero. -/
def infinity : Nat := (Nat.pow 2 f.exponentBits - 1) * f.implicitBit

/-- Highest bit of the fraction field, which marks a quiet NaN. -/
def quietBit : Nat := Nat.pow 2 (f.fractionBits - 1)

/-- The positive quiet NaN with an empty payload. -/
def defaultNaN : Nat := f.infinity + f.quietBit

/-- Binary logarithm of the number of units in one: the least positive number is `2 ^ -scale`. -/
def scale : Nat := Nat.pow 2 (f.exponentBits - 1) - 2 + f.fractionBits

/-- Number of units in one. -/
def one : Nat := Nat.pow 2 f.scale

/-- Whether the sign bit of a pattern is set. -/
def isNegative (bits : Nat) : Bool := f.signBit ≤ bits

/-- Exponent and fraction fields of a pattern. -/
def magnitude (bits : Nat) : Nat := bits % f.signBit

/-- Pattern of a sign and a magnitude. -/
def pattern (negative : Bool) (magnitude : Nat) : Nat :=
  (if negative then f.signBit else 0) + magnitude

/-- Number of units that a magnitude stands for. A zero exponent field has no implicit bit. -/
def units (magnitude : Nat) : Nat :=
  let exponent := magnitude / f.implicitBit
  let fraction := magnitude % f.implicitBit
  if exponent = 0 then fraction else (f.implicitBit + fraction) * Nat.pow 2 (exponent - 1)

/-- Magnitude nearest to `num / den` units, of two equally near the even one, and infinity from
half a step above the greatest finite number.

With `shift` places to drop, the significand `m` has at most `fractionBits + 1` bits, or is the
power of two just above them; `shift * implicitBit + m` then is the right magnitude in every case:
below the implicit bit, in range, and with a carry into the exponent field. -/
def nearest (num den : Nat) : Nat :=
  let shift := (num / den).log2 - f.fractionBits
  min (shift * f.implicitBit + roundHalfEven num (den * Nat.pow 2 shift)) f.infinity

/-- Magnitude nearest to the number `num / den`. -/
def ofQuotient (num den : Nat) : Nat := f.nearest (num * f.one) den

/-- Fraction field of a NaN carried over to another format: the leading bits are kept, and the
result is quiet. -/
def quietPayload (target : Format) (magnitude : Nat) : Nat :=
  let fraction := magnitude % f.implicitBit
  let aligned := fraction * target.implicitBit / f.implicitBit
  target.quietBit + aligned % target.quietBit

/-- Nearest pattern of format `target` to a pattern of format `f`. Signs are kept, zeros and
infinities go to themselves, and a NaN stays one. -/
def convert (target : Format) (bits : Nat) : Nat :=
  let magnitude := f.magnitude bits
  target.pattern (f.isNegative bits) <|
    if magnitude < f.infinity then target.ofQuotient (f.units magnitude) f.one
    else if magnitude = f.infinity then target.infinity
    else target.infinity + f.quietPayload target magnitude

end Format

end ArrayEngine.Binary
