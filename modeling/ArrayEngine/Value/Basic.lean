import ArrayEngine.Binary.Double

/-!
# Values

The values that arrays hold, and the ways in which two of them can be equal. A string is a list of
UTF-16 code units, a number its exact bit pattern, and an object the handle under which its owner
knows it.

Equality of Lean terms is finer than any of the three notions here, which identify all NaNs.
-/

namespace ArrayEngine

open Binary (Double)

/-- A value of the scripting language. -/
inductive Value where
  | undefined
  | null
  | boolean (b : Bool)
  | number (x : Double)
  | string (units : List UInt16)
  | bigInt (n : Int)
  | object (handle : Nat)
deriving DecidableEq, Repr, Inhabited

namespace Value

/-- Whether the value is `undefined`. -/
def isUndefined : Value → Bool
  | undefined => true
  | _ => false

/-- Whether the value is a number. -/
def isNumber : Value → Bool
  | number _ => true
  | _ => false

/-- Whether the value is a big integer. -/
def isBigInt : Value → Bool
  | bigInt _ => true
  | _ => false

/-- The number, if the value is one. -/
def number? : Value → Option Double
  | number x => some x
  | _ => none

/-- Equality of numbers by `eq`, and of all other values as they are. -/
def equalBy (eq : Double → Double → Bool) : Value → Value → Bool
  | number x, number y => eq x y
  | v, w => v == w

/-- Equality as stored values: all NaNs are one value, and the two zeros differ. -/
def sameValue : Value → Value → Bool := equalBy Double.sameValue

/-- Equality as stored values, up to the sign of a zero. -/
def sameValueZero : Value → Value → Bool := equalBy Double.sameValueZero

/-- Strict equality: numbers compare as numbers. -/
def strictEq : Value → Value → Bool := equalBy Double.numericEq

end Value

end ArrayEngine
