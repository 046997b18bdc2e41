/-!
# Kinds of typed lanes

The twelve element types of typed views: integers of one, two and four bytes, floating-point
numbers of two, four and eight, and integers of eight bytes that are read as big integers.
-/

namespace ArrayEngine

/-- Element type of a typed view. -/
inductive LaneKind where
  | int8
  | uint8
  | uint8Clamped
  | int16
  | uint16
  | int32
  | uint32
  | float16
  | float32
  | float64
  | bigInt64
  | bigUint64
deriving DecidableEq, Repr, Inhabited

namespace LaneKind

/-- Every kind, in the order in which names are looked up. -/
def all : List LaneKind :=
  [int8, uint8, uint8Clamped, int16, uint16, int32, uint32, float16, float32, float64,
    bigInt64, bigUint64]

/-- Bytes of one lane. -/
def size : LaneKind → Nat
  | int8 | uint8 | uint8Clamped => 1
  | int16 | uint16 | float16 => 2
  | int32 | uint32 | float32 => 4
  | float64 | bigInt64 | bigUint64 => 8

/-- Name of the lane itself. -/
def laneName : LaneKind → String
  | int8 => "Int8"
  | uint8 => "Uint8"
  | uint8Clamped => "Uint8Clamped"
  | int16 => "Int16"
  | uint16 => "Uint16"
  | int32 => "Int32"
  | uint32 => "Uint32"
  | float16 => "Float16"
  | float32 => "Float32"
  | float64 => "Float64"
  | bigInt64 => "BigInt64"
  | bigUint64 => "BigUint64"

/-- Name of an array of such lanes. -/
def arrayName (kind : LaneKind) : String := kind.laneName ++ "Array"

/-- Whether the lane holds a big integer. -/
def isBigInt : LaneKind → Bool
  | bigInt64 | bigUint64 => true
  | _ => false

/-- Kind with the given lane or array name, upper and lower case being the same. -/
def ofName? (name : String) : Option LaneKind :=
  all.find? fun kind =>
    kind.arrayName.map Char.toLower == name.map Char.toLower
      || kind.laneName.map Char.toLower == name.map Char.toLower

theorem size_pos (kind : LaneKind) : 0 < kind.size := by cases kind <;> decide

end LaneKind

end ArrayEngine
