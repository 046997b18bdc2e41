import ArrayEngine.Lane.Kind

/-!
# What can fail

Each failure is a cause with the data its message names. The message is written in one place, and
so is the category under which the failure is reported.

Two outcomes are kept apart from failures: a shortened length that stopped early (`Truncation`),
which becomes a failure only when it is reported, and a fast path that does not apply, which is
`none` and is never reported.
-/

namespace ArrayEngine

/-- A change of length that stopped above `requested`, because index `retained - 1` is pinned. -/
structure Truncation where
  requested : Nat
  retained : Nat
deriving DecidableEq, Repr

/-- What is reported of a truncation that stopped. -/
def Truncation.message (t : Truncation) : String :=
  s!"cannot delete index {t.retained - 1} while truncating to {t.requested}"

/-- Category under which a failure is reported. -/
inductive ErrorCategory where
  | range
  | type
  | grammar
deriving DecidableEq, Repr

/-- Name of a category. -/
def ErrorCategory.name : ErrorCategory → String
  | range => "RangeError"
  | type => "TypeError"
  | grammar => "SyntaxError"

/-- Cause of a failure. -/
inductive EngineError where
  /-- A length that is not a whole number up to the greatest length. -/
  | invalidLength
  /-- The index that no element can have. -/
  | invalidIndex
  /-- An element that may not be removed. -/
  | pinned (index : Nat)
  /-- A change of length that stopped early. -/
  | stopped (truncation : Truncation)
  /-- A text that is no whole number. -/
  | malformedBigInt (text : String)
  /-- A value that has no big integer. -/
  | notBigInt (text : String)
  /-- A big integer where a number is expected. -/
  | bigIntAsNumber
  /-- A view that does not start at a multiple of its lane size. -/
  | misalignedView (kind : LaneKind)
  /-- A view without a length whose rest of the buffer is not a whole number of lanes. -/
  | partialLane (kind : LaneKind)
  /-- A view longer than its buffer. -/
  | viewTooLong (length : Nat)
  /-- A view that starts behind the end of its buffer. -/
  | startOutside (offset : Nat)
  /-- A data view longer than its buffer. -/
  | dataViewTooLong (length : Nat)
  /-- An access outside a data view. -/
  | outsideDataView
  /-- A copy that ends behind its target. -/
  | targetExceeded
  /-- A copy that reads behind its source. -/
  | sourceExceeded
  /-- A copy between numbers and big integers. -/
  | mixedLanes
deriving DecidableEq, Repr

namespace EngineError

/-- Category of a cause. -/
def category : EngineError → ErrorCategory
  | pinned _ | stopped _ | notBigInt _ | bigIntAsNumber | mixedLanes => .type
  | malformedBigInt _ => .grammar
  | invalidLength | invalidIndex | misalignedView _ | partialLane _ | viewTooLong _
  | startOutside _ | dataViewTooLong _ | outsideDataView | targetExceeded | sourceExceeded =>
    .range

/-- What is reported of a cause, without its category. -/
def detail : EngineError → String
  | invalidLength => "Invalid array length"
  | invalidIndex => "Invalid array index"
  | pinned index => s!"Cannot delete property '{index}' of [object Array]"
  | stopped truncation => truncation.message
  | malformedBigInt text => s!"Cannot convert {text} to a BigInt"
  | notBigInt text => s!"Cannot convert {text} to a BigInt"
  | bigIntAsNumber => "Cannot convert a BigInt value to a number"
  | misalignedView kind => s!"start offset of {kind.arrayName} should be a multiple of {kind.size}"
  | partialLane kind => s!"byte length of {kind.arrayName} should be a multiple of {kind.size}"
  | viewTooLong length => s!"Invalid typed array length: {length}"
  | startOutside offset => s!"Start offset {offset} is outside the bounds of the buffer"
  | dataViewTooLong length => s!"Invalid DataView length {length}"
  | outsideDataView => "Offset is outside the bounds of the DataView"
  | targetExceeded => "offset is out of bounds"
  | sourceExceeded => "source offset is out of bounds"
  | mixedLanes => "Cannot mix BigInt and other types, use explicit conversions"

/-- What is reported of a cause. -/
def message (e : EngineError) : String := s!"{e.category.name}: {e.detail}"

end EngineError

end ArrayEngine
