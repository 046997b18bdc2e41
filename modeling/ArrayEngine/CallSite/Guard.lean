import ArrayEngine.Store.Continuous
import ArrayEngine.View.Typed

/-!
# Guards

A guard states what a speculative call takes for granted of its receiver: the exact shape, and for
some operations a little more. A guard is derived from a receiver as it is, and admits every
receiver of which it still holds.
-/

namespace ArrayEngine

/-- Operation of a call site. -/
inductive ArrayOp where
  | push
  | pop
  | concat
  | get
  | set
deriving DecidableEq, Repr, Inhabited

namespace ArrayOp

/-- Every operation. -/
def all : List ArrayOp := [push, pop, concat, get, set]

/-- Name of an operation. -/
def name : ArrayOp → String
  | push => "push"
  | pop => "pop"
  | concat => "concat"
  | get => "get"
  | set => "set"

/-- Whether the operation reads or writes one element. -/
def isIndexed : ArrayOp → Bool
  | get | set => true
  | _ => false

end ArrayOp

/-- What a receiver is. -/
inductive Shape where
  /-- A continuous store of this kind. -/
  | elements (kind : ElementKind)
  /-- A typed view of this kind. -/
  | view (kind : LaneKind)
deriving DecidableEq, Repr

/-- Name of a shape, which is that of its kind. -/
def Shape.name : Shape → String
  | elements kind => kind.name
  | view kind => kind.arrayName

/-- What a speculative call takes for granted. -/
structure Guard where
  shape : Shape
  /-- The receiver has an element. -/
  nonEmpty : Bool
  /-- Every array among the arguments is continuous, and of no wider kind than this. -/
  argBound : Option ElementKind
  /-- The index is below the length; for a write to a store, at most the length. -/
  inBounds : Bool
deriving DecidableEq, Repr

namespace Guard

/-- Guard for an operation on a store. Only a continuous store has one. -/
def ofStore? (op : ArrayOp) (s : Store) (host : Host) : Option Guard :=
  if s.isContinuous host then
    some {
      shape := .elements s.kind
      nonEmpty := op == .pop
      argBound := if op = .concat then some .object else none
      inBounds := op.isIndexed }
  else none

/-- The widest kind among arrays. -/
def widestArray (operands : List Operand) : ElementKind :=
  operands.foldl (fun bound operand =>
    match operand with
    | .array store => bound.join store.kind
    | .value _ => bound) .empty

/-- Guard for a concatenation with these operands, all of which must be continuous. -/
def ofConcat? (s : Store) (operands : List Operand) (host : Host) : Option Guard :=
  if operands.all (·.isContinuous host) then
    (ofStore? .concat s host).map fun guard =>
      { guard with argBound := some (widestArray operands) }
  else none

/-- Guard for an access to a view. Every view has one. -/
def ofView (view : View) : Guard where
  shape := .view view.kind
  nonEmpty := false
  argBound := none
  inBounds := true

/-- Whether the guard holds of a store. -/
def admits (guard : Guard) (s : Store) (host : Host) : Bool :=
  guard.shape = .elements s.kind && s.isContinuous host && (!guard.nonEmpty || 0 < s.length)

/-- Whether the guard holds of the operands of a concatenation. -/
def admitsOperands (guard : Guard) (operands : List Operand) (host : Host) : Bool :=
  match guard.argBound with
  | none => true
  | some bound => operands.all fun operand =>
    match operand with
    | .array store => store.kind ≤ bound && store.isContinuous host
    | .value _ => true

/-- Whether the guard holds of a view. -/
def admitsView (guard : Guard) (view : View) : Bool := guard.shape = .view view.kind

end Guard

end ArrayEngine
