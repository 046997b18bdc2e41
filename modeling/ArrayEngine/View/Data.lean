import ArrayEngine.Edit
import ArrayEngine.Lane.Codec
import ArrayEngine.View.Memory

/-!
# Data views

A data view is a range of bytes of a buffer. Each access names the kind of lane, its first byte
and the byte order; lanes may start anywhere. An access outside the range fails, and a write of a
value that does not convert fails with that error wherever it goes.
-/

namespace ArrayEngine

/-- A range of bytes of a buffer. -/
structure DataView where
  buffer : BufferId
  /-- First byte of the range in the buffer. -/
  offset : Nat
  /-- Number of bytes. -/
  length : Nat
deriving DecidableEq, Repr, Inhabited

namespace DataView

/-- The range of `length` bytes from `offset` on; without a length, the rest of the buffer. -/
def ofBuffer (memory : Memory) (buffer : BufferId) (offset : Nat) (length : Option Nat) :
    Except EngineError DataView :=
  let size := memory.byteLength buffer
  if size < offset then .error (.startOutside offset)
  else
    let length := length.getD (size - offset)
    if size - offset < length then .error (.dataViewTooLong length)
    else .ok ⟨buffer, offset, length⟩

/-- First byte in the buffer of the lane at a byte of the view, if the lane lies in the view. -/
def lane? (view : DataView) (position : Nat) (kind : LaneKind) : Option Nat :=
  if position + kind.size ≤ view.length then some (view.offset + position) else none

/-- Value of the lane at a byte of the view. -/
def get (view : DataView) (memory : Memory) (position : Nat) (kind : LaneKind)
    (order : ByteOrder) : Except EngineError Value :=
  match view.lane? position kind with
  | some offset => .ok (kind.decode ((memory.bytes view.buffer).readLane offset kind.size order))
  | none => .error .outsideDataView

/-- Writes a value to the lane at a byte of the view. -/
def set (view : DataView) (position : Nat) (kind : LaneKind) (value : Value) (order : ByteOrder) :
    Edit Memory Unit := fun memory =>
  match kind.encode value with
  | .error e => (.error e, memory)
  | .ok bits =>
    match view.lane? position kind with
    | none => (.error .outsideDataView, memory)
    | some offset =>
      (.ok (), memory.modify view.buffer fun bytes =>
        bytes.writeLane offset kind.size order bits)

end DataView

end ArrayEngine
