import ArrayEngine.Edit
import ArrayEngine.Lane.Codec
import ArrayEngine.View.Memory

/-!
# Typed views

A view reads and writes a part of a buffer as lanes of one kind, least significant byte first. It
starts at a multiple of the lane size and ends within the buffer; views may overlap in any way,
and each sees at once what is written through another.

A write converts its value before it looks at its index. A write from the length on that converts
is dropped; one that does not fails at any index.
-/

namespace ArrayEngine

/-- A part of a buffer as lanes of one kind. -/
structure View where
  buffer : BufferId
  kind : LaneKind
  /-- First byte of the view in the buffer. -/
  offset : Nat
  /-- Number of lanes. -/
  length : Nat
deriving DecidableEq, Repr, Inhabited

/-- Greatest size of a buffer made for a view. -/
def maxAllocation : Nat := 0x7fffffffffffffff

namespace View

/-! ### Construction -/

/-- Number of bytes of the view. -/
def byteLength (view : View) : Nat := view.length * view.kind.size

/-- View of `length` lanes from `offset` on. Without a length it takes in the rest of the buffer,
which must be a whole number of lanes. -/
def ofBuffer (memory : Memory) (buffer : BufferId) (kind : LaneKind) (offset : Nat)
    (length : Option Nat) : Except EngineError View :=
  let size := memory.byteLength buffer
  if offset % kind.size ≠ 0 then .error (.misalignedView kind)
  else
    match length with
    | some length =>
      if offset + length * kind.size ≤ size then .ok ⟨buffer, kind, offset, length⟩
      else .error (.viewTooLong length)
    | none =>
      if size < offset then .error (.startOutside offset)
      else if (size - offset) % kind.size ≠ 0 then .error (.partialLane kind)
      else .ok ⟨buffer, kind, offset, (size - offset) / kind.size⟩

/-- View of a new buffer of `length` zero lanes. -/
def zeroed (kind : LaneKind) (length : Nat) : Edit Memory View := fun memory =>
  if maxAllocation < length * kind.size then (.error (.viewTooLong length), memory)
  else
    let (buffer, memory) := memory.allocZeroed (length * kind.size)
    (.ok ⟨buffer, kind, 0, length⟩, memory)

/-- View of the lanes between two relative positions of a view. -/
def subview (view : View) (start : Binary.Double) (stop : Option Binary.Double) : View :=
  let first := adjustIndex start view.length
  let last := adjustEnd stop view.length
  { view with offset := view.offset + first * view.kind.size, length := last - first }

/-- View of a new buffer with the bytes of the lanes between two relative positions. -/
def slice (view : View) (start : Binary.Double) (stop : Option Binary.Double) (memory : Memory) :
    View × Memory :=
  let part := view.subview start stop
  let bytes := (memory.bytes part.buffer).extract part.offset (part.offset + part.byteLength)
  let (buffer, memory) := memory.alloc bytes
  ({ part with buffer, offset := 0 }, memory)

/-! ### Lanes -/

/-- First byte of a lane in the buffer. -/
def laneOffset (view : View) (index : Nat) : Nat := view.offset + index * view.kind.size

/-- Value of a lane, `none` from the length on. -/
def get? (view : View) (memory : Memory) (index : Nat) : Option Value :=
  if index < view.length then
    some <| view.kind.decode <|
      (memory.bytes view.buffer).readLane (view.laneOffset index) view.kind.size .little
  else none

/-- The memory with a bit pattern in a lane. -/
def writeBits (view : View) (memory : Memory) (index bits : Nat) : Memory :=
  memory.modify view.buffer fun bytes =>
    bytes.writeLane (view.laneOffset index) view.kind.size .little bits

/-- Writes a value to a lane. -/
def set (view : View) (index : Nat) (value : Value) : Edit Memory Unit := fun memory =>
  match view.kind.encode value with
  | .error e => (.error e, memory)
  | .ok bits => (.ok (), if index < view.length then view.writeBits memory index bits else memory)

/-- Value of the lane at a relative position, `none` outside the view. -/
def at? (view : View) (memory : Memory) (position : Binary.Double) : Option Value :=
  let index := if position.toInt < 0 then view.length + position.toInt else position.toInt
  if index < 0 then none else view.get? memory index.toNat

/-- Values of all lanes. -/
def toList (view : View) (memory : Memory) : List Value :=
  (List.range view.length).filterMap (view.get? memory)

/-- Writes values to the lanes from `start` on, up to the first that does not convert. -/
def setAll (view : View) (start : Nat) (values : List Value) : Edit Memory Unit :=
  (values.zipIdx start).forM fun (value, index) => view.set index value

end View

end ArrayEngine
