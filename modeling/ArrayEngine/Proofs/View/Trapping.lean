import ArrayEngine.Proofs.Bounds
import ArrayEngine.View.Copy
import ArrayEngine.View.Data

/-!
# Views on machine words

The offsets of a view are machine words, and the bytes that it reads and writes are slices of its
buffer. A sum or product that is no word and a slice that does not lie in the buffer end the
program, unless they are asked for with a test. This file has the operations of views in that form,
where nothing is taken for granted: each bound is computed step by step, and a step that a program
does not survive is `none`.

Positions come from lengths and doubles by a conversion that saturates, so they always exist.

## Main definitions

* `Word.add?`, `Word.mul?`, `Word.sub?`: arithmetic that traps
* `Bytes.slice?`, `Bytes.overwrite?`, `Bytes.move?`: slices that trap
* `Trapping`: edits of a memory that may trap
* `View.ofWords`, `View.trapGet`, `View.trapSet`, `View.trapFill`, `View.trapCopyView`, ...: the
  operations of views
-/

namespace ArrayEngine

open Binary (Double)

/-! ### Arithmetic -/

namespace Word

/-- A sum, if it is a word. -/
def add? (m n : Nat) : Option Nat := if m + n ≤ maxWord then some (m + n) else none

/-- A product, if it is a word. -/
def mul? (m n : Nat) : Option Nat := if m * n ≤ maxWord then some (m * n) else none

/-- A difference, if it is not negative. -/
def sub? (m n : Nat) : Option Nat := if n ≤ m then some (m - n) else none

/-- Whether `count` places from `start` on reach beyond a length. A sum that is no word does. -/
def exceeds (start count length : Nat) : Bool :=
  match add? start count with
  | some stop => length < stop
  | none => true

end Word

/-! ### Slices -/

namespace Bytes

/-- The bytes between two positions. -/
def slice? (data : Bytes) (start stop : Nat) : Option (List UInt8) :=
  if start ≤ stop ∧ stop ≤ data.size then some (data.window start (stop - start)) else none

/-- The buffer with the bytes between two positions replaced by as many. -/
def overwrite? (data : Bytes) (start stop : Nat) (bytes : List UInt8) : Option Bytes :=
  if start ≤ stop ∧ stop ≤ data.size ∧ bytes.length = stop - start then
    some (data.write start bytes)
  else none

/-- The buffer with the bytes between two positions copied to those from `target` on. -/
def move? (data : Bytes) (start stop target : Nat) : Option Bytes :=
  if start ≤ stop ∧ stop ≤ data.size ∧ target + (stop - start) ≤ data.size then
    some (data.copyWithin start target (stop - start))
  else none

end Bytes

/-- The memory with the bytes of one buffer changed, if the change does not trap. -/
def Memory.modify? (memory : Memory) (buffer : BufferId) (f : Bytes → Option Bytes) :
    Option Memory :=
  (f (memory.bytes buffer)).map fun bytes => memory.modify buffer fun _ => bytes

/-! ### Edits -/

/-- An edit of a memory that may trap, and then has no outcome at all. -/
abbrev Trapping (α : Type) := ExceptT EngineError (StateT Memory Option) α

namespace Trapping

/-- Performs an edit. -/
def perform {α : Type} (edit : Trapping α) (memory : Memory) :
    Option (Except EngineError α × Memory) := edit.run.run memory

/-- Changes the memory. -/
def change (f : Memory → Option Memory) : Trapping Unit := do set (← f (← get))

end Trapping

namespace View

/-! ### Lanes of views -/

/-- View of `length` lanes from `offset` on. Only the given length is multiplied with a test. -/
def ofWords (memory : Memory) (buffer : BufferId) (kind : LaneKind) (offset : Nat)
    (length : Option Nat) : Except EngineError View :=
  let size := memory.byteLength buffer
  if offset % kind.size ≠ 0 then .error (.misalignedView kind)
  else
    match length with
    | some length =>
      match (Word.mul? length kind.size).bind (Word.add? · offset) with
      | some stop => if size < stop then .error (.viewTooLong length)
        else .ok ⟨buffer, kind, offset, length⟩
      | none => .error (.viewTooLong length)
    | none =>
      if size < offset then .error (.startOutside offset)
      else if (size - offset) % kind.size ≠ 0 then .error (.partialLane kind)
      else .ok ⟨buffer, kind, offset, (size - offset) / kind.size⟩

/-- Byte of the buffer at which a number of lanes of the view ends. -/
def trapOffset (view : View) (lanes : Nat) : Option Nat := do
  Word.add? view.offset (← Word.mul? lanes view.kind.size)

/-- First byte of a lane in the buffer, and the byte after it. -/
def trapLane (view : View) (index : Nat) : Option (Nat × Nat) := do
  let start ← view.trapOffset index
  return (start, ← Word.add? start view.kind.size)

/-- Value of a lane, `none` from the length on. -/
def trapGet (view : View) (memory : Memory) (index : Nat) : Option (Option Value) := do
  if view.length ≤ index then return none
  let (start, stop) ← view.trapLane index
  let bytes ← (memory.bytes view.buffer).slice? start stop
  return some (view.kind.decode (ByteOrder.little.number bytes))

/-- Value of the lane at a relative position, `none` outside the view. The position is a sum of
doubles. -/
def trapAt (view : View) (memory : Memory) (position : Double) : Option (Option Value) := do
  let size := (Double.ofNat view.length).toInt
  let index :=
    if position.toInt < 0 then (Double.ofInt (size + position.toInt)).toInt else position.toInt
  if index < 0 ∨ size ≤ index then return none
  view.trapGet memory (min index.toNat maxWord)

/-- The memory with a bit pattern in a lane. -/
def trapWriteBits (view : View) (memory : Memory) (index bits : Nat) : Option Memory := do
  let (start, stop) ← view.trapLane index
  memory.modify? view.buffer
    (·.overwrite? start stop (ByteOrder.little.bytes view.kind.size bits))

/-- Writes a value to a lane. -/
def trapSet (view : View) (index : Nat) (value : Value) : Trapping Unit := do
  let bits ← MonadExcept.ofExcept (view.kind.encode value)
  if view.length ≤ index then return
  .change (view.trapWriteBits · index bits)

/-- Writes values to the lanes from `start` on, up to the first that does not convert. -/
def trapSetAll (view : View) (start : Nat) (values : List Value) : Trapping Unit :=
  values.zipIdx.forM fun (value, i) => do view.trapSet (← Word.add? start i) value

/-! ### Parts of views -/

/-- View of the lanes between two relative positions of a view. -/
def trapSubview (view : View) (start : Double) (stop : Option Double) : Option View := do
  let first := adjustIndex start view.length
  let last := adjustEnd stop view.length
  return { view with offset := ← view.trapOffset first, length := last - first }

/-- View of a new buffer with the bytes of the lanes between two relative positions. -/
def trapSlice (view : View) (start : Double) (stop : Option Double) (memory : Memory) :
    Option (View × Memory) := do
  let part ← view.trapSubview start stop
  let bytes ← (memory.bytes part.buffer).slice? part.offset (← part.trapOffset part.length)
  let (buffer, memory) := memory.alloc bytes.toArray
  return ({ part with buffer, offset := 0 }, memory)

/-! ### Copying and filling -/

/-- Copies the bytes of `count` lanes of `source`, which has lanes of the same kind. Within one
buffer they are moved. -/
def trapCopyBytes (view : View) (start : Nat) (source : View) (sourceStart count : Nat) :
    Trapping Unit := do
  let memory ← get
  let first ← source.trapOffset sourceStart
  let target ← view.trapOffset start
  let size ← Word.mul? count view.kind.size
  let last ← Word.add? first size
  if source.buffer = view.buffer then
    .change (·.modify? view.buffer (·.move? first last target))
  else
    let bytes ← (memory.bytes source.buffer).slice? first last
    let stop ← Word.add? target size
    .change (·.modify? view.buffer (·.overwrite? target stop bytes))

/-- Copies the values of `count` lanes of `source`. All are read before any is written. -/
def trapCopyLanes (view : View) (start : Nat) (source : View) (sourceStart count : Nat) :
    Trapping Unit := do
  let memory ← get
  let last ← Word.add? sourceStart count
  let values : List (Option Value) ←
    show Option _ from (List.range' sourceStart (last - sourceStart)).mapM (source.trapGet memory)
  view.trapSetAll start (values.filterMap id)

/-- Copies `count` lanes of `source` from `sourceStart` on to the lanes from `start` on. -/
def trapCopyView (view : View) (start : Nat) (source : View) (sourceStart count : Nat) :
    Trapping Unit := do
  if Word.exceeds start count view.length then throw .targetExceeded
  if source.kind.isBigInt != view.kind.isBigInt then throw .mixedLanes
  if Word.exceeds sourceStart count source.length then throw .sourceExceeded
  if count = 0 then return
  if source.kind = view.kind then view.trapCopyBytes start source sourceStart count
  else view.trapCopyLanes start source sourceStart count

/-- Copies `count` values from `sourceStart` on to the lanes from `start` on. -/
def trapCopyValues (view : View) (start : Nat) (values : List Value) (sourceStart count : Nat) :
    Trapping Unit := do
  if Word.exceeds start count view.length then throw .targetExceeded
  if Word.exceeds sourceStart count values.length then throw .sourceExceeded
  view.trapSetAll start ((values.drop sourceStart).take count)

/-- Writes a value to all lanes between two relative positions. -/
def trapFill (view : View) (value : Value) (start : Double) (stop : Option Double) :
    Trapping Unit := do
  let bits ← MonadExcept.ofExcept (view.kind.encode value)
  let first := adjustIndex start view.length
  let last := adjustEnd stop view.length
  .change <| (List.range' first (last - first)).foldlM fun memory index =>
    view.trapWriteBits memory index bits

/-- Copies the lanes between two relative positions to those from `target` on, as far as there is
room. -/
def trapCopyWithin (view : View) (target start : Double) (stop : Option Double)
    (memory : Memory) : Option Memory := do
  let destination := adjustIndex target view.length
  let first := adjustIndex start view.length
  let last := adjustEnd stop view.length
  let count := min (last - first) (← Word.sub? view.length destination)
  if count = 0 then return memory
  let source ← view.trapOffset first
  let sourceEnd ← Word.add? source (← Word.mul? count view.kind.size)
  let target ← view.trapOffset destination
  memory.modify? view.buffer (·.move? source sourceEnd target)

end View

namespace DataView

/-! ### Data views -/

/-- First byte in the buffer of the lane at a byte of the view, and the byte after it. -/
def trapLane (view : DataView) (position : Nat) (kind : LaneKind) :
    Option (Except EngineError (Nat × Nat)) := do
  if Word.exceeds position kind.size view.length then return .error .outsideDataView
  let start ← Word.add? view.offset position
  return .ok (start, ← Word.add? start kind.size)

/-- Value of the lane at a byte of the view. -/
def trapGet (view : DataView) (memory : Memory) (position : Nat) (kind : LaneKind)
    (order : ByteOrder) : Option (Except EngineError Value) := do
  match ← view.trapLane position kind with
  | .error e => return .error e
  | .ok (start, stop) =>
    let bytes ← (memory.bytes view.buffer).slice? start stop
    return .ok (kind.decode (order.number bytes))

/-- Writes a value to the lane at a byte of the view. -/
def trapSet (view : DataView) (position : Nat) (kind : LaneKind) (value : Value)
    (order : ByteOrder) : Trapping Unit := do
  let bits ← MonadExcept.ofExcept (kind.encode value)
  let (start, stop) ← MonadExcept.ofExcept (← view.trapLane position kind)
  .change (·.modify? view.buffer (·.overwrite? start stop (order.bytes kind.size bits)))

end DataView

end ArrayEngine
