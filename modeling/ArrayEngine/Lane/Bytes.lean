/-!
# Bytes of a lane

A lane of a buffer holds an unsigned number, given by the lane's bytes in either order. Reading
and writing take a byte offset and never leave the buffer: what lies outside reads as zero and is
not written.
-/

namespace ArrayEngine

/-- Contents of a buffer. -/
abbrev Bytes := Array UInt8

/-- Order in which the bytes of a number are kept. -/
inductive ByteOrder where
  /-- Least significant byte first. -/
  | little
  /-- Most significant byte first. -/
  | big
deriving DecidableEq, Repr

/-- The `width` low bytes of a number, least significant first. -/
def littleEndian : (width n : Nat) → List UInt8
  | 0, _ => []
  | width + 1, n => UInt8.ofNat n :: littleEndian width (n / 256)

/-- Number whose bytes are given, least significant first. -/
def ofLittleEndian : List UInt8 → Nat
  | [] => 0
  | b :: rest => b.toNat + 256 * ofLittleEndian rest

namespace ByteOrder

/-- The `width` low bytes of a number in the given order. -/
def bytes (order : ByteOrder) (width n : Nat) : List UInt8 :=
  match order with
  | little => littleEndian width n
  | big => (littleEndian width n).reverse

/-- Number whose bytes are given in the given order. -/
def number (order : ByteOrder) (bytes : List UInt8) : Nat :=
  match order with
  | little => ofLittleEndian bytes
  | big => ofLittleEndian bytes.reverse

end ByteOrder

namespace Bytes

/-- The `count` bytes from `offset` on. -/
def window (data : Bytes) (offset count : Nat) : List UInt8 :=
  (List.range' offset count).map fun i => data.getD i 0

/-- The buffer with bytes written one after another from `offset` on. -/
def write (data : Bytes) (offset : Nat) : List UInt8 → Bytes
  | [] => data
  | b :: rest => write (data.setIfInBounds offset b) (offset + 1) rest

/-- Number in the lane of `width` bytes at `offset`. -/
def readLane (data : Bytes) (offset width : Nat) (order : ByteOrder) : Nat :=
  order.number (data.window offset width)

/-- The buffer with a number in the lane of `width` bytes at `offset`. -/
def writeLane (data : Bytes) (offset width : Nat) (order : ByteOrder) (n : Nat) : Bytes :=
  data.write offset (order.bytes width n)

/-- The buffer with the `count` bytes at `source` copied to `target`, all read before any is
written. -/
def copyWithin (data : Bytes) (source target count : Nat) : Bytes :=
  data.write target (data.window source count)

end Bytes

end ArrayEngine
