import ArrayEngine.Bounds
import ArrayEngine.Lane.Bytes

/-!
# Buffers

A buffer is known by its number in a memory. Everything that was made from a buffer names it by
that number and sees the same bytes; two buffers are the same exactly when their numbers are.
Buffers keep their size and are never freed.
-/

namespace ArrayEngine

/-- Number of a buffer in its memory. -/
abbrev BufferId := Nat

/-- All buffers, each with its bytes. -/
structure Memory where
  buffers : Array Bytes
deriving DecidableEq, Inhabited

namespace Memory

/-- The memory without buffers. -/
def empty : Memory := ⟨#[]⟩

/-- Bytes of a buffer. -/
def bytes (memory : Memory) (buffer : BufferId) : Bytes := memory.buffers.getD buffer #[]

/-- Size of a buffer. -/
def byteLength (memory : Memory) (buffer : BufferId) : Nat := (memory.bytes buffer).size

/-- A new buffer with the given bytes. -/
def alloc (memory : Memory) (bytes : Bytes) : BufferId × Memory :=
  (memory.buffers.size, ⟨memory.buffers.push bytes⟩)

/-- A new buffer of zeros. -/
def allocZeroed (memory : Memory) (size : Nat) : BufferId × Memory :=
  memory.alloc (Array.replicate size 0)

/-- The memory with the bytes of one buffer changed. -/
def modify (memory : Memory) (buffer : BufferId) (f : Bytes → Bytes) : Memory :=
  ⟨memory.buffers.modify buffer f⟩

/-- A new buffer with the bytes between two relative positions of another. -/
def sliceBuffer (memory : Memory) (buffer : BufferId) (start : Binary.Double)
    (stop : Option Binary.Double) : BufferId × Memory :=
  let size := memory.byteLength buffer
  memory.alloc ((memory.bytes buffer).extract (adjustIndex start size) (adjustEnd stop size))

end Memory

end ArrayEngine
