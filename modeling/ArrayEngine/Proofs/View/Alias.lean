import ArrayEngine.Proofs.View.Confined
import ArrayEngine.Proofs.View.Write

/-!
# Views of one buffer alias exactly

Typed views and data views reach a buffer in the same way: an access names a lane, by its first
byte, its kind and its byte order. A write puts the bytes of an encoded value in that lane. So what
any access reads afterwards is known byte by byte, however the two lanes overlap: from the written
lane it takes the new bytes, which it may order and decode in another way, and from anywhere else
the old ones.

A write that reaches no lane changes nothing. Through a typed view it is dropped, through a data
view it fails; but a value that does not convert is reported first in both cases.

## Main definitions

* `ByteOrder.digit`: one byte of a number in either order
* `Bytes.overlaid`: one byte of a buffer after a number has been put in a lane
* `Accessor`: a lane of a typed view or of a data view

## Main results

* `Bytes.window_writeLane`: bytes that are read from a buffer in which a lane has been written
* `Accessor.inBuffer_of_view`, `Accessor.inBuffer_of_dataView`: lanes of all views that can be had
* `Accessor.set_exact`: what a write does, and what any access reads after it
-/

namespace ArrayEngine

/-! ### Bytes of a number -/

/-- Byte `i` of the `width` bytes of a number in the given order. -/
def ByteOrder.digit (order : ByteOrder) (width n i : Nat) : UInt8 :=
  match order with
  | little => UInt8.ofNat (n / 256 ^ i)
  | big => UInt8.ofNat (n / 256 ^ (width - 1 - i))

theorem getElem?_littleEndian {width i : Nat} (hi : i < width) (n : Nat) :
    (littleEndian width n)[i]? = some (UInt8.ofNat (n / 256 ^ i)) := by
  induction width generalizing n i with
  | zero => cases hi
  | succ width ih =>
    cases i with
    | zero => rw [littleEndian, List.getElem?_cons_zero, pow_zero, Nat.div_one]
    | succ i =>
      rw [littleEndian, List.getElem?_cons_succ, ih (by omega), Nat.div_div_eq_div_mul, pow_succ']

theorem ByteOrder.getElem?_bytes (order : ByteOrder) {width i : Nat} (hi : i < width) (n : Nat) :
    (order.bytes width n)[i]? = some (order.digit width n i) := by
  cases order with
  | little => exact getElem?_littleEndian hi n
  | big =>
    rw [bytes, List.getElem?_reverse (by simpa using hi), length_littleEndian,
      getElem?_littleEndian (by omega)]
    rfl

/-! ### Bytes of a buffer -/

namespace Bytes

variable {data : Bytes} {start width : Nat}

/-- Byte `i` of a buffer in which `n` has been put in the lane of `width` bytes at `start`. -/
def overlaid (data : Bytes) (start width : Nat) (order : ByteOrder) (n i : Nat) : UInt8 :=
  if start ≤ i ∧ i < start + width then order.digit width n (i - start) else data.getD i 0

theorem getD_writeLane (h : start + width ≤ data.size) (order : ByteOrder) (n i : Nat) :
    (data.writeLane start width order n).getD i 0 = data.overlaid start width order n i := by
  rw [Array.getD_eq_getD_getElem?, writeLane, getElem?_write, ByteOrder.length_bytes, overlaid]
  by_cases hi : start ≤ i ∧ i < start + width
  · rw [if_pos (by omega), if_pos hi, order.getElem?_bytes (by omega), Option.getD_some]
  · rw [if_neg (by omega), if_neg hi, Array.getD_eq_getD_getElem?]

/-- Whatever is read after a write to a lane is read byte by byte from the lane and from around
it. -/
theorem window_writeLane (h : start + width ≤ data.size) (order : ByteOrder)
    (n offset count : Nat) :
    (data.writeLane start width order n).window offset count
      = (List.range' offset count).map (data.overlaid start width order n) :=
  List.map_congr_left fun i _ => getD_writeLane h order n i

/-- A lane that ends before a written one or starts after it is read as before. -/
theorem readLane_writeLane_of_disjoint {offset count : Nat}
    (h : offset + count ≤ start ∨ start + width ≤ offset) (order : ByteOrder) (n : Nat)
    (order' : ByteOrder) :
    (data.writeLane start width order n).readLane offset count order'
      = data.readLane offset count order' := by
  refine readLane_congr ?_ order'
  intro i hoffset hstop
  exact getElem?_write_of_outside (by rw [ByteOrder.length_bytes]; omega)

end Bytes

/-! ### Accesses -/

/-- A lane that a program names: by its index in a typed view, or by its first byte in a data view,
together with its kind and byte order. -/
inductive Accessor where
  | lane (view : View) (index : Nat)
  | bytes (view : DataView) (position : Nat) (kind : LaneKind) (order : ByteOrder)
deriving DecidableEq, Repr

namespace Accessor

variable {a b : Accessor} {memory : Memory} {start bits : Nat} {value : Value}

/-- Buffer of the view. -/
def buffer : Accessor → BufferId
  | lane view _ => view.buffer
  | bytes view _ _ _ => view.buffer

/-- Kind of the lane. -/
def kind : Accessor → LaneKind
  | lane view _ => view.kind
  | bytes _ _ kind _ => kind

/-- Order of the bytes of the lane. -/
def order : Accessor → ByteOrder
  | lane _ _ => .little
  | bytes _ _ _ order => order

/-- First byte of the lane in the buffer, if the lane lies in the view. -/
def lane? : Accessor → Option Nat
  | lane view index => if index < view.length then some (view.laneOffset index) else none
  | bytes view position kind _ => view.lane? position kind

/-- Reads the lane. -/
def get (memory : Memory) : Accessor → Except EngineError (Option Value)
  | lane view index => .ok (view.get? memory index)
  | bytes view position kind order => (view.get memory position kind order).map some

/-- Writes the lane. -/
def set (value : Value) : Accessor → Edit Memory Unit
  | lane view index => view.set index value
  | bytes view position kind order => view.set position kind value order

/-- What comes of a write that converts its value and finds no lane to put it in. -/
def outside : Accessor → Except EngineError Unit
  | lane _ _ => .ok ()
  | bytes _ _ _ _ => .error .outsideDataView

/-- The lane, if there is one, lies in its buffer. -/
def InBuffer (a : Accessor) (memory : Memory) : Prop :=
  ∀ start, a.lane? = some start → start + a.kind.size ≤ memory.byteLength a.buffer

theorem inBuffer_of_view {view : View} (h : view.Obtained memory)
    (hsize : memory.byteLength view.buffer ≤ 2 ^ 53) (index : Nat) :
    (lane view index).InBuffer memory := by
  intro start hlane
  simp only [lane?, Option.ite_none_right_eq_some, Option.some.injEq] at hlane
  obtain ⟨hindex, rfl⟩ := hlane
  exact View.laneOffset_add_size_le (h.within hsize) hindex

theorem inBuffer_of_dataView {view : DataView} (h : view.Obtained memory) (position : Nat)
    (kind : LaneKind) (order : ByteOrder) : (bytes view position kind order).InBuffer memory :=
  fun _ hlane => DataView.lane_le h.stop_le hlane

/-! ### Writing and reading -/

/-- A write, in terms of the lane only. -/
theorem perform_set (a : Accessor) (value : Value) (memory : Memory) :
    (a.set value).perform memory =
      match a.kind.encode value with
      | .error e => (.error e, memory)
      | .ok bits =>
        match a.lane? with
        | none => (a.outside, memory)
        | some start =>
          (.ok (), memory.modify a.buffer (·.writeLane start a.kind.size a.order bits)) := by
  cases a with
  | bytes view position kind order => exact view.perform_set position kind value order memory
  | lane view index =>
    simp only [set, View.perform_set, kind, lane?]
    cases view.kind.encode value with
    | error e => rfl
    | ok bits =>
      by_cases hindex : index < view.length
      · simp only [if_pos hindex]
        rfl
      · simp only [if_neg hindex]
        rfl

/-- A read, in terms of the lane only. -/
theorem get_eq (a : Accessor) (memory : Memory) :
    a.get memory =
      match a.lane? with
      | none => a.outside.map fun _ => none
      | some start => .ok (some (a.kind.decode
          ((memory.bytes a.buffer).readLane start a.kind.size a.order))) := by
  cases a with
  | bytes view position kind order =>
    rw [get, DataView.get, lane?]
    cases view.lane? position kind <;> rfl
  | lane view index =>
    rw [get, View.get?, lane?]
    by_cases hindex : index < view.length
    · rw [if_pos hindex, if_pos hindex]
      rfl
    · rw [if_neg hindex, if_neg hindex]
      rfl

theorem perform_set_of_lane? (hbits : a.kind.encode value = .ok bits)
    (hlane : a.lane? = some start) (memory : Memory) :
    (a.set value).perform memory
      = (.ok (), memory.modify a.buffer (·.writeLane start a.kind.size a.order bits)) := by
  rw [perform_set, hbits, hlane]

theorem get_of_lane? (hlane : a.lane? = some start) (memory : Memory) :
    a.get memory = .ok (some (a.kind.decode
      ((memory.bytes a.buffer).readLane start a.kind.size a.order))) := by
  rw [get_eq, hlane]

/-! ### A write and every access after it -/

/-- The second memory is the first with `bits` in a lane of one buffer. Every other buffer has the
bytes it had, and every access to this one sees the lane as far as its own lane overlaps it. -/
structure Stored (memory after : Memory) (buffer : BufferId) (start width : Nat)
    (order : ByteOrder) (bits : Nat) : Prop where
  byteLength_eq : after.byteLength = memory.byteLength
  bytes_eq : ∀ b ≠ buffer, after.bytes b = memory.bytes b
  byte_eq : ∀ i < memory.byteLength buffer, (after.bytes buffer)[i]?
    = some ((memory.bytes buffer).overlaid start width order bits i)
  get_eq : ∀ b : Accessor, b.buffer = buffer → ∀ first, b.lane? = some first →
    b.get after = .ok (some (b.kind.decode (b.order.number
      ((List.range' first b.kind.size).map
        ((memory.bytes buffer).overlaid start width order bits)))))
  get_eq_of_disjoint : ∀ b : Accessor,
    (b.buffer = buffer → ∀ first, b.lane? = some first →
      first + b.kind.size ≤ start ∨ start + width ≤ first) →
    b.get after = b.get memory

theorem stored_writeLane {buffer : BufferId} {width : Nat}
    (h : start + width ≤ memory.byteLength buffer) (order : ByteOrder) (bits : Nat) :
    Stored memory (memory.modify buffer (·.writeLane start width order bits)) buffer start width
      order bits := by
  have hsize : ∀ data : Bytes, (data.writeLane start width order bits).size = data.size :=
    fun data => Bytes.size_write _ _ _
  have hself := memory.bytes_writeLane_self buffer start width order bits
  have hother : ∀ b ≠ buffer,
      (memory.modify buffer (·.writeLane start width order bits)).bytes b = memory.bytes b := by
    intro b hb
    rw [Memory.bytes_modify hsize, if_neg hb]
  refine ⟨Memory.byteLength_modify hsize, hother, ?_, ?_, ?_⟩
  · intro i hi
    rw [hself, ← Bytes.getD_writeLane h, Array.getD_eq_getD_getElem?,
      Array.getElem?_eq_getElem (by rw [hsize]; exact hi), Option.getD_some]
  · rintro b rfl first hfirst
    rw [get_of_lane? hfirst, hself, Bytes.readLane, Bytes.window_writeLane h]
  · intro b hdisjoint
    cases hfirst : b.lane? with
    | none => rw [get_eq, get_eq, hfirst]
    | some first =>
      rw [get_of_lane? hfirst, get_of_lane? hfirst]
      by_cases hb : b.buffer = buffer
      · subst hb
        rw [hself, Bytes.readLane_writeLane_of_disjoint (hdisjoint rfl first hfirst)]
      · rw [hother _ hb]

/-- **Views of one buffer alias exactly.** A write puts the bytes of its value in its lane, in its
byte order, and changes no other byte; so any access reads the bytes that are then in its own lane,
in its own order, and an access to a lane apart from the written one reads what it read before. A
write without a lane changes nothing: a typed view drops it and a data view refuses it. A value that
does not convert is an error wherever it is written, and changes nothing. -/
theorem set_exact (a : Accessor) (value : Value) (memory : Memory) :
    (∀ e, a.kind.encode value = .error e →
      (a.set value).perform memory = (.error e, memory)) ∧
    (∀ bits, a.kind.encode value = .ok bits →
      (a.lane? = none → (a.set value).perform memory = (a.outside, memory)) ∧
      (∀ start, a.lane? = some start → a.InBuffer memory →
        ∃ after, (a.set value).perform memory = (.ok (), after) ∧
          Stored memory after a.buffer start a.kind.size a.order bits)) := by
  refine ⟨?_, fun bits hbits => ⟨?_, ?_⟩⟩
  · intro e he
    rw [perform_set, he]
  · intro hlane
    rw [perform_set, hbits, hlane]
  · intro start hlane hbuffer
    exact ⟨_, perform_set_of_lane? hbits hlane memory,
      stored_writeLane (hbuffer start hlane) a.order bits⟩

/-- The two middle bytes of four are written, most significant byte first. The first lane of two
bytes overlaps them by one, and the last byte is apart from them. -/
theorem set_exact_of_overlap :
    let memory : Memory := ⟨#[#[1, 2, 3, 4]]⟩
    let a := bytes ⟨0, 1, 3⟩ 0 .uint16 .big
    let value := Value.number (Binary.Double.ofNat 0x1234)
    ∃ after, (a.set value).perform memory = (.ok (), after) ∧
      (lane ⟨0, .uint16, 0, 2⟩ 0).get after = .ok (some (.number (Binary.Double.ofNat 0x1201))) ∧
      (lane ⟨0, .uint8, 0, 4⟩ 3).get after = .ok (some (.number (Binary.Double.ofNat 4))) := by
  intro memory a value
  have hview : DataView.Obtained ⟨0, 1, 3⟩ memory :=
    ⟨memory, fun _ _ => rfl, 0, 1, none, rfl⟩
  have hbuffer : a.InBuffer memory := inBuffer_of_dataView hview 0 .uint16 .big
  have hbits : a.kind.encode value = .ok 0x1234 := by decide +kernel
  obtain ⟨-, hstores⟩ := set_exact a value memory
  obtain ⟨after, hafter, hstored⟩ := (hstores _ hbits).2 1 rfl hbuffer
  refine ⟨after, hafter, ?_, ?_⟩
  · rw [hstored.get_eq (lane ⟨0, .uint16, 0, 2⟩ 0) rfl 0 rfl]
    decide +kernel
  · rw [hstored.get_eq_of_disjoint (lane ⟨0, .uint8, 0, 4⟩ 3) (by rintro - first ⟨⟩; decide)]
    decide +kernel

end Accessor

end ArrayEngine
