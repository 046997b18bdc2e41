import ArrayEngine.Proofs.View.Alias

/-!
# One byte layout for typed views and data views

A lane of a typed view is a lane of the data view over the whole buffer, at the byte where the typed
view has it, least significant byte first. Both read the same value there, and both make the same of
a write: the same error of a value that does not convert, and the same bytes of any other.

The other byte order puts the same bytes into the lane from its other end. Read in the order in
which it was written, a lane has the value of the pattern that was put there.

## Main definitions

* `View.whole`: the data view over the buffer of a typed view

## Main results

* `View.exists_get?_whole`, `View.perform_set_whole`: a lane of both views
* `DataView.exists_set`: a lane in either byte order
* `Memory.byte_layout`: all lanes of all views of a memory
-/

namespace ArrayEngine

variable {memory : Memory}

/-! ### Typed views -/

namespace View

variable {view : View}

/-- The data view over the whole buffer of a typed view. -/
def whole (view : View) (memory : Memory) : DataView :=
  ⟨view.buffer, 0, memory.byteLength view.buffer⟩

theorem ofBuffer_whole (view : View) (memory : Memory) :
    DataView.ofBuffer memory view.buffer 0 none = .ok (view.whole memory) :=
  DataView.ofBuffer_eq_ok_iff.mpr ⟨Nat.zero_le _, rfl⟩

/-- Lanes of the typed view are lanes of the data view. -/
theorem lane?_whole (hview : view.Within memory) {index : Nat} (hindex : index < view.length) :
    (view.whole memory).lane? (view.laneOffset index) view.kind = some (view.laneOffset index) := by
  have hlane := laneOffset_add_size_le hview hindex
  rw [DataView.lane?, whole, if_pos hlane, Nat.zero_add]

/-- Reading a lane of the typed view is reading it through the data view. -/
theorem exists_get?_whole (hview : view.Within memory) {index : Nat}
    (hindex : index < view.length) :
    ∃ value, view.get? memory index = some value ∧
      (view.whole memory).get memory (view.laneOffset index) view.kind .little = .ok value := by
  refine ⟨_, view.get?_of_lt memory hindex, ?_⟩
  rw [DataView.get, lane?_whole hview hindex]
  rfl

/-- So is writing it. -/
theorem perform_set_whole (hview : view.Within memory) {index : Nat} (hindex : index < view.length)
    (value : Value) :
    (view.set index value).perform memory
      = ((view.whole memory).set (view.laneOffset index) view.kind value .little).perform
          memory := by
  rw [View.perform_set, DataView.perform_set, lane?_whole hview hindex]
  simp only [if_pos hindex]
  rfl

end View

/-! ### Byte orders -/

/-- A value that converts is put into its lane in the order of the write, and is read in that order
as what its pattern stands for. -/
theorem DataView.exists_set {view : DataView} (hview : view.Obtained memory) {position bits : Nat}
    {kind : LaneKind} (hposition : position + kind.size ≤ view.length) {value : Value}
    (hbits : kind.encode value = .ok bits) (order : ByteOrder) :
    ∃ after, (view.set position kind value order).perform memory = (.ok (), after) ∧
      (after.bytes view.buffer).window (view.offset + position) kind.size
        = order.bytes kind.size bits ∧
      view.get after position kind order = .ok (kind.decode bits) := by
  have hlane : view.lane? position kind = some (view.offset + position) := if_pos hposition
  have hbuffer : view.offset + position + kind.size ≤ memory.byteLength view.buffer :=
    DataView.lane_le hview.stop_le hlane
  refine ⟨memory.modify view.buffer (·.writeLane (view.offset + position) kind.size order bits),
    ?_, ?_, ?_⟩
  · rw [perform_set, hbits, hlane]
  · rw [Memory.bytes_writeLane_self, Bytes.window_writeLane_self hbuffer]
  · rw [get, hlane]
    dsimp only
    rw [Memory.readLane_writeLane_self hbuffer order (LaneKind.encode_lt hbits)]

/-- **Typed views and data views have one byte layout.** Every lane of a typed view that lies in its
buffer is read and written as the data view over the whole buffer reads and writes it at the same
byte, least significant byte first, whatever the value. In a data view, a write in one byte order
leaves the bytes of its lane in the reverse of the order in which the other leaves them, and what
has been written is read in the order of the write as what its pattern stands for; a value that does
not convert is the same error in both orders, and changes nothing. -/
theorem Memory.byte_layout (memory : Memory) :
    (∀ view : View, view.Within memory →
      ∃ whole, DataView.ofBuffer memory view.buffer 0 none = .ok whole ∧
        ∀ index < view.length,
          (∃ value, view.get? memory index = some value ∧
            whole.get memory (view.offset + index * view.kind.size) view.kind .little
              = .ok value) ∧
          ∀ value, (view.set index value).perform memory
            = (whole.set (view.offset + index * view.kind.size) view.kind value .little).perform
                memory) ∧
    ∀ view : DataView, view.Obtained memory → ∀ (position : Nat) (kind : LaneKind),
      position + kind.size ≤ view.length → ∀ value,
        (∀ e, kind.encode value = .error e → ∀ order,
          (view.set position kind value order).perform memory = (.error e, memory)) ∧
        ∀ bits, kind.encode value = .ok bits → ∃ little big,
          (view.set position kind value .little).perform memory = (.ok (), little) ∧
          (view.set position kind value .big).perform memory = (.ok (), big) ∧
          (big.bytes view.buffer).window (view.offset + position) kind.size
            = ((little.bytes view.buffer).window (view.offset + position) kind.size).reverse ∧
          view.get little position kind .little = .ok (kind.decode bits) ∧
          view.get big position kind .big = .ok (kind.decode bits) := by
  refine ⟨?_, ?_⟩
  · intro view hview
    refine ⟨view.whole memory, view.ofBuffer_whole memory, ?_⟩
    intro index hindex
    exact ⟨View.exists_get?_whole hview hindex, View.perform_set_whole hview hindex⟩
  · intro view hview position kind hposition value
    refine ⟨?_, ?_⟩
    · intro e he order
      rw [DataView.perform_set, he]
    · intro bits hbits
      obtain ⟨little, hlittle, hlittleBytes, hlittleGet⟩ :=
        DataView.exists_set hview hposition hbits .little
      obtain ⟨big, hbig, hbigBytes, hbigGet⟩ := DataView.exists_set hview hposition hbits .big
      refine ⟨little, big, hlittle, hbig, ?_, hlittleGet, hbigGet⟩
      rw [hbigBytes, hlittleBytes]
      rfl

/-- Two bytes of four, through a typed view of the last two and through a data view of the last
three. -/
theorem Memory.byte_layout_of_four :
    let memory : Memory := ⟨#[#[1, 2, 3, 4]]⟩
    let view : View := ⟨0, .uint16, 2, 1⟩
    let part : DataView := ⟨0, 1, 3⟩
    let value := Value.number (Binary.Double.ofNat 0x1234)
    (∃ whole, DataView.ofBuffer memory 0 0 none = .ok whole ∧
      (∃ read, view.get? memory 0 = some read ∧ whole.get memory 2 .uint16 .little = .ok read) ∧
      (view.set 0 value).perform memory = (whole.set 2 .uint16 value .little).perform memory) ∧
    ∃ little big, (part.set 1 .uint16 value .little).perform memory = (.ok (), little) ∧
      (part.set 1 .uint16 value .big).perform memory = (.ok (), big) ∧
      (big.bytes 0).window 2 2 = ((little.bytes 0).window 2 2).reverse ∧
      part.get little 1 .uint16 .little = .ok value ∧ part.get big 1 .uint16 .big = .ok value := by
  intro memory view part value
  have hview : view.Within memory := ⟨by decide, by decide⟩
  have hpart : part.Obtained memory := ⟨memory, fun _ _ => rfl, 0, 1, none, rfl⟩
  have hbits : LaneKind.uint16.encode value = .ok 0x1234 := by decide +kernel
  obtain ⟨htyped, hdata⟩ := byte_layout memory
  obtain ⟨whole, hwhole, hlanes⟩ := htyped view hview
  obtain ⟨hget, hset⟩ := hlanes 0 Nat.one_pos
  obtain ⟨-, horders⟩ := hdata part hpart 1 .uint16 (by decide) value
  exact ⟨⟨whole, hwhole, hget, hset value⟩, horders 0x1234 hbits⟩

end ArrayEngine
