import ArrayEngine.Proofs.Lane.Codec
import ArrayEngine.Proofs.View.Within

/-!
# Lanes that are written and read

A write to a lane of a view changes the bytes of that lane and no others, whatever other views share
the buffer. So lanes that are written one after another all hold afterwards what was written to
them. A value that does not convert ends the writing, and the lanes before it stay written.

## Main definitions

* `Memory.SameOutside`: only a range of bytes of one buffer may differ
* `View.laneBits`: pattern in a lane
* `View.Written`: values have been written to consecutive lanes

## Main results

* `Memory.readLane_writeLane_self`, `Memory.sameOutside_writeLane`: a lane of a buffer
* `View.laneBits_of_sameOutside`: a lane outside the range holds what it held
* `View.laneBits_writeBits_self`: a lane that has been written
* `View.exists_setAll`, `View.exists_setAll_of_error`: all of a list of values, or those before the
  first that does not convert
-/

namespace ArrayEngine

variable {memory memory' : Memory} {buffer : BufferId} {start stop : Nat}

/-! ### What is left alone -/

namespace Memory

/-- The second memory has the bytes of the first, except for those of one buffer from `start` up to
`stop`. -/
def SameOutside (memory memory' : Memory) (buffer : BufferId) (start stop : Nat) : Prop :=
  ∀ b i, (b = buffer → i < start ∨ stop ≤ i) → (memory'.bytes b)[i]? = (memory.bytes b)[i]?

/-- Two ranges one after the other are one. -/
theorem SameOutside.append {memory'' : Memory} {middle : Nat}
    (h : memory.SameOutside memory' buffer start middle)
    (h' : memory'.SameOutside memory'' buffer middle stop) (hstart : start ≤ middle)
    (hstop : middle ≤ stop) : memory.SameOutside memory'' buffer start stop := by
  intro b i hout
  rw [h' b i fun hb => by have := hout hb; omega, h b i fun hb => by have := hout hb; omega]

theorem sameOutside_write (memory : Memory) (buffer : BufferId) (offset : Nat)
    (bytes : List UInt8) :
    memory.SameOutside (memory.modify buffer (·.write offset bytes)) buffer offset
      (offset + bytes.length) := by
  intro b i hout
  rw [bytes_modify fun _ => Bytes.size_write _ _ _]
  split
  case isTrue hb => exact Bytes.getElem?_write_of_outside (hout hb)
  case isFalse => rfl

theorem bytes_write_self (memory : Memory) (buffer : BufferId) (offset : Nat)
    (bytes : List UInt8) :
    (memory.modify buffer (·.write offset bytes)).bytes buffer
      = (memory.bytes buffer).write offset bytes := by
  rw [bytes_modify fun _ => Bytes.size_write _ _ _, if_pos rfl]

/-! ### A lane of a buffer -/

variable {width bits : Nat}

theorem bytes_writeLane_self (memory : Memory) (buffer : BufferId) (start width : Nat)
    (order : ByteOrder) (bits : Nat) :
    (memory.modify buffer (·.writeLane start width order bits)).bytes buffer
      = (memory.bytes buffer).writeLane start width order bits :=
  memory.bytes_write_self buffer start (order.bytes width bits)

theorem sameOutside_writeLane (memory : Memory) (buffer : BufferId) (start width : Nat)
    (order : ByteOrder) (bits : Nat) :
    memory.SameOutside (memory.modify buffer (·.writeLane start width order bits)) buffer start
      (start + width) := by
  have h := memory.sameOutside_write buffer start (order.bytes width bits)
  rwa [ByteOrder.length_bytes] at h

/-- A lane in the buffer holds the pattern that has been written to it. -/
theorem readLane_writeLane_self (h : start + width ≤ memory.byteLength buffer)
    (order : ByteOrder) (hbits : bits < 256 ^ width) :
    ((memory.modify buffer (·.writeLane start width order bits)).bytes buffer).readLane start width
      order = bits := by
  rw [bytes_writeLane_self, Bytes.readLane_writeLane h, Nat.mod_eq_of_lt hbits]

end Memory

namespace View

variable {view : View} {index bits : Nat}

/-! ### One lane -/

theorem laneOffset_succ (view : View) (index : Nat) :
    view.laneOffset (index + 1) = view.laneOffset index + view.kind.size := by
  rw [laneOffset, laneOffset, Nat.add_one_mul, Nat.add_assoc]

theorem laneOffset_le_laneOffset (view : View) {i j : Nat} (h : i ≤ j) :
    view.laneOffset i ≤ view.laneOffset j :=
  Nat.add_le_add_left (Nat.mul_le_mul_right _ h) _

/-- Pattern in a lane. -/
def laneBits (view : View) (memory : Memory) (index : Nat) : Nat :=
  (memory.bytes view.buffer).readLane (view.laneOffset index) view.kind.size .little

theorem laneBits_lt (view : View) (memory : Memory) (index : Nat) :
    view.laneBits memory index < 256 ^ view.kind.size := Bytes.readLane_lt ..

theorem get?_of_lt (memory : Memory) (h : index < view.length) :
    view.get? memory index = some (view.kind.decode (view.laneBits memory index)) := if_pos h

theorem get?_of_le (memory : Memory) (h : view.length ≤ index) : view.get? memory index = none :=
  if_neg (Nat.not_lt.mpr h)

/-- A lane that ends before a change or starts after it holds what it held. -/
theorem laneBits_of_sameOutside (h : memory.SameOutside memory' view.buffer start stop)
    (hout : view.laneOffset (index + 1) ≤ start ∨ stop ≤ view.laneOffset index) :
    view.laneBits memory' index = view.laneBits memory index := by
  have hlane := view.laneOffset_succ index
  exact Bytes.readLane_congr (fun i _ _ => h view.buffer i fun _ => by omega) .little

theorem sameOutside_writeBits (view : View) (memory : Memory) (index bits : Nat) :
    memory.SameOutside (view.writeBits memory index bits) view.buffer (view.laneOffset index)
      (view.laneOffset (index + 1)) := by
  rw [laneOffset_succ]
  exact memory.sameOutside_writeLane view.buffer (view.laneOffset index) view.kind.size .little bits

/-- A lane holds the pattern that has been written to it. -/
theorem laneBits_writeBits_self (hview : view.Within memory) (hindex : index < view.length)
    (hbits : bits < 256 ^ view.kind.size) :
    view.laneBits (view.writeBits memory index bits) index = bits :=
  Memory.readLane_writeLane_self (laneOffset_add_size_le hview hindex) .little hbits

/-! ### Consecutive lanes -/

theorem perform_set_of_lt {value : Value} (hbits : view.kind.encode value = .ok bits)
    (hindex : index < view.length) (memory : Memory) :
    (view.set index value).perform memory = (.ok (), view.writeBits memory index bits) := by
  rw [perform_set, hbits]
  dsimp only
  rw [if_pos hindex]

theorem setAll_cons (view : View) (start : Nat) (value : Value) (rest : List Value) :
    view.setAll start (value :: rest)
      = view.set start value >>= fun _ => view.setAll (start + 1) rest := by
  rw [setAll, setAll, List.zipIdx_cons, Edit.forM_cons]

theorem setAll_append (view : View) (start : Nat) (values rest : List Value) :
    view.setAll start (values ++ rest)
      = view.setAll start values >>= fun _ => view.setAll (start + values.length) rest := by
  induction values generalizing start with
  | nil => rfl
  | cons value values ih =>
    rw [List.cons_append, setAll_cons, setAll_cons, ih, List.length_cons, bind_assoc,
      Nat.add_right_comm, Nat.add_assoc]

/-- Between the two memories, the lanes from `start` on have been given the patterns of values, and
nothing else has changed. -/
structure Written (memory after : Memory) (view : View) (start : Nat) (values : List Value) :
    Prop where
  sameOutside : memory.SameOutside after view.buffer (view.laneOffset start)
    (view.laneOffset (start + values.length))
  encode_eq : ∀ i value, values[i]? = some value →
    view.kind.encode value = .ok (view.laneBits after (start + i))

theorem Written.get? {values : List Value} {after : Memory} {start i : Nat} {value : Value}
    (h : Written memory after view start values)
    (hroom : start + values.length ≤ view.length) (hvalue : values[i]? = some value) :
    ∃ bits, view.kind.encode value = .ok bits ∧
      view.get? after (start + i) = some (view.kind.decode bits) := by
  have hi := (List.getElem?_eq_some_iff.mp hvalue).1
  exact ⟨_, h.encode_eq i value hvalue, get?_of_lt after (by omega)⟩

/-- Values that convert are all written, to consecutive lanes and nowhere else. No lane is written
twice, so each holds afterwards what was written to it. -/
theorem exists_setAll {values : List Value} (hview : view.Within memory)
    (hroom : start + values.length ≤ view.length)
    (hvalues : ∀ value ∈ values, ∃ bits, view.kind.encode value = .ok bits) :
    ∃ after, (view.setAll start values).perform memory = (.ok (), after) ∧
      Written memory after view start values := by
  induction values generalizing memory start with
  | nil => exact ⟨memory, rfl, fun _ _ _ => rfl, fun _ _ h => by cases h⟩
  | cons value rest ih =>
    rw [List.length_cons] at hroom
    obtain ⟨⟨bits, hbits⟩, hrest⟩ := List.forall_mem_cons.mp hvalues
    have hwritten := view.sameOutside_writeBits memory start bits
    obtain ⟨after, hafter, hsame, hlanes⟩ :=
      ih (hview.congr (view.byteLength_writeBits memory start bits))
        (show start + 1 + rest.length ≤ view.length by omega) hrest
    refine ⟨after, ?_, ?_, ?_⟩
    · rw [setAll_cons, Edit.perform_bind_ok (perform_set_of_lt hbits (by omega) memory)]
      exact hafter
    · rw [List.length_cons, show start + (rest.length + 1) = start + 1 + rest.length by omega]
      exact hwritten.append hsame (view.laneOffset_le_laneOffset (by omega))
        (view.laneOffset_le_laneOffset (by omega))
    · rintro (_ | i) v hv
      · obtain rfl : value = v := Option.some.inj hv
        rw [Nat.add_zero, laneBits_of_sameOutside hsame (.inl (Nat.le_refl _)),
          laneBits_writeBits_self hview (by omega) (LaneKind.encode_lt hbits), hbits]
      · rw [show start + (i + 1) = start + 1 + i by omega]
        exact hlanes i v hv

/-- The first value that does not convert ends the writing. What stands before it has been
written. -/
theorem exists_setAll_of_error {values : List Value} {value : Value} {e : EngineError}
    (hview : view.Within memory) (hroom : start + values.length ≤ view.length)
    (hvalues : ∀ value ∈ values, ∃ bits, view.kind.encode value = .ok bits)
    (he : view.kind.encode value = .error e) (rest : List Value) :
    ∃ after, (view.setAll start (values ++ value :: rest)).perform memory = (.error e, after) ∧
      Written memory after view start values := by
  obtain ⟨after, hafter, hwritten⟩ := exists_setAll hview hroom hvalues
  refine ⟨after, ?_, hwritten⟩
  rw [setAll_append, Edit.perform_bind_ok hafter, setAll_cons, Edit.perform_bind, perform_set, he]

end View

end ArrayEngine
