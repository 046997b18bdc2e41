import ArrayEngine.Proofs.Edit
import ArrayEngine.Proofs.Lane.Bytes
import ArrayEngine.Proofs.View.Trapping

/-!
# Views lie in their buffers

A view is tested against the size of its buffer once, when it is made over the buffer. From then on
nothing is tested: a part of a view lies in the view, and a buffer keeps its size whatever is
written to it, so that the view lies in its buffer in every later memory.

## Implementation notes

A part is given by positions that are clamped to a length as a number. A length beyond `2 ^ 53` may
be rounded upwards when it becomes one, so that a part of a view over a buffer of more bytes than
that need not lie in the buffer.

## Main definitions

* `Memory.Unbroken`: what is left alone by changes to the bytes of one buffer
* `View.Made`: views that are not made from others
* `View.Obtained`, `DataView.Obtained`: views that can be had in a memory
* `View.Within`, `DataView.Within`: views that lie in their buffers

## Main results

* `View.keeps_set`, …, `View.keeps_copyWithin`: what writes through a view leave alone
* `View.exists_ofBuffer_iff`, `DataView.exists_ofBuffer_iff`: which views can be made
* `View.Made.within`, `View.Obtained.aligned`, `View.Obtained.within`
* `View.obtained_outside`: the bound in the last of these is needed
-/

namespace ArrayEngine

open Binary (Double)

variable {memory memory' : Memory} {buffer : BufferId}

/-! ### Sizes of buffers -/

namespace Memory

/-- A change that keeps sizes gives nothing to a buffer that does not exist. -/
theorem bytes_modify {f : Bytes → Bytes} (hf : ∀ data, (f data).size = data.size) (b : BufferId) :
    (memory.modify buffer f).bytes b
      = if b = buffer then f (memory.bytes b) else memory.bytes b := by
  simp only [bytes, modify, Array.getD_eq_getD_getElem?, Array.getElem?_modify]
  rcases eq_or_ne b buffer with rfl | hb
  · rw [if_pos rfl, if_pos rfl]
    cases memory.buffers[b]? with
    | none => exact (Array.eq_empty_of_size_eq_zero (hf #[])).symm
    | some data => rfl
  · rw [if_neg hb, if_neg hb.symm]

theorem byteLength_modify {f : Bytes → Bytes} (hf : ∀ data, (f data).size = data.size) :
    (memory.modify buffer f).byteLength = memory.byteLength := by
  funext b
  rw [byteLength, bytes_modify hf]
  split
  · exact hf _
  · rfl

theorem byteLength_of_size_le (h : memory.buffers.size ≤ buffer) :
    memory.byteLength buffer = 0 := by
  rw [byteLength, bytes, Array.getD_eq_getD_getElem?, Array.getElem?_eq_none h]
  rfl

theorem bytes_alloc_self (bytes : Bytes) :
    (memory.alloc bytes).2.bytes (memory.alloc bytes).1 = bytes := by
  simp [alloc, Memory.bytes]

theorem bytes_alloc (bytes : Bytes) (h : buffer < memory.buffers.size) :
    (memory.alloc bytes).2.bytes buffer = memory.bytes buffer := by
  simp [alloc, Memory.bytes, Array.getElem?_push, Nat.ne_of_lt h]

theorem byteLength_alloc_self (bytes : Bytes) :
    (memory.alloc bytes).2.byteLength (memory.alloc bytes).1 = bytes.size :=
  congrArg Array.size (bytes_alloc_self bytes)

theorem byteLength_alloc (bytes : Bytes) (h : buffer < memory.buffers.size) :
    (memory.alloc bytes).2.byteLength buffer = memory.byteLength buffer :=
  congrArg Array.size (bytes_alloc bytes h)

/-- The second memory is the first at a later time: buffers are never freed, and keep their
sizes. -/
def Later (memory memory' : Memory) : Prop :=
  ∀ buffer < memory.buffers.size, memory'.byteLength buffer = memory.byteLength buffer

theorem later_of_eq (h : memory'.byteLength = memory.byteLength) : memory.Later memory' :=
  fun buffer _ => congrFun h buffer

theorem later_alloc (bytes : Bytes) : memory.Later (memory.alloc bytes).2 :=
  fun _ => byteLength_alloc bytes

/-- What lay in a buffer lies in it later. -/
theorem Later.le_byteLength (h : memory.Later memory') {n : Nat}
    (hn : n ≤ memory.byteLength buffer) : n ≤ memory'.byteLength buffer := by
  rcases Nat.lt_or_ge buffer memory.buffers.size with hlt | hge
  · rwa [h buffer hlt]
  · rw [byteLength_of_size_le hge] at hn
    omega

theorem Later.byteLength_le (h : memory.Later memory') :
    memory.byteLength buffer ≤ memory'.byteLength buffer :=
  h.le_byteLength (Nat.le_refl _)

end Memory

/-! ### What edits of one buffer keep -/

variable {I : Memory → Prop}

namespace Memory

/-- An invariant that no change of the bytes of one buffer breaks, as long as its size is kept. -/
def Unbroken (buffer : BufferId) (I : Memory → Prop) : Prop :=
  ∀ (memory : Memory) (f : Bytes → Bytes), (∀ data, (f data).size = data.size) →
    I memory → I (memory.modify buffer f)

theorem unbroken_byteLength (buffer : BufferId) (sizes : BufferId → Nat) :
    Unbroken buffer (·.byteLength = sizes) := fun _ _ hf h => (byteLength_modify hf).trans h

theorem unbroken_bytes {b : BufferId} (hb : b ≠ buffer) (data : Bytes) :
    Unbroken buffer (·.bytes b = data) := by
  intro memory f hf h
  rw [bytes_modify hf, if_neg hb, h]

end Memory

namespace View

theorem perform_set (view : View) (index : Nat) (value : Value) (memory : Memory) :
    (view.set index value).perform memory =
      match view.kind.encode value with
      | .error e => (.error e, memory)
      | .ok bits =>
        (.ok (), if index < view.length then view.writeBits memory index bits else memory) := rfl

theorem perform_fill (view : View) (value : Value) (start : Double) (stop : Option Double)
    (memory : Memory) :
    (view.fill value start stop).perform memory =
      match view.kind.encode value with
      | .error e => (.error e, memory)
      | .ok bits =>
        (.ok (), (List.range' (adjustIndex start view.length)
          (adjustEnd stop view.length - adjustIndex start view.length)).foldl
            (fun memory index => view.writeBits memory index bits) memory) := rfl

section Keeps

variable {view : View} (hI : Memory.Unbroken view.buffer I)

include hI

theorem keeps_set (index : Nat) (value : Value) : Edit.Keeps I (view.set index value) := by
  intro memory hmemory
  rw [perform_set]
  split
  · exact hmemory
  · split
    · exact hI memory _ (fun _ => Bytes.size_write _ _ _) hmemory
    · exact hmemory

theorem keeps_setAll (start : Nat) (values : List Value) :
    Edit.Keeps I (view.setAll start values) :=
  .forM fun _ _ => keeps_set hI _ _

theorem keeps_copyValues (start : Nat) (values : List Value) (sourceStart count : Nat) :
    Edit.Keeps I (view.copyValues start values sourceStart count) := by
  rw [copyValues]
  split
  · exact .throw _
  · split
    · exact .throw _
    · exact keeps_setAll hI _ _

theorem keeps_copyView (start : Nat) (source : View) (sourceStart count : Nat) :
    Edit.Keeps I (view.copyView start source sourceStart count) := by
  simp only [copyView]
  split
  · exact .throw _
  split
  · exact .throw _
  split
  · exact .throw _
  refine .get ?_
  intro memory _
  split
  · exact .modify fun memory hmemory => hI memory _ (fun _ => Bytes.size_write _ _ _) hmemory
  · exact keeps_setAll hI _ _

theorem keeps_fill (value : Value) (start : Double) (stop : Option Double) :
    Edit.Keeps I (view.fill value start stop) := by
  intro memory hmemory
  rw [perform_fill]
  split
  · exact hmemory
  · exact List.foldlRecOn _ _ hmemory fun memory hmemory _ _ =>
      hI memory _ (fun _ => Bytes.size_write _ _ _) hmemory

theorem keeps_copyWithin (target start : Double) (stop : Option Double) :
    Edit.Keeps I (modify (view.copyWithin target start stop)) :=
  .modify fun memory hmemory => hI memory _ (fun _ => Bytes.size_write _ _ _) hmemory

end Keeps

theorem byteLength_writeBits (view : View) (memory : Memory) (index bits : Nat) :
    (view.writeBits memory index bits).byteLength = memory.byteLength :=
  Memory.byteLength_modify fun _ => Bytes.size_write _ _ _

end View

namespace DataView

theorem perform_set (view : DataView) (position : Nat) (kind : LaneKind) (value : Value)
    (order : ByteOrder) (memory : Memory) :
    (view.set position kind value order).perform memory =
      match kind.encode value with
      | .error e => (.error e, memory)
      | .ok bits =>
        match view.lane? position kind with
        | none => (.error .outsideDataView, memory)
        | some offset =>
          (.ok (), memory.modify view.buffer (·.writeLane offset kind.size order bits)) := rfl

theorem keeps_set {view : DataView} (hI : Memory.Unbroken view.buffer I) (position : Nat)
    (kind : LaneKind) (value : Value) (order : ByteOrder) :
    Edit.Keeps I (view.set position kind value order) := by
  intro memory hmemory
  rw [perform_set]
  split
  · exact hmemory
  · split
    · exact hmemory
    · exact hI memory _ (fun _ => Bytes.size_write _ _ _) hmemory

end DataView

/-! ### Typed views -/

namespace View

/-- Which views of a buffer there are, in terms of numbers that know no bound. -/
def Fits (memory : Memory) (buffer : BufferId) (kind : LaneKind) (offset : Nat)
    (length : Option Nat) : Prop :=
  offset % kind.size = 0 ∧
    match length with
    | some length => offset + length * kind.size ≤ memory.byteLength buffer
    | none => offset ≤ memory.byteLength buffer ∧
        (memory.byteLength buffer - offset) % kind.size = 0

theorem ofBuffer_eq_ok_iff {kind : LaneKind} {offset : Nat} {length : Option Nat} {view : View} :
    ofBuffer memory buffer kind offset length = .ok view ↔
      Fits memory buffer kind offset length ∧
        view = ⟨buffer, kind, offset,
          length.getD ((memory.byteLength buffer - offset) / kind.size)⟩ := by
  cases length with
  | some length =>
    simp only [ofBuffer, Fits]
    split_ifs <;> grind
  | none =>
    simp only [ofBuffer, Fits]
    split_ifs <;> grind

/-- A view can be made exactly if it starts at a multiple of the lane size and ends within the
buffer, and without a length if the rest of the buffer is a whole number of lanes. -/
theorem exists_ofBuffer_iff {kind : LaneKind} {offset : Nat} {length : Option Nat} :
    (∃ view, ofBuffer memory buffer kind offset length = .ok view) ↔
      Fits memory buffer kind offset length := by
  simp only [ofBuffer_eq_ok_iff, exists_and_left, exists_eq, and_true]

/-- In a buffer whose size is a word, a length whose number of bytes is no word is too great
anyway. -/
theorem ofWords_eq (h : memory.byteLength buffer ≤ maxWord) (kind : LaneKind) (offset : Nat)
    (length : Option Nat) :
    ofWords memory buffer kind offset length = ofBuffer memory buffer kind offset length := by
  cases length with
  | none => rfl
  | some length =>
    simp only [ofWords, ofBuffer, Word.mul?, Word.add?]
    split_ifs <;> grind

/-- A view that starts at a multiple of its lane size and ends within its buffer. -/
structure Within (view : View) (memory : Memory) : Prop where
  aligned : view.offset % view.kind.size = 0
  stop_le : view.offset + view.length * view.kind.size ≤ memory.byteLength view.buffer

/-- A view that has just been made, over a buffer or with a buffer of its own. -/
inductive Made : View → Memory → Prop
  | ofBuffer {memory : Memory} {buffer : BufferId} {kind : LaneKind} {offset : Nat}
      {length : Option Nat} {view : View}
      (h : View.ofBuffer memory buffer kind offset length = .ok view) : Made view memory
  | zeroed {memory memory' : Memory} {kind : LaneKind} {length : Nat} {view : View}
      (h : (View.zeroed kind length).perform memory = (.ok view, memory')) : Made view memory'
  | ofValues {memory memory' : Memory} {kind : LaneKind} {values : List Value} {view : View}
      (h : (View.ofValues kind values).perform memory = (.ok view, memory')) : Made view memory'

/-- A view that can be had in a memory: just made or part of another, at this time or earlier. A
slice is had if the bytes of the part can be read. -/
inductive Obtained : View → Memory → Prop
  | made {memory : Memory} {view : View} (h : view.Made memory) : Obtained view memory
  | subview {memory : Memory} {view : View} (h : Obtained view memory) (start : Double)
      (stop : Option Double) : Obtained (view.subview start stop) memory
  | slice {memory : Memory} {view : View} (h : Obtained view memory) (start : Double)
      (stop : Option Double) (hreturns : (view.trapSlice start stop memory).isSome) :
      Obtained (view.slice start stop memory).1 (view.slice start stop memory).2
  | later {memory memory' : Memory} {view : View} (h : Obtained view memory)
      (hlater : memory.Later memory') : Obtained view memory'

theorem Within.later {view : View} (h : view.Within memory) (hlater : memory.Later memory') :
    view.Within memory' := ⟨h.aligned, hlater.le_byteLength h.stop_le⟩

/-- Whether a view lies in its buffer is a matter of sizes. -/
theorem Within.congr {view : View} (h : view.Within memory)
    (hsizes : memory'.byteLength = memory.byteLength) : view.Within memory' :=
  h.later (Memory.later_of_eq hsizes)

theorem laneOffset_add (view : View) (index count : Nat) :
    view.laneOffset (index + count) = view.laneOffset index + count * view.kind.size := by
  rw [laneOffset, laneOffset, Nat.add_mul, Nat.add_assoc]

/-- Lanes of a view lie in the buffer. -/
theorem laneOffset_add_le {view : View} (h : view.Within memory) (index count : Nat)
    (hcount : index + count ≤ view.length) :
    view.laneOffset index + count * view.kind.size ≤ memory.byteLength view.buffer :=
  calc view.laneOffset index + count * view.kind.size
      = view.offset + (index + count) * view.kind.size := (view.laneOffset_add index count).symm
    _ ≤ view.offset + view.length * view.kind.size :=
        Nat.add_le_add_left (Nat.mul_le_mul_right _ hcount) _
    _ ≤ memory.byteLength view.buffer := h.stop_le

theorem laneOffset_add_size_le {view : View} (h : view.Within memory) {index : Nat}
    (hindex : index < view.length) :
    view.laneOffset index + view.kind.size ≤ memory.byteLength view.buffer := by
  simpa using laneOffset_add_le h index 1 hindex

theorem within_of_ofBuffer {kind : LaneKind} {offset : Nat} {length : Option Nat} {view : View}
    (h : View.ofBuffer memory buffer kind offset length = .ok view) : view.Within memory := by
  obtain ⟨⟨haligned, hfits⟩, rfl⟩ := ofBuffer_eq_ok_iff.mp h
  refine ⟨haligned, ?_⟩
  cases length with
  | some length => exact hfits
  | none =>
    dsimp only [Option.getD_none]
    rw [Nat.div_mul_cancel (Nat.dvd_of_mod_eq_zero hfits.2)]
    omega

/-- A part of a view starts at a multiple of the lane size if the view does. -/
theorem aligned_subview {view : View} (h : view.offset % view.kind.size = 0) (start : Double)
    (stop : Option Double) :
    (view.subview start stop).offset % (view.subview start stop).kind.size = 0 := by
  rw [subview, Nat.add_mul_mod_self_right]
  exact h

theorem length_le {view : View} (hview : view.Within memory)
    (hsize : memory.byteLength view.buffer ≤ 2 ^ 53) : view.length ≤ 2 ^ 53 := by
  have := Nat.le_mul_of_pos_right view.length view.kind.size_pos
  have := hview.stop_le
  omega

/-- A part of a view that is not too long lies in its buffer, however great that is. -/
theorem Within.subview_of_length_le {view : View} (h : view.Within memory)
    (hlength : view.length ≤ 2 ^ 53) (start : Double) (stop : Option Double) :
    (view.subview start stop).Within memory := by
  have hstart := adjustIndex_le hlength start
  have hstop := adjustEnd_le hlength stop
  refine ⟨aligned_subview h.aligned start stop, ?_⟩
  dsimp only [View.subview]
  calc view.offset + adjustIndex start view.length * view.kind.size
        + (adjustEnd stop view.length - adjustIndex start view.length) * view.kind.size
      = view.offset + (adjustIndex start view.length
          + (adjustEnd stop view.length - adjustIndex start view.length)) * view.kind.size := by
        rw [Nat.add_assoc, ← Nat.add_mul]
    _ ≤ view.offset + view.length * view.kind.size :=
        Nat.add_le_add_left (Nat.mul_le_mul_right _ (by omega)) _
    _ ≤ memory.byteLength view.buffer := h.stop_le

theorem Within.subview {view : View} (h : view.Within memory)
    (hsize : memory.byteLength view.buffer ≤ 2 ^ 53) (start : Double) (stop : Option Double) :
    (view.subview start stop).Within memory :=
  h.subview_of_length_le (length_le h hsize) start stop

theorem within_of_zeroed {kind : LaneKind} {length : Nat} {view : View}
    (h : (View.zeroed kind length).perform memory = (.ok view, memory')) :
    view.Within memory' := by
  simp only [Edit.perform, ExceptT.run, StateT.run, zeroed] at h
  split at h
  · cases h
  · obtain ⟨rfl, rfl⟩ : view = ⟨(memory.allocZeroed (length * kind.size)).1, kind, 0, length⟩ ∧
        memory' = (memory.allocZeroed (length * kind.size)).2 := by
      cases h
      exact ⟨rfl, rfl⟩
    refine ⟨Nat.zero_mod _, ?_⟩
    dsimp only
    rw [Memory.allocZeroed, Memory.byteLength_alloc_self, Array.size_replicate, Nat.zero_add]

theorem within_of_ofValues {kind : LaneKind} {values : List Value} {view : View}
    (h : (View.ofValues kind values).perform memory = (.ok view, memory')) :
    view.Within memory' := by
  rw [ofValues, Edit.perform_bind] at h
  cases hzeroed : (zeroed kind values.length).perform memory with
  | mk r filled =>
    rw [hzeroed] at h
    cases r with
    | error e => cases h
    | ok empty =>
      have hkeeps : ((empty.copyValues 0 values 0 values.length).perform filled).2.byteLength
          = filled.byteLength :=
        keeps_copyValues (Memory.unbroken_byteLength _ _) _ _ _ _ filled rfl
      dsimp only at h
      rw [Edit.perform_bind] at h
      generalize (empty.copyValues 0 values 0 values.length).perform filled = p at h hkeeps
      obtain ⟨_ | _, after⟩ := p
      · cases h
      · cases h
        exact (within_of_zeroed hzeroed).later (Memory.later_of_eq hkeeps)

theorem eq_of_trapOffset {view : View} {lanes n : Nat} (h : view.trapOffset lanes = some n) :
    n = view.offset + lanes * view.kind.size := by
  simp only [trapOffset, Word.mul?, Word.add?, Option.bind_eq_bind, Option.bind_eq_some_iff,
    Option.ite_none_right_eq_some, Option.some.injEq] at h
  obtain ⟨_, ⟨-, rfl⟩, -, rfl⟩ := h
  rfl

theorem eq_of_trapSubview {view part : View} {start : Double} {stop : Option Double}
    (h : view.trapSubview start stop = some part) : part = view.subview start stop := by
  simp only [trapSubview, Option.bind_eq_bind, Option.bind_eq_some_iff, Option.pure_def,
    Option.some.injEq] at h
  obtain ⟨offset, hoffset, rfl⟩ := h
  rw [subview, eq_of_trapOffset hoffset]

/-- The bytes of a part can be read only if it ends within the buffer. -/
theorem stop_le_of_trapSlice {view : View} {start : Double} {stop : Option Double}
    (h : (view.trapSlice start stop memory).isSome) :
    (view.subview start stop).offset + (view.subview start stop).byteLength
      ≤ memory.byteLength view.buffer := by
  obtain ⟨_, h⟩ := Option.isSome_iff_exists.mp h
  simp only [trapSlice, Option.bind_eq_bind, Option.bind_eq_some_iff] at h
  obtain ⟨part, hpart, n, hn, bytes, hbytes, -⟩ := h
  obtain rfl := eq_of_trapSubview hpart
  obtain rfl := eq_of_trapOffset hn
  rw [Bytes.slice?, Option.ite_none_right_eq_some] at hbytes
  exact hbytes.1.2

/-- A slice fills its own buffer. -/
theorem within_slice {view : View} {start : Double} {stop : Option Double}
    (h : (view.trapSlice start stop memory).isSome) :
    (view.slice start stop memory).1.Within (view.slice start stop memory).2 := by
  have hstop := stop_le_of_trapSlice h
  refine ⟨Nat.zero_mod _, ?_⟩
  simp only [slice, Memory.byteLength_alloc_self, Array.size_extract]
  refine Nat.le_sub_of_add_le (Nat.le_min.mpr ⟨?_, Nat.le_trans ?_ hstop⟩) <;>
    rw [byteLength] <;> omega

/-! ### What can be had -/

/-- A view that has just been made ends within its buffer, however great that is. -/
theorem Made.within {view : View} (h : view.Made memory) : view.Within memory := by
  cases h with
  | ofBuffer h => exact within_of_ofBuffer h
  | zeroed h => exact within_of_zeroed h
  | ofValues h => exact within_of_ofValues h

/-- Every view starts at a multiple of its lane size. -/
theorem Obtained.aligned {view : View} (h : view.Obtained memory) :
    view.offset % view.kind.size = 0 := by
  induction h with
  | made h => exact h.within.aligned
  | subview _ start stop ih => exact aligned_subview ih start stop
  | slice _ start stop _ => exact Nat.zero_mod _
  | later _ _ ih => exact ih

/-- Every view of a buffer of up to `2 ^ 53` bytes ends within it. -/
theorem Obtained.within {view : View} (h : view.Obtained memory)
    (hsize : memory.byteLength view.buffer ≤ 2 ^ 53) : view.Within memory := by
  induction h with
  | made h => exact h.within
  | subview _ start stop ih => exact (ih hsize).subview hsize start stop
  | slice _ start stop hreturns => exact within_slice hreturns
  | later _ hlater ih => exact (ih (hlater.byteLength_le.trans hsize)).later hlater

/-- A part may start beyond the end of a buffer whose size is rounded upwards as it becomes a
number: the empty part from infinity on of all its bytes. -/
theorem obtained_outside {size : Nat} (hsize : memory.byteLength buffer = size)
    (hrounded : size < (Double.ofNat size).toInt) (hword : (Double.ofNat size).toInt ≤ maxWord) :
    let part := View.subview ⟨buffer, .uint8, 0, size⟩ Double.infinity none
    part.Obtained memory ∧ size < part.offset + part.length * part.kind.size := by
  have hwhole : View.ofBuffer memory buffer .uint8 0 none = .ok ⟨buffer, .uint8, 0, size⟩ := by
    simp [ofBuffer, hsize, LaneKind.size, Nat.mod_one]
  have hposition : size < adjustIndex Double.infinity size := by
    have hinfinity : (maxWord : Int) ≤ Double.infinity.toInt := by decide +kernel
    simp only [adjustIndex]
    rw [if_neg (by omega)]
    omega
  refine ⟨.subview (.made (.ofBuffer hwhole)) Double.infinity none, ?_⟩
  simp only [subview, LaneKind.size]
  omega

end View

/-! ### Data views -/

namespace DataView

/-- Which data views of a buffer there are. -/
def Fits (memory : Memory) (buffer : BufferId) (offset : Nat) (length : Option Nat) : Prop :=
  match length with
  | some length => offset + length ≤ memory.byteLength buffer
  | none => offset ≤ memory.byteLength buffer

theorem ofBuffer_eq_ok_iff {offset : Nat} {length : Option Nat} {view : DataView} :
    ofBuffer memory buffer offset length = .ok view ↔
      Fits memory buffer offset length ∧
        view = ⟨buffer, offset, length.getD (memory.byteLength buffer - offset)⟩ := by
  cases length with
  | some length =>
    simp only [ofBuffer, Fits]
    split_ifs <;> grind
  | none =>
    simp only [ofBuffer, Fits]
    split_ifs <;> grind

/-- A data view can be made exactly if it ends within the buffer. -/
theorem exists_ofBuffer_iff {offset : Nat} {length : Option Nat} :
    (∃ view, ofBuffer memory buffer offset length = .ok view) ↔
      Fits memory buffer offset length := by
  simp only [ofBuffer_eq_ok_iff, exists_and_left, exists_eq, and_true]

/-- A data view that can be had in a memory: made at this time or earlier. -/
def Obtained (view : DataView) (memory : Memory) : Prop :=
  ∃ earlier : Memory, earlier.Later memory ∧
    ∃ buffer offset length, ofBuffer earlier buffer offset length = .ok view

/-- Every data view ends within its buffer. -/
theorem Obtained.stop_le {view : DataView} (h : view.Obtained memory) :
    view.offset + view.length ≤ memory.byteLength view.buffer := by
  obtain ⟨earlier, hlater, buffer, offset, length, hview⟩ := h
  obtain ⟨hfits, rfl⟩ := ofBuffer_eq_ok_iff.mp hview
  refine hlater.le_byteLength ?_
  cases length with
  | some length => exact hfits
  | none => exact (Nat.add_sub_cancel' hfits).le

end DataView

end ArrayEngine
