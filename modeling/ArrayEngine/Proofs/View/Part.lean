import ArrayEngine.Proofs.Position
import ArrayEngine.Proofs.View.Confined
import ArrayEngine.Proofs.View.Copy

/-!
# Parts of views

A part of a view has the same buffer and starts at one of the view's lanes. So its lanes are lanes
of the view, some lanes further on, and a part of a part is a part of the view again, with the
distances added. A slice has the bytes of a part in a buffer of its own, which shares nothing with
the view's buffer from then on.

## Main definitions

* `View.part`: lanes of a view from one lane on
* `View.Aliases`: the lanes of one view are lanes of another
* `View.Writes`, `View.Apart`: what is written through a view, and views that do not see it

## Main results

* `View.subview_eq_part`, `View.part_part`: relative positions, and parts of parts
* `View.getElem?_toList`, `View.toList_part`, `View.toList_slice`: which lanes are selected
* `View.aliases_part`: a part writes to the view
* `View.Writes.bytes_eq`: a slice does not
* `View.at?_eq`: reading at a relative position
* `View.Within.parts_exact`: all of this, for every view of up to `2 ^ 53` lanes
-/

namespace ArrayEngine

open Binary (Double towardZero)

/-- Bytes of a copied range are bytes of the range. -/
theorem Bytes.window_extract {data : Bytes} {start stop offset count : Nat}
    (hstop : stop ≤ data.size) (h : start + offset + count ≤ stop) :
    Bytes.window (data.extract start stop) offset count = data.window (start + offset) count := by
  refine List.ext_getElem? fun i => ?_
  rcases Nat.lt_or_ge i count with hi | hi
  · rw [getElem?_window _ _ hi, getElem?_window _ _ hi, Array.getD_eq_getD_getElem?,
      Array.getD_eq_getD_getElem?, Array.getElem?_extract_of_lt (by omega), Nat.add_assoc,
      Array.getElem?_eq_getElem (by omega)]
  · rw [List.getElem?_eq_none (by simpa using hi), List.getElem?_eq_none (by simpa using hi)]

namespace View

variable {memory : Memory} {view : View} {first count i : Nat}

/-! ### Lanes of a part -/

/-- The `count` lanes of a view from `first` on. -/
def part (view : View) (first count : Nat) : View :=
  { view with offset := view.laneOffset first, length := count }

theorem laneOffset_part (view : View) (first count i : Nat) :
    (view.part first count).laneOffset i = view.laneOffset (first + i) :=
  (view.laneOffset_add first i).symm

/-- Distances add up. -/
theorem part_part (view : View) (first count first' count' : Nat) :
    (view.part first count).part first' count' = view.part (first + first') count' := by
  rw [part, laneOffset_part]
  rfl

theorem subview_eq_part (hlength : view.length ≤ 2 ^ 53) (start : Double) (stop : Option Double) :
    view.subview start stop
      = view.part (relativePosition start view.length)
          (relativeEnd stop view.length - relativePosition start view.length) := by
  rw [subview, adjustIndex_eq_relativePosition hlength, adjustEnd_eq_relativeEnd hlength]
  rfl

theorem get?_part (hroom : first + count ≤ view.length) (hi : i < count) (memory : Memory) :
    (view.part first count).get? memory i = view.get? memory (first + i) := by
  rw [get?_of_lt memory (show first + i < view.length by omega)]
  rw [get?_of_lt memory (show i < (view.part first count).length from hi), laneBits, laneBits,
    laneOffset_part]
  rfl

/-- A write to a lane of a part is the write to that lane of the view. -/
theorem perform_set_part (hroom : first + count ≤ view.length) (hi : i < count) (value : Value)
    (memory : Memory) :
    ((view.part first count).set i value).perform memory
      = (view.set (first + i) value).perform memory := by
  have hpart : i < (view.part first count).length := hi
  have hview : first + i < view.length := by omega
  have hwrite : ∀ bits, (view.part first count).writeBits memory i bits
      = view.writeBits memory (first + i) bits := by
    intro bits
    rw [writeBits, writeBits, laneOffset_part]
    rfl
  simp only [perform_set, if_pos hpart, if_pos hview, hwrite]
  rfl

/-! ### Lists of lanes -/

theorem getElem?_toList (view : View) (memory : Memory) (i : Nat) :
    (view.toList memory)[i]? = view.get? memory i := by
  have hlanes : (List.range' 0 view.length).filterMap (view.get? memory)
      = (List.range' 0 view.length).map fun index =>
          view.kind.decode (view.laneBits memory index) :=
    filterMap_get? memory (Nat.zero_add _).le
  rw [toList, List.range_eq_range', hlanes, List.getElem?_map]
  rcases Nat.lt_or_ge i view.length with hi | hi
  · rw [List.getElem?_range' hi, get?_of_lt memory hi]
    simp
  · rw [List.getElem?_eq_none (by simpa using hi), get?_of_le memory hi]
    rfl

theorem toList_part (hroom : first + count ≤ view.length) (memory : Memory) :
    (view.part first count).toList memory = ((view.toList memory).drop first).take count := by
  refine List.ext_getElem? fun i => ?_
  rw [getElem?_toList, List.getElem?_take, List.getElem?_drop, getElem?_toList]
  split
  case isTrue hi => exact get?_part hroom hi memory
  case isFalse hi => exact get?_of_le memory (Nat.not_lt.mp hi)

/-! ### Writes to lanes -/

theorem get?_set_self (hview : view.Within memory) (hi : i < view.length) {value : Value}
    {bits : Nat} (hbits : view.kind.encode value = .ok bits) :
    view.get? ((view.set i value).perform memory).2 i = some (view.kind.decode bits) := by
  rw [perform_set_of_lt hbits hi, get?_of_lt _ hi,
    laneBits_writeBits_self hview hi (LaneKind.encode_lt hbits)]

theorem get?_set_of_ne {j : Nat} (hne : j ≠ i) (value : Value) (memory : Memory) :
    view.get? ((view.set i value).perform memory).2 j = view.get? memory j := by
  have hlane (bits : Nat) : view.laneBits (view.writeBits memory i bits) j
      = view.laneBits memory j := by
    refine laneBits_of_sameOutside (view.sameOutside_writeBits memory i bits) ?_
    rcases Nat.lt_or_gt_of_ne hne with hlt | hgt
    · exact .inl (view.laneOffset_le_laneOffset hlt)
    · exact .inr (view.laneOffset_le_laneOffset hgt)
  rw [perform_set]
  split
  · rfl
  · rename_i bits _
    split
    · rcases Nat.lt_or_ge j view.length with hj | hj
      · rw [get?_of_lt _ hj, get?_of_lt _ hj, hlane]
      · rw [get?_of_le _ hj, get?_of_le _ hj]
    · rfl

/-- The first view has `count` lanes, and its lane `i` is lane `first + i` of the second: it reads
what is there, and a write to it is a write there, which no other lane of the second view sees. -/
structure Aliases (part view : View) (first count : Nat) (memory : Memory) : Prop where
  length_eq : part.length = count
  get?_eq : ∀ i < count, part.get? memory i = view.get? memory (first + i)
  set_eq : ∀ i < count, ∀ value,
    (part.set i value).perform memory = (view.set (first + i) value).perform memory
  get?_set_self : ∀ i < count, ∀ value bits, view.kind.encode value = .ok bits →
    view.get? ((part.set i value).perform memory).2 (first + i) = some (view.kind.decode bits)
  get?_set_of_ne : ∀ i < count, ∀ value j, j ≠ first + i →
    view.get? ((part.set i value).perform memory).2 j = view.get? memory j
  outside : ∀ i, count ≤ i →
    part.get? memory i = none ∧ ∀ value, ((part.set i value).perform memory).2 = memory

theorem aliases_part (hview : view.Within memory) (hroom : first + count ≤ view.length) :
    (view.part first count).Aliases view first count memory where
  length_eq := rfl
  get?_eq _ hi := get?_part hroom hi memory
  set_eq _ hi value := perform_set_part hroom hi value memory
  get?_set_self i hi value bits hbits := by
    rw [perform_set_part hroom hi]
    exact View.get?_set_self hview (by omega) hbits
  get?_set_of_ne i hi value j hne := by
    rw [perform_set_part hroom hi]
    exact View.get?_set_of_ne hne value memory
  outside _ hi := by
    refine ⟨get?_of_le memory hi, fun value => ?_⟩
    rw [perform_set_of_le hi]

/-! ### Slices -/

theorem length_slice (view : View) (start : Double) (stop : Option Double) (memory : Memory) :
    (view.slice start stop memory).1.length = (view.subview start stop).length := rfl

theorem bytes_slice_self (view : View) (start : Double) (stop : Option Double) (memory : Memory) :
    (view.slice start stop memory).2.bytes (view.slice start stop memory).1.buffer
      = (memory.bytes view.buffer).extract (view.subview start stop).offset
          ((view.subview start stop).offset + (view.subview start stop).byteLength) :=
  Memory.bytes_alloc_self _

theorem laneBits_slice (hview : view.Within memory) (hlength : view.length ≤ 2 ^ 53)
    (start : Double) (stop : Option Double) (hi : i < (view.subview start stop).length) :
    (view.slice start stop memory).1.laneBits (view.slice start stop memory).2 i
      = (view.subview start stop).laneBits memory i := by
  have hpart := hview.subview_of_length_le hlength start stop
  have hlane : i * view.kind.size + view.kind.size ≤ (view.subview start stop).byteLength := by
    rw [← Nat.add_one_mul]
    exact Nat.mul_le_mul_right _ hi
  have hoffset : (view.slice start stop memory).1.laneOffset i = i * view.kind.size :=
    Nat.zero_add _
  have hwindow := Bytes.window_extract hpart.stop_le
    (show (view.subview start stop).offset + i * view.kind.size + view.kind.size
      ≤ (view.subview start stop).offset + (view.subview start stop).byteLength by omega)
  rw [laneBits, bytes_slice_self, hoffset]
  exact congrArg ByteOrder.little.number hwindow

/-- A slice holds the lanes of the part of which it is a copy. -/
theorem toList_slice (hview : view.Within memory) (hlength : view.length ≤ 2 ^ 53)
    (start : Double) (stop : Option Double) :
    (view.slice start stop memory).1.toList (view.slice start stop memory).2
      = (view.subview start stop).toList memory := by
  refine List.ext_getElem? fun i => ?_
  have hlengths := view.length_slice start stop memory
  rw [getElem?_toList, getElem?_toList]
  rcases Nat.lt_or_ge i (view.subview start stop).length with hi | hi
  · rw [get?_of_lt memory hi, get?_of_lt _ (hlengths ▸ hi), laneBits_slice hview hlength _ _ hi]
    rfl
  · rw [get?_of_le memory hi, get?_of_le _ (hlengths ▸ hi)]

/-- Edits that write through a view, or through a part of it. -/
inductive Writes : View → Edit Memory Unit → Prop
  | set {view : View} (index : Nat) (value : Value) : Writes view (view.set index value)
  | fill {view : View} (value : Value) (start : Double) (stop : Option Double) :
    Writes view (view.fill value start stop)
  | copyWithin {view : View} (target start : Double) (stop : Option Double) :
    Writes view (modify (view.copyWithin target start stop))
  | copyValues {view : View} (start : Nat) (values : List Value) (sourceStart count : Nat) :
    Writes view (view.copyValues start values sourceStart count)
  | copyView {view : View} (start : Nat) (source : View) (sourceStart count : Nat) :
    Writes view (view.copyView start source sourceStart count)
  | subview {view : View} {edit : Edit Memory Unit} (start : Double) (stop : Option Double)
    (h : Writes (view.subview start stop) edit) : Writes view edit

/-- What is written through a view leaves the bytes of every other buffer. -/
theorem Writes.bytes_eq {edit : Edit Memory Unit} (h : view.Writes edit) {b : BufferId}
    (hb : b ≠ view.buffer) (memory : Memory) :
    (edit.perform memory).2.bytes b = memory.bytes b := by
  have hkeeps : Edit.Keeps (·.bytes b = memory.bytes b) edit := by
    induction h with
    | set index value => exact keeps_set (Memory.unbroken_bytes hb _) index value
    | fill value start stop => exact keeps_fill (Memory.unbroken_bytes hb _) value start stop
    | copyWithin target start stop =>
      exact keeps_copyWithin (Memory.unbroken_bytes hb _) target start stop
    | copyValues start values sourceStart count =>
      exact keeps_copyValues (Memory.unbroken_bytes hb _) start values sourceStart count
    | copyView start source sourceStart count =>
      exact keeps_copyView (Memory.unbroken_bytes hb _) start source sourceStart count
    | subview start stop _ ih => exact ih hb
  exact hkeeps memory rfl

/-- Whatever is written through one of the views at any time, the buffer of the other keeps its
bytes. -/
def Apart (view other : View) : Prop :=
  ∀ edit memory,
    (view.Writes edit → (edit.perform memory).2.bytes other.buffer = memory.bytes other.buffer) ∧
    (other.Writes edit → (edit.perform memory).2.bytes view.buffer = memory.bytes view.buffer)

theorem apart_slice (hbuffer : view.buffer < memory.buffers.size) (start : Double)
    (stop : Option Double) : (view.slice start stop memory).1.Apart view := by
  have hne : (view.slice start stop memory).1.buffer ≠ view.buffer := Nat.ne_of_gt hbuffer
  exact fun edit memory =>
    ⟨fun hedit => hedit.bytes_eq hne.symm memory, fun hedit => hedit.bytes_eq hne memory⟩

/-! ### Relative positions -/

theorem at?_of_isInfinite (hlength : view.length ≤ 2 ^ 53) {position : Double}
    (h : position.isInfinite) (memory : Memory) : view.at? memory position = none := by
  have hgreat := two_pow_lt_units_of_isInfinite h
  refine at?_of_outside ?_
  rw [Double.toInt_of_not_isNaN (Double.not_isNaN_of_isInfinite h), Double.withSign]
  split <;> omega

/-- A view is read at the lane that a number denotes. -/
theorem at?_eq (hlength : view.length ≤ 2 ^ 53) (memory : Memory) (position : Double) :
    view.at? memory position
      = (relativeIndex? position view.length).bind (view.get? memory) := by
  cases hinfinite : position.isInfinite with
  | true =>
    rw [at?_of_isInfinite hlength hinfinite, relativeIndex?, if_pos hinfinite, Option.bind_none]
  | false =>
    have hn : (if position.isNaN then 0 else towardZero position.value) = position.toInt := by
      split
      · rename_i hnan
        exact (if_pos hnan).symm
      · rename_i hnan
        exact Double.towardZero_value (Bool.eq_false_of_not_eq_true hnan)
    simp only [at?, relativeIndex?, hinfinite, hn, Bool.false_eq_true, if_false]
    generalize (if position.toInt < 0 then view.length + position.toInt else position.toInt) = index
    rcases Int.lt_or_le index 0 with hneg | hpos
    · rw [if_pos hneg, if_neg (by omega), Option.bind_none]
    · rw [if_neg (by omega)]
      rcases Int.lt_or_le index view.length with hlt | hge
      · rw [if_pos ⟨hpos, hlt⟩, Option.bind_some]
      · rw [if_neg (by omega), Option.bind_none, get?_of_le memory (by omega)]

/-- **Parts select the right window.** A sub-view and a slice both list the lanes of a view from one
relative position up to another. Lane `i` of the sub-view is the view's lane `first + i`, and no
other one sees what is written to it; so it is with a sub-view of the sub-view, whose distance is
added. A slice and the view never see what is written through the other. A lane is read at a
relative position just if the number that is left without its fraction denotes one.

Every view that has been made over a buffer lies in it (`View.Made.within`), and so does every part
of a view of up to `2 ^ 53` lanes that does, however great the buffer is
(`View.Within.subview_of_length_le`). -/
theorem Within.parts_exact (hview : view.Within memory) (hlength : view.length ≤ 2 ^ 53)
    (hbuffer : view.buffer < memory.buffers.size) (start : Double) (stop : Option Double) :
    let first := relativePosition start view.length
    let count := relativeEnd stop view.length - first
    let lanes := ((view.toList memory).drop first).take count
    let part := view.subview start stop
    let copy := view.slice start stop memory
    part.toList memory = lanes ∧ copy.1.toList copy.2 = lanes ∧
      part.Aliases view first count memory ∧
      (∀ (start' : Double) (stop' : Option Double),
        let first' := relativePosition start' count
        (part.subview start' stop').Aliases view (first + first')
          (relativeEnd stop' count - first') memory) ∧
      copy.2.bytes view.buffer = memory.bytes view.buffer ∧ copy.1.Apart view ∧
      ∀ position : Double, view.at? memory position
        = (relativeIndex? position view.length).bind fun i => (view.toList memory)[i]? := by
  intro first count lanes part copy
  have hfirst := relativePosition_le start view.length
  have hlast := relativeEnd_le stop view.length
  have hroom : first + count ≤ view.length := by omega
  have hpart : part = view.part first count := subview_eq_part hlength start stop
  have hlanes : part.toList memory = lanes := hpart ▸ toList_part hroom memory
  refine ⟨hlanes, (toList_slice hview hlength start stop).trans hlanes,
    hpart ▸ aliases_part hview hroom, fun start' stop' => ?_, Memory.bytes_alloc _ hbuffer,
    apart_slice hbuffer start stop, fun position => ?_⟩
  · have hfirst' := relativePosition_le start' count
    have hlast' := relativeEnd_le stop' count
    have hcount : (view.part first count).length ≤ 2 ^ 53 := by
      show count ≤ 2 ^ 53
      omega
    have hroom' : first + relativePosition start' count
        + (relativeEnd stop' count - relativePosition start' count) ≤ view.length := by omega
    rw [hpart, subview_eq_part hcount, part_part]
    exact aliases_part hview hroom'
  · simp only [getElem?_toList]
    exact at?_eq hlength memory position

/-- The last two of three lanes behind the first bytes of a buffer, and the last of these again. -/
theorem Within.parts_exact_of_nested :
    let memory : Memory := ⟨#[#[1, 2, 3, 4, 5, 6, 7, 8]]⟩
    let view : View := ⟨0, .uint16, 2, 3⟩
    let part := view.subview (Double.ofInt (-2)) none
    view.Within memory ∧
      part.toList memory = [.number (Double.ofNat 0x0605), .number (Double.ofNat 0x0807)] ∧
      (part.subview (Double.ofNat 1) none).get? memory 0 = view.get? memory 2 ∧
      view.at? memory Double.infinity = none := by
  intro memory view part
  have hview : view.Within memory := ⟨by decide, by decide⟩
  have hfirst : relativePosition (Double.ofInt (-2)) view.length = 1 := by
    rw [← adjustIndex_eq_relativePosition (by decide)]
    decide +kernel
  have hfirst' : relativePosition (Double.ofNat 1) 2 = 1 := by
    rw [← adjustIndex_eq_relativePosition (by decide)]
    decide +kernel
  have hlast : relativeEnd none view.length = 3 := rfl
  obtain ⟨hlanes, -, -, hnested, -, -, hat⟩ :=
    hview.parts_exact (by decide) (by decide) (Double.ofInt (-2)) none
  simp only [hfirst, hlast, Nat.reduceSub] at hlanes hnested
  have halias := hnested (Double.ofNat 1) none
  simp only [hfirst'] at halias
  have hlane := halias.get?_eq 0 (by decide)
  have houtside : relativeIndex? Double.infinity view.length = none := if_pos (by decide)
  refine ⟨hview, hlanes.trans (by decide +kernel), hlane, ?_⟩
  rw [hat, houtside]
  rfl

end View

end ArrayEngine
