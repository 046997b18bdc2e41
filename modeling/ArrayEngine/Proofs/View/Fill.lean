import ArrayEngine.Proofs.Position
import ArrayEngine.Proofs.View.Confined
import ArrayEngine.Proofs.View.Copy

/-!
# Filling lanes and moving them within a view

A fill converts its value once, before it looks at any lane, and so fails for a value that does not
convert even if there is no lane to fill. Otherwise it leaves what writing the value to each lane by
itself leaves.

Lanes that are moved within a view hold afterwards what the others held before, whether the two
ranges overlap or not and whichever of them is in front, since all bytes are read before any is
written.

Both take relative positions. These are clamped to the length of the view, and what they leave is
said in terms of the index that each of them denotes.

## Main definitions

* `View.Moved`: lanes of a view have been moved to others

## Main results

* `View.perform_forM_set`, `View.setAll_replicate`: one value written to a range of lanes
* `View.Obtained.written_fill`, `View.Obtained.moved_copyWithin`: what either leaves
* `View.Obtained.filled_and_moved`: both, for every view of a buffer of up to `2 ^ 53` bytes
-/

namespace ArrayEngine.View

open Binary (Double)

variable {memory after : Memory} {view : View}

/-! ### One value in each lane of a range -/

theorem setAll_replicate (view : View) (first count : Nat) (value : Value) :
    view.setAll first (List.replicate count value)
      = (List.range' first count).forM fun index => view.set index value := by
  induction count generalizing first with
  | zero => rfl
  | succ count ih =>
    rw [List.replicate_succ, List.range'_succ, setAll_cons, Edit.forM_cons, ih]

/-- Writes to lanes of the view are writes of the pattern that the value converts to. -/
theorem perform_forM_set {value : Value} {bits : Nat} (hbits : view.kind.encode value = .ok bits)
    {indices : List Nat} (hindices : ∀ index ∈ indices, index < view.length) (memory : Memory) :
    (indices.forM fun index => view.set index value).perform memory
      = (.ok (), indices.foldl (fun memory index => view.writeBits memory index bits) memory) := by
  induction indices generalizing memory with
  | nil => rfl
  | cons index rest ih =>
    obtain ⟨hindex, hrest⟩ := List.forall_mem_cons.mp hindices
    rw [Edit.forM_cons, Edit.perform_bind_ok (perform_set_of_lt hbits hindex memory), ih hrest,
      List.foldl_cons]

/-- A fill is a write to each lane between its positions, if its value converts. -/
theorem perform_fill_eq_forM {value : Value} {bits : Nat}
    (hbits : view.kind.encode value = .ok bits) (hlength : view.length ≤ 2 ^ 53) (start : Double)
    (stop : Option Double) (memory : Memory) :
    (view.fill value start stop).perform memory
      = ((List.range' (relativePosition start view.length)
          (relativeEnd stop view.length - relativePosition start view.length)).forM
            fun index => view.set index value).perform memory := by
  have hlanes : ∀ index ∈ List.range' (relativePosition start view.length)
      (relativeEnd stop view.length - relativePosition start view.length),
      index < view.length := by
    intro index hindex
    have hstop := relativeEnd_le stop view.length
    rw [List.mem_range'_1] at hindex
    omega
  rw [perform_forM_set hbits hlanes, perform_fill, hbits,
    adjustIndex_eq_relativePosition hlength, adjustEnd_eq_relativeEnd hlength]

/-- A fill fails exactly if its value does not convert, and then changes nothing. Otherwise it
leaves what writing the value to each of the lanes leaves: they all hold its pattern. -/
theorem Obtained.written_fill (h : view.Obtained memory)
    (hsize : memory.byteLength view.buffer ≤ 2 ^ 53) (value : Value) (start : Double)
    (stop : Option Double) :
    let first := relativePosition start view.length
    let count := relativeEnd stop view.length - first
    (∀ e, (view.fill value start stop).perform memory = (.error e, memory) ↔
        view.kind.encode value = .error e) ∧
      ∀ bits, view.kind.encode value = .ok bits →
        ∃ after, (view.fill value start stop).perform memory = (.ok (), after) ∧
          ((List.range' first count).forM fun index => view.set index value).perform memory
            = (.ok (), after) ∧
          Written memory after view first (List.replicate count value) := by
  intro first count
  have hview := h.within hsize
  have hlength := length_le hview hsize
  have hstart := relativePosition_le start view.length
  have hstop := relativeEnd_le stop view.length
  constructor
  · intro e
    rw [perform_fill]
    cases view.kind.encode value with
    | error e' => simp
    | ok bits => simp
  · intro bits hbits
    obtain ⟨after, hafter, hwritten⟩ :
        ∃ after, (view.setAll first (List.replicate count value)).perform memory
            = (.ok (), after) ∧
          Written memory after view first (List.replicate count value) :=
      exists_setAll hview (by rw [List.length_replicate]; omega)
        fun v hv => ⟨bits, by rwa [List.eq_of_mem_replicate hv]⟩
    rw [setAll_replicate] at hafter
    exact ⟨after, (perform_fill_eq_forM hbits hlength start stop memory).trans hafter, hafter,
      hwritten⟩

/-! ### Lanes moved within a view -/

/-- Between the two memories, the bytes of `count` lanes of the view from `first` on have been moved
to the lanes from `destination` on. -/
structure Moved (memory after : Memory) (view : View) (destination first count : Nat) : Prop where
  /-- Each of the lanes holds the bytes that the other held before. -/
  window_eq : ∀ i < count,
    (after.bytes view.buffer).window (view.laneOffset (destination + i)) view.kind.size
      = (memory.bytes view.buffer).window (view.laneOffset (first + i)) view.kind.size
  /-- All other bytes, of this buffer and of others, are as before. -/
  sameOutside : memory.SameOutside after view.buffer (view.laneOffset destination)
    (view.laneOffset (destination + count))
  byteLength_eq : after.byteLength = memory.byteLength

/-- The bytes that are moved are those that the buffer held before. -/
theorem copyWithin_eq_moveLanes (hlength : view.length ≤ 2 ^ 53) (target start : Double)
    (stop : Option Double) (memory : Memory) :
    view.copyWithin target start stop memory
      = moveLanes memory view (relativePosition target view.length) view
          (relativePosition start view.length)
          (min (relativeEnd stop view.length - relativePosition start view.length)
            (view.length - relativePosition target view.length)) := by
  simp only [copyWithin, moveLanes, adjustIndex_eq_relativePosition hlength,
    adjustEnd_eq_relativeEnd hlength]
  refine congrArg Memory.mk (Array.ext_getElem? fun i => ?_)
  rw [Array.getElem?_modify, Array.getElem?_modify]
  split
  case isTrue hi =>
    subst hi
    rw [Memory.bytes, Array.getD_eq_getD_getElem?]
    cases memory.buffers[view.buffer]? with
    | none => rfl
    | some data => rfl
  case isFalse => rfl

theorem moved_moveLanes (hview : view.Within memory) {destination first count : Nat}
    (hroom : destination + count ≤ view.length) :
    Moved memory (moveLanes memory view destination view first count) view destination first
      count where
  window_eq _ hi := window_moveLanes hview rfl hroom first hi
  sameOutside := sameOutside_moveLanes memory view destination view first count
  byteLength_eq := Memory.byteLength_modify fun _ => Bytes.size_write _ _ _

/-- As many lanes are moved as there are between the positions and as there is room for. -/
theorem Obtained.moved_copyWithin (h : view.Obtained memory)
    (hsize : memory.byteLength view.buffer ≤ 2 ^ 53) (target start : Double)
    (stop : Option Double) :
    let destination := relativePosition target view.length
    let first := relativePosition start view.length
    let last := relativeEnd stop view.length
    Moved memory (view.copyWithin target start stop memory) view destination first
      (min (last - first) (view.length - destination)) := by
  intro destination first last
  have hview := h.within hsize
  have htarget := relativePosition_le target view.length
  rw [copyWithin_eq_moveLanes (length_le hview hsize)]
  exact moved_moveLanes hview (by omega)

/-- **Lanes are filled and moved exactly.** Every view of a buffer of up to `2 ^ 53` bytes is filled
as by single writes, and lanes are moved within it as through a copy of all of them. No step of
either traps. -/
theorem Obtained.filled_and_moved (h : view.Obtained memory)
    (hsize : memory.byteLength view.buffer ≤ 2 ^ 53) :
    (∀ (value : Value) (start : Double) (stop : Option Double),
        let first := relativePosition start view.length
        let count := relativeEnd stop view.length - first
        (view.trapFill value start stop).perform memory
            = some ((view.fill value start stop).perform memory) ∧
          (∀ e, (view.fill value start stop).perform memory = (.error e, memory) ↔
            view.kind.encode value = .error e) ∧
          ∀ bits, view.kind.encode value = .ok bits →
            ∃ after, (view.fill value start stop).perform memory = (.ok (), after) ∧
              ((List.range' first count).forM fun index => view.set index value).perform memory
                = (.ok (), after) ∧
              Written memory after view first (List.replicate count value)) ∧
      ∀ (target start : Double) (stop : Option Double),
        let destination := relativePosition target view.length
        let first := relativePosition start view.length
        let last := relativeEnd stop view.length
        view.trapCopyWithin target start stop memory
            = some (view.copyWithin target start stop memory) ∧
          Moved memory (view.copyWithin target start stop memory) view destination first
            (min (last - first) (view.length - destination)) := by
  have hreturns := h.neverTraps hsize
  exact ⟨fun value start stop =>
      ⟨hreturns.fill value start stop, h.written_fill hsize value start stop⟩,
    fun target start stop =>
      ⟨hreturns.copyWithin target start stop, h.moved_copyWithin hsize target start stop⟩⟩

/-- Three lanes that do not start the buffer, moved by one lane onto themselves, and the last two of
them filled. -/
theorem Obtained.filled_and_moved_of_overlap :
    let memory : Memory := ⟨#[#[1, 2, 3, 4, 5, 6, 7, 8, 9]]⟩
    let view : View := ⟨0, .uint16, 2, 3⟩
    view.Obtained memory ∧ memory.byteLength view.buffer ≤ 2 ^ 53 ∧
      Moved memory (view.copyWithin (Double.ofNat 1) (Double.ofNat 0) none memory) view 1 0 2 ∧
      view.copyWithin (Double.ofNat 1) (Double.ofNat 0) none memory
        = ⟨#[#[1, 2, 3, 4, 3, 4, 5, 6, 9]]⟩ ∧
      ∃ after, (view.fill .null (Double.ofInt (-2)) none).perform memory = (.ok (), after) ∧
        Written memory after view 1 [.null, .null] := by
  intro memory view
  have hview : view.Obtained memory :=
    .made (.ofBuffer (show View.ofBuffer memory 0 .uint16 2 (some 3) = .ok view by rfl))
  have hsize : memory.byteLength view.buffer ≤ 2 ^ 53 := by decide
  have hzero : relativePosition (Double.ofNat 0) view.length = 0 := by
    rw [← adjustIndex_eq_relativePosition (by decide)]
    decide +kernel
  have hone : relativePosition (Double.ofNat 1) view.length = 1 := by
    rw [← adjustIndex_eq_relativePosition (by decide)]
    decide +kernel
  have hlast : relativePosition (Double.ofInt (-2)) view.length = 1 := by
    rw [← adjustIndex_eq_relativePosition (by decide)]
    decide +kernel
  obtain ⟨hfill, hmove⟩ := hview.filled_and_moved hsize
  obtain ⟨-, hmoved⟩ := hmove (Double.ofNat 1) (Double.ofNat 0) none
  obtain ⟨-, -, hfilled⟩ := hfill .null (Double.ofInt (-2)) none
  obtain ⟨after, hperform, -, hwritten⟩ := hfilled 0 (by decide +kernel)
  rw [hone, hzero] at hmoved
  rw [hlast] at hwritten
  exact ⟨hview, hsize, hmoved, by decide +kernel, after, hperform, hwritten⟩

end ArrayEngine.View
