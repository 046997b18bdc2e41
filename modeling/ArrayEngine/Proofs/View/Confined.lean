import ArrayEngine.Proofs.View.Safe

/-!
# Views never leave their buffers

What can be had as a view lies in its buffer, and what is done with it stays there: no offset is
computed that is no word, and no byte outside the buffer is touched, whatever the index, the count
or the relative position. What is asked for outside a view is not there, is dropped, or is refused.

## Main definitions

* `View.NeverTraps`, `DataView.NeverTraps`: no step of an operation traps
* `View.IgnoresOutside`, `DataView.RefusesOutside`: what comes of requests outside a view

## Main results

* `View.Obtained.neverTraps`, `DataView.Obtained.neverTraps`
* `Memory.views_confined`: all views of a memory
-/

namespace ArrayEngine

open Binary (Double)

variable {memory : Memory}

/-! ### Requests outside a view -/

/-- A failure that is reported as one of range, with nothing changed. -/
def RefusedAsRange {α : Type} (edit : Edit Memory α) (memory : Memory) : Prop :=
  ∃ e : EngineError, edit.perform memory = (.error e, memory) ∧ e.category = .range

namespace View

/-- The operations of a view do what they do without a trap on the way. The length of a list of
values is a word. -/
structure NeverTraps (view : View) (memory : Memory) : Prop where
  get : ∀ index, view.trapGet memory index = some (view.get? memory index)
  relative : ∀ position : Double, view.trapAt memory position = some (view.at? memory position)
  set : ∀ index value, (view.trapSet index value).perform memory
    = some ((view.set index value).perform memory)
  subview : ∀ start stop, view.trapSubview start stop = some (view.subview start stop)
  slice : ∀ start stop, view.trapSlice start stop memory = some (view.slice start stop memory)
  fill : ∀ value start stop, (view.trapFill value start stop).perform memory
    = some ((view.fill value start stop).perform memory)
  copyWithin : ∀ target start stop, view.trapCopyWithin target start stop memory
    = some (view.copyWithin target start stop memory)
  copyValues : ∀ start values sourceStart count, values.length ≤ maxWord →
    (view.trapCopyValues start values sourceStart count).perform memory
      = some ((view.copyValues start values sourceStart count).perform memory)
  copyView : ∀ source : View, source.Obtained memory →
    memory.byteLength source.buffer ≤ 2 ^ 53 → ∀ start sourceStart count,
      (view.trapCopyView start source sourceStart count).perform memory
        = some ((view.copyView start source sourceStart count).perform memory)

/-- What is asked for outside a view is not there, is dropped, or is refused. A write converts its
value all the same, and fails if that does. -/
structure IgnoresOutside (view : View) (memory : Memory) : Prop where
  get : ∀ index, view.length ≤ index → view.get? memory index = none
  relative : ∀ position : Double, (position.toInt < -view.length ∨ view.length ≤ position.toInt) →
    view.at? memory position = none
  set : ∀ index value, view.length ≤ index → (view.set index value).perform memory
    = ((view.kind.encode value).map fun _ => (), memory)
  subview : ∀ (start : Double) stop, view.length ≤ start.toInt →
    (view.subview start stop).length = 0
  fill : ∀ value (start : Double) stop, view.length ≤ start.toInt →
    (view.fill value start stop).perform memory
      = ((view.kind.encode value).map fun _ => (), memory)
  copyWithin : ∀ (target start : Double) stop,
    (view.length ≤ target.toInt ∨ view.length ≤ start.toInt) →
      view.copyWithin target start stop memory = memory
  copyValues : ∀ start (values : List Value) sourceStart count,
    (view.length < start + count ∨ values.length < sourceStart + count) →
      RefusedAsRange (view.copyValues start values sourceStart count) memory
  copyView : ∀ start (source : View) sourceStart count,
    (view.length < start + count ∨
        source.kind.isBigInt = view.kind.isBigInt ∧ source.length < sourceStart + count) →
      RefusedAsRange (view.copyView start source sourceStart count) memory

variable {view : View}

theorem Obtained.neverTraps (h : view.Obtained memory)
    (hsize : memory.byteLength view.buffer ≤ 2 ^ 53) : view.NeverTraps memory := by
  have hview := h.within hsize
  exact
    { get := trapGet_eq hview hsize
      relative := trapAt_eq hview hsize
      set := perform_trapSet hview hsize
      subview := trapSubview_eq hview hsize
      slice := trapSlice_eq hview hsize
      fill := perform_trapFill hview hsize
      copyWithin := trapCopyWithin_eq hview hsize
      copyValues := fun start _ sourceStart count hvalues =>
        perform_trapCopyValues hview hsize start hvalues sourceStart count
      copyView := fun _ hsource hsourceSize =>
        perform_trapCopyView hview hsize (hsource.within hsourceSize) hsourceSize }

theorem copyWithin_of_le (hlength : view.length ≤ 2 ^ 53) {target start : Double}
    {stop : Option Double} (h : view.length ≤ target.toInt ∨ view.length ≤ start.toInt) :
    view.copyWithin target start stop memory = memory := by
  have hstop := adjustEnd_le hlength stop
  have hcount : min (adjustEnd stop view.length - adjustIndex start view.length)
      (view.length - adjustIndex target view.length) = 0 := by
    rcases h with htarget | hstart
    · rw [adjustIndex_of_le hlength htarget]
      omega
    · rw [adjustIndex_of_le hlength hstart]
      omega
  simp only [View.copyWithin, hcount, Nat.zero_mul]
  exact Memory.modify_eq_self rfl

theorem fill_of_le (hlength : view.length ≤ 2 ^ 53) (value : Value) {start : Double}
    {stop : Option Double} (h : view.length ≤ start.toInt) :
    (view.fill value start stop).perform memory
      = ((view.kind.encode value).map fun _ => (), memory) := by
  have hstop := adjustEnd_le hlength stop
  rw [perform_fill, adjustIndex_of_le hlength h, Nat.sub_eq_zero_of_le hstop]
  cases view.kind.encode value with
  | error e => rfl
  | ok bits => rfl

theorem copyValues_of_lt {start : Nat} {values : List Value} {sourceStart count : Nat}
    (h : view.length < start + count ∨ values.length < sourceStart + count) :
    RefusedAsRange (view.copyValues start values sourceStart count) memory := by
  rw [RefusedAsRange, copyValues]
  split
  · exact ⟨_, rfl, rfl⟩
  · rename_i htarget
    rw [if_pos (h.resolve_left htarget)]
    exact ⟨_, rfl, rfl⟩

theorem copyView_of_lt {start : Nat} {source : View} {sourceStart count : Nat}
    (h : view.length < start + count ∨
      source.kind.isBigInt = view.kind.isBigInt ∧ source.length < sourceStart + count) :
    RefusedAsRange (view.copyView start source sourceStart count) memory := by
  rw [RefusedAsRange, copyView]
  split
  · exact ⟨_, rfl, rfl⟩
  · rename_i htarget
    obtain ⟨hkinds, hsource⟩ := h.resolve_left htarget
    rw [if_neg (by simp [hkinds]), if_pos hsource]
    exact ⟨_, rfl, rfl⟩

theorem at?_of_outside {position : Double}
    (h : position.toInt < -view.length ∨ view.length ≤ position.toInt) :
    view.at? memory position = none := by
  simp only [at?]
  split_ifs with hneg hindex
  · rfl
  · omega
  · exact if_neg (by omega)

theorem perform_set_of_le {index : Nat} (h : view.length ≤ index) (value : Value) :
    (view.set index value).perform memory
      = ((view.kind.encode value).map fun _ => (), memory) := by
  rw [perform_set]
  simp only [if_neg (Nat.not_lt.mpr h)]
  cases view.kind.encode value with
  | error e => rfl
  | ok bits => rfl

theorem ignoresOutside (hlength : view.length ≤ 2 ^ 53) : view.IgnoresOutside memory where
  get := fun index h => if_neg (Nat.not_lt.mpr h)
  relative := fun _ h => at?_of_outside h
  set := fun _ value h => perform_set_of_le h value
  subview := fun start stop h => by
    have hstop := adjustEnd_le hlength stop
    simp only [View.subview, adjustIndex_of_le hlength h]
    omega
  fill := fun value _ _ h => fill_of_le hlength value h
  copyWithin := fun _ _ _ h => copyWithin_of_le hlength h
  copyValues := fun _ _ _ _ h => copyValues_of_lt h
  copyView := fun _ _ _ _ h => copyView_of_lt h

end View

/-! ### Data views -/

namespace DataView

/-- The accesses of a data view do what they do without a trap on the way. -/
structure NeverTraps (view : DataView) (memory : Memory) : Prop where
  get : ∀ position kind order,
    view.trapGet memory position kind order = some (view.get memory position kind order)
  set : ∀ position kind value order, (view.trapSet position kind value order).perform memory
    = some ((view.set position kind value order).perform memory)

/-- Lanes that do not lie in the data view are refused. A write converts its value first, and fails
otherwise if that does. -/
structure RefusesOutside (view : DataView) (memory : Memory) : Prop where
  get : ∀ position (kind : LaneKind) order, view.length < position + kind.size →
    ∃ e : EngineError, view.get memory position kind order = .error e ∧ e.category = .range
  set : ∀ position (kind : LaneKind) value order, view.length < position + kind.size →
    ∀ bits, kind.encode value = .ok bits →
      RefusedAsRange (view.set position kind value order) memory
  unconverted : ∀ position (kind : LaneKind) value order e, kind.encode value = .error e →
    (view.set position kind value order).perform memory = (.error e, memory)

variable {view : DataView}

theorem Obtained.neverTraps (h : view.Obtained memory)
    (hsize : memory.byteLength view.buffer ≤ maxWord) : view.NeverTraps memory where
  get := trapGet_eq h.stop_le hsize
  set := perform_trapSet h.stop_le hsize

theorem lane?_of_lt {position : Nat} {kind : LaneKind} (h : view.length < position + kind.size) :
    view.lane? position kind = none := if_neg (Nat.not_le.mpr h)

theorem refusesOutside (view : DataView) (memory : Memory) : view.RefusesOutside memory where
  get := by
    intro position kind order h
    exact ⟨.outsideDataView, by rw [get, lane?_of_lt h], rfl⟩
  set := by
    intro position kind value order h bits hbits
    refine ⟨.outsideDataView, ?_, rfl⟩
    rw [perform_set, hbits, lane?_of_lt h]
  unconverted := by
    intro position kind value order e he
    rw [perform_set, he]

end DataView

/-! ### All views of a memory -/

/-- **Views never leave their buffers.** A view can be made exactly if it fits the buffer in terms
of numbers that know no bound, also where the test is computed on words. A view that has just been
made lies in its buffer. Every view that can be had starts at a multiple of its lane size; if its
buffer has up to `2 ^ 53` bytes, it ends within the buffer, none of its operations traps, and
requests outside it change nothing. -/
theorem Memory.views_confined (memory : Memory) :
    (∀ buffer kind offset length,
      ((∃ view, View.ofBuffer memory buffer kind offset length = .ok view) ↔
        View.Fits memory buffer kind offset length) ∧
      (memory.byteLength buffer ≤ maxWord →
        View.ofWords memory buffer kind offset length
          = View.ofBuffer memory buffer kind offset length)) ∧
    (∀ buffer offset length,
      (∃ view, DataView.ofBuffer memory buffer offset length = .ok view) ↔
        DataView.Fits memory buffer offset length) ∧
    (∀ view : View, view.Made memory → view.Within memory) ∧
    (∀ view : View, view.Obtained memory →
      view.offset % view.kind.size = 0 ∧
      (memory.byteLength view.buffer ≤ 2 ^ 53 →
        view.offset + view.length * view.kind.size ≤ memory.byteLength view.buffer ∧
          view.NeverTraps memory ∧ view.IgnoresOutside memory)) ∧
    (∀ view : DataView, view.Obtained memory →
      view.offset + view.length ≤ memory.byteLength view.buffer ∧
        (memory.byteLength view.buffer ≤ maxWord → view.NeverTraps memory) ∧
          view.RefusesOutside memory) := by
  refine ⟨fun buffer kind offset length => ⟨View.exists_ofBuffer_iff,
      fun hsize => View.ofWords_eq hsize kind offset length⟩,
    fun buffer offset length => DataView.exists_ofBuffer_iff, fun view h => h.within,
    fun view h => ⟨h.aligned, ?_⟩,
    fun view h => ⟨h.stop_le, h.neverTraps, view.refusesOutside memory⟩⟩
  intro hsize
  have hview := h.within hsize
  exact ⟨hview.stop_le, h.neverTraps hsize, View.ignoresOutside (View.length_le hview hsize)⟩

/-- The second half of a view of all four bytes. -/
theorem Memory.views_confined_of_four :
    let memory : Memory := ⟨#[#[1, 2, 3, 4]]⟩
    let view : View := ⟨0, .int16, 2, 1⟩
    view.Obtained memory ∧ view.NeverTraps memory ∧ view.get? memory 1 = none := by
  have hwhole : View.ofBuffer ⟨#[#[1, 2, 3, 4]]⟩ 0 .int16 0 none = .ok ⟨0, .int16, 0, 2⟩ := rfl
  have hhalf : (⟨0, .int16, 0, 2⟩ : View).subview (Double.ofNat 1) none = ⟨0, .int16, 2, 1⟩ := by
    decide +kernel
  have hview : View.Obtained ⟨0, .int16, 2, 1⟩ ⟨#[#[1, 2, 3, 4]]⟩ :=
    hhalf ▸ .subview (.made (.ofBuffer hwhole)) (Double.ofNat 1) none
  obtain ⟨-, -, -, hviews, -⟩ := Memory.views_confined ⟨#[#[1, 2, 3, 4]]⟩
  obtain ⟨-, hconfined⟩ := hviews _ hview
  obtain ⟨-, hnever, hignores⟩ := hconfined (by decide)
  exact ⟨hview, hnever, hignores.get 1 (Nat.le_refl _)⟩

/-- The number nearest to `2 ^ 53 + 3` is `2 ^ 53 + 4`: in a buffer of so many bytes there is a part
that starts one byte behind the end. -/
theorem View.obtained_outside_of_rounded :
    let memory : Memory := ⟨#[Array.replicate (2 ^ 53 + 3) 0]⟩
    let part := View.subview ⟨0, .uint8, 0, 2 ^ 53 + 3⟩ Double.infinity none
    part.Obtained memory ∧
      memory.byteLength part.buffer < part.offset + part.length * part.kind.size := by
  have hsize : Memory.byteLength ⟨#[Array.replicate (2 ^ 53 + 3) 0]⟩ 0 = 2 ^ 53 + 3 :=
    Array.size_replicate
  have houtside := View.obtained_outside hsize (by decide +kernel) (by decide +kernel)
  exact ⟨houtside.1, hsize.trans_lt houtside.2⟩

end ArrayEngine
