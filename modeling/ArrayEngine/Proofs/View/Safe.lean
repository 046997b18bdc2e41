import ArrayEngine.Proofs.View.Within

/-!
# What may trap in a view does not

The form of an operation in which every step may trap does what the operation does, for views that
lie in their buffers: each offset is at most the size of the buffer, which is a word, and each slice
ends where the view does or before.

An edit changes no size, so that views lie in their buffers from its first step to its last.

## Main results

* `View.trapGet_eq`, `View.trapAt_eq`, `View.trapSlice_eq`, `View.trapCopyWithin_eq`
* `View.perform_trapSet`, `View.perform_trapFill`, `View.perform_trapCopyView`,
  `View.perform_trapCopyValues`: edits
* `DataView.trapGet_eq`, `DataView.perform_trapSet`
-/

namespace ArrayEngine

open Binary (Double)

variable {memory : Memory}

/-! ### Arithmetic and slices -/

namespace Word

theorem add?_eq {m n : Nat} (h : m + n ≤ maxWord) : add? m n = some (m + n) := if_pos h

theorem mul?_eq {m n : Nat} (h : m * n ≤ maxWord) : mul? m n = some (m * n) := if_pos h

theorem sub?_eq {m n : Nat} (h : n ≤ m) : sub? m n = some (m - n) := if_pos h

theorem exceeds_eq {length : Nat} (h : length ≤ maxWord) (start count : Nat) :
    exceeds start count length = decide (length < start + count) := by
  rw [exceeds, add?]
  split_ifs with hword
  · rfl
  · exact (decide_eq_true (by omega)).symm

end Word

namespace Bytes

theorem slice?_eq {data : Bytes} {start count : Nat} (h : start + count ≤ data.size) :
    data.slice? start (start + count) = some (data.window start count) := by
  rw [slice?, if_pos ⟨Nat.le_add_right _ _, h⟩, Nat.add_sub_cancel_left]

theorem overwrite?_eq {data : Bytes} {start count : Nat} {bytes : List UInt8}
    (h : start + count ≤ data.size) (hlength : bytes.length = count) :
    data.overwrite? start (start + count) bytes = some (data.write start bytes) := by
  rw [overwrite?, if_pos ⟨Nat.le_add_right _ _, h, by rw [hlength, Nat.add_sub_cancel_left]⟩]

theorem move?_eq {data : Bytes} {start count target : Nat} (h : start + count ≤ data.size)
    (htarget : target + count ≤ data.size) :
    data.move? start (start + count) target = some (data.copyWithin start target count) := by
  rw [move?, Nat.add_sub_cancel_left, if_pos ⟨Nat.le_add_right _ _, h, htarget⟩]

end Bytes

theorem Memory.modify?_eq {buffer : BufferId} {f : Bytes → Option Bytes} {g : Bytes → Bytes}
    (h : f (memory.bytes buffer) = some (g (memory.bytes buffer))) :
    memory.modify? buffer f = some (memory.modify buffer g) := by
  rw [modify?, h, Option.map_some]
  refine congrArg (some ∘ Memory.mk) (Array.ext_getElem? fun i => ?_)
  simp only [Array.getElem?_modify]
  split
  · rename_i hi
    subst hi
    simp only [bytes, Array.getD_eq_getD_getElem?]
    cases memory.buffers[buffer]? <;> rfl
  · rfl

theorem Memory.modify_eq_self {buffer : BufferId} {f : Bytes → Bytes}
    (h : f (memory.bytes buffer) = memory.bytes buffer) : memory.modify buffer f = memory := by
  refine congrArg Memory.mk (Array.ext_getElem? fun i => ?_)
  rw [Array.getElem?_modify]
  split
  case isTrue hi =>
    subst hi
    rw [Memory.bytes, Array.getD_eq_getD_getElem?] at h
    cases hbytes : memory.buffers[buffer]? with
    | none => rfl
    | some data =>
      rw [hbytes, Option.getD_some] at h
      rw [Option.map_some, h]
  case isFalse => rfl

/-! ### Edits -/

namespace Trapping

variable {α β : Type}

@[simp] theorem perform_pure (a : α) (memory : Memory) :
    (pure a : Trapping α).perform memory = some (.ok a, memory) := rfl

@[simp] theorem perform_throw (e : EngineError) (memory : Memory) :
    (throw e : Trapping α).perform memory = some (.error e, memory) := rfl

@[simp] theorem perform_ofExcept (r : Except EngineError α) (memory : Memory) :
    (MonadExcept.ofExcept r : Trapping α).perform memory = some (r, memory) := by
  cases r <;> rfl

theorem perform_bind (edit : Trapping α) (next : α → Trapping β) (memory : Memory) :
    (edit >>= next).perform memory =
      match edit.perform memory with
      | some (.ok a, later) => (next a).perform later
      | some (.error e, later) => some (.error e, later)
      | none => none := by
  simp only [perform, ExceptT.run, bind, ExceptT.bind, ExceptT.mk, StateT.run, StateT.bind,
    ExceptT.bindCont]
  cases edit memory with
  | none => rfl
  | some p =>
    obtain ⟨r, later⟩ := p
    cases r <;> rfl

theorem perform_bind_ok {edit : Trapping α} {a : α} {memory later : Memory}
    (h : edit.perform memory = some (.ok a, later)) (next : α → Trapping β) :
    (edit >>= next).perform memory = (next a).perform later := by
  rw [perform_bind, h]

theorem forM_cons (x : β) (xs : List β) (f : β → Trapping Unit) :
    (x :: xs).forM f = f x >>= fun _ => xs.forM f := rfl

theorem perform_get_bind (next : Memory → Trapping β) (memory : Memory) :
    (get >>= next).perform memory = (next memory).perform memory := by
  rw [perform_bind]
  rfl

/-- A step that does not trap. -/
theorem perform_lift_bind {o : Option α} {a : α} (h : o = some a) (next : α → Trapping β)
    (memory : Memory) :
    ((liftM o : Trapping α) >>= next).perform memory = (next a).perform memory := by
  subst h
  exact perform_bind_ok rfl next

theorem perform_change {f : Memory → Option Memory} {memory later : Memory}
    (h : f memory = some later) : (change f).perform memory = some (.ok (), later) := by
  rw [change, perform_get_bind, perform_lift_bind h]
  rfl

end Trapping

/-! ### Typed views -/

namespace View

variable {view source : View}

section Lanes

variable (hview : view.Within memory) (hsize : memory.byteLength view.buffer ≤ 2 ^ 53)

include hview hsize

theorem trapOffset_eq {lanes : Nat} (h : lanes ≤ view.length) :
    view.trapOffset lanes = some (view.laneOffset lanes) := by
  have hle := laneOffset_add_le hview lanes 0 h
  have hword := two_pow_le_maxWord
  rw [laneOffset] at hle
  rw [trapOffset, Word.mul?_eq (by omega), Option.bind_eq_bind, Option.bind_some,
    Word.add?_eq (by omega), laneOffset]

theorem trapLane_eq {index : Nat} (h : index < view.length) :
    view.trapLane index
      = some (view.laneOffset index, view.laneOffset index + view.kind.size) := by
  have hle := laneOffset_add_size_le hview h
  have hword := two_pow_le_maxWord
  simp only [trapLane, trapOffset_eq hview hsize h.le, Word.add?_eq (hle.trans (hsize.trans hword)),
    Option.bind_eq_bind, Option.bind_some, Option.pure_def]

theorem trapGet_eq (index : Nat) : view.trapGet memory index = some (view.get? memory index) := by
  rw [trapGet, get?]
  rcases Nat.lt_or_ge index view.length with hlt | hge
  · simp only [Nat.not_le.mpr hlt, hlt, if_true, if_false, trapLane_eq hview hsize hlt,
      Bytes.slice?_eq (laneOffset_add_size_le hview hlt), Option.bind_eq_bind, Option.bind_some,
      Option.pure_def]
    rfl
  · simp only [hge, Nat.not_lt.mpr hge, if_true, if_false]
    rfl

theorem trapWriteBits_eq {index : Nat} (h : index < view.length) (bits : Nat) :
    view.trapWriteBits memory index bits = some (view.writeBits memory index bits) := by
  rw [trapWriteBits, trapLane_eq hview hsize h, Option.bind_eq_bind, Option.bind_some]
  exact Memory.modify?_eq (Bytes.overwrite?_eq (laneOffset_add_size_le hview h)
    (ByteOrder.length_bytes _ _ _))

/-- A position that is an integer already. -/
theorem trapGet_of_int (index : Int) :
    (if index < 0 ∨ view.length ≤ index then pure none
      else view.trapGet memory (min index.toNat maxWord))
      = some (if index < 0 then none else view.get? memory index.toNat) := by
  have hlength := length_le hview hsize
  have hword := two_pow_le_maxWord
  rcases Int.lt_or_le index 0 with hneg | hpos
  · rw [if_pos (.inl hneg), if_pos hneg]
    rfl
  · rw [if_neg (Int.not_lt.mpr hpos)]
    rcases Int.lt_or_le index view.length with hlt | hge
    · rw [if_neg (by omega), Nat.min_eq_left (by omega), trapGet_eq hview hsize]
    · rw [if_pos (.inr hge), get?, if_neg (by omega)]
      rfl

/-- The sum of two doubles is exact where it is a position, and negative where the exact sum is. -/
theorem trapAt_eq (position : Double) :
    view.trapAt memory position = some (view.at? memory position) := by
  have hlength := length_le hview hsize
  simp only [trapAt, at?, toInt_ofNat hlength]
  rcases Int.lt_or_le position.toInt 0 with hneg | hpos
  · simp only [if_pos hneg]
    rcases Int.lt_or_le (view.length + position.toInt) 0 with hout | hin
    · rw [if_pos (.inl (toInt_ofInt_neg hout)), if_pos hout]
      rfl
    · rw [Double.toInt_ofInt (by omega)]
      exact trapGet_of_int hview hsize _
  · have hget := trapGet_of_int hview hsize position.toInt
    rw [if_neg (Int.not_lt.mpr hpos)] at hget
    simpa only [if_neg (Int.not_lt.mpr hpos)] using hget

/-! ### Edits of lanes -/

theorem perform_trapSet (index : Nat) (value : Value) :
    (view.trapSet index value).perform memory = some ((view.set index value).perform memory) := by
  rw [trapSet, Trapping.perform_bind, Trapping.perform_ofExcept, perform_set]
  cases view.kind.encode value with
  | error e => rfl
  | ok bits =>
    dsimp only
    rcases Nat.lt_or_ge index view.length with hlt | hge
    · rw [if_neg (Nat.not_le.mpr hlt), if_pos hlt]
      exact Trapping.perform_change (trapWriteBits_eq hview hsize hlt bits)
    · rw [if_pos hge, if_neg (Nat.not_lt.mpr hge)]
      rfl

omit hview hsize in
theorem perform_forM_trapSet {start : Nat} {values : List Value} :
    ∀ {memory : Memory} {first : Nat}, view.Within memory →
      memory.byteLength view.buffer ≤ 2 ^ 53 → start + first + values.length ≤ view.length →
      ((values.zipIdx first).forM fun (value, i) => do
          view.trapSet (← Word.add? start i) value : Trapping Unit).perform memory
        = some ((view.setAll (start + first) values).perform memory) := by
  unfold setAll
  induction values with
  | nil =>
    intro memory first hview hsize h
    rfl
  | cons value rest ih =>
    intro memory first hview hsize h
    rw [List.length_cons] at h
    have hlength := length_le hview hsize
    have hword := two_pow_le_maxWord
    have hkeeps : ((view.set (start + first) value).perform memory).2.byteLength
        = memory.byteLength := keeps_set (Memory.unbroken_byteLength _ _) _ _ memory rfl
    have hfirst : ((do view.trapSet (← Word.add? start first) value) : Trapping Unit).perform memory
        = some ((view.set (start + first) value).perform memory) := by
      rw [Trapping.perform_lift_bind (Word.add?_eq (by omega)), perform_trapSet hview hsize]
    rw [List.zipIdx_cons, List.zipIdx_cons, Edit.forM_cons, Trapping.forM_cons,
      Edit.perform_bind, Trapping.perform_bind]
    dsimp only
    rw [hfirst]
    generalize (view.set (start + first) value).perform memory = p at hkeeps
    obtain ⟨_ | _, later⟩ := p
    · rfl
    · exact ih (hview.congr hkeeps) (hkeeps ▸ hsize) (by omega)

/-- The index of every lane that is written is a word. -/
theorem perform_trapSetAll {start : Nat} {values : List Value}
    (h : start + values.length ≤ view.length) :
    (view.trapSetAll start values).perform memory
      = some ((view.setAll start values).perform memory) :=
  perform_forM_trapSet hview hsize h

/-! ### Parts -/

theorem trapSubview_eq (start : Double) (stop : Option Double) :
    view.trapSubview start stop = some (view.subview start stop) := by
  have hstart := adjustIndex_le (length_le hview hsize) start
  rw [trapSubview, trapOffset_eq hview hsize hstart]
  rfl

theorem trapSlice_eq (start : Double) (stop : Option Double) :
    view.trapSlice start stop memory = some (view.slice start stop memory) := by
  have hpart := hview.subview hsize start stop
  rw [trapSlice, trapSubview_eq hview hsize, Option.bind_eq_bind, Option.bind_some,
    trapOffset_eq hpart hsize (Nat.le_refl _)]
  simp only [Option.bind_eq_bind, Option.bind_some, laneOffset, Bytes.slice?_eq hpart.stop_le,
    Bytes.toArray_window hpart.stop_le]
  rfl

/-! ### Filling and copying -/

omit hview hsize in
theorem foldlM_trapWriteBits {indices : List Nat} (bits : Nat) :
    ∀ {memory : Memory}, view.Within memory → memory.byteLength view.buffer ≤ 2 ^ 53 →
      (∀ index ∈ indices, index < view.length) →
      indices.foldlM (fun memory index => view.trapWriteBits memory index bits) memory
        = some (indices.foldl (fun memory index => view.writeBits memory index bits) memory) := by
  induction indices with
  | nil =>
    intro memory hview hsize h
    rfl
  | cons index rest ih =>
    intro memory hview hsize h
    obtain ⟨hindex, hrest⟩ := List.forall_mem_cons.mp h
    have hsizes := view.byteLength_writeBits memory index bits
    rw [List.foldlM_cons, trapWriteBits_eq hview hsize hindex]
    exact ih (hview.congr hsizes) (hsizes ▸ hsize) hrest

theorem perform_trapFill (value : Value) (start : Double) (stop : Option Double) :
    (view.trapFill value start stop).perform memory
      = some ((view.fill value start stop).perform memory) := by
  rw [trapFill, Trapping.perform_bind, Trapping.perform_ofExcept, perform_fill]
  cases view.kind.encode value with
  | error e => rfl
  | ok bits =>
    refine Trapping.perform_change (foldlM_trapWriteBits bits hview hsize ?_)
    intro index hindex
    have hstop := adjustEnd_le (length_le hview hsize) stop
    rw [List.mem_range'_1] at hindex
    omega

theorem trapCopyWithin_eq (target start : Double) (stop : Option Double) :
    view.trapCopyWithin target start stop memory
      = some (view.copyWithin target start stop memory) := by
  have hlength := length_le hview hsize
  have htarget := adjustIndex_le hlength target
  have hstart := adjustIndex_le hlength start
  have hstop := adjustEnd_le hlength stop
  rw [trapCopyWithin, copyWithin]
  simp only [Word.sub?_eq htarget, Option.bind_eq_bind, Option.bind_some]
  split
  · rename_i hcount
    rw [hcount, Memory.modify_eq_self]
    · rfl
    · rw [Nat.zero_mul]
      rfl
  · generalize hcount : min (adjustEnd stop view.length - adjustIndex start view.length)
      (view.length - adjustIndex target view.length) = count
    have hsource := laneOffset_add_le hview (adjustIndex start view.length) count (by omega)
    have hdestination := laneOffset_add_le hview (adjustIndex target view.length) count (by omega)
    have hword := two_pow_le_maxWord
    rw [trapOffset_eq hview hsize hstart, trapOffset_eq hview hsize htarget, Option.bind_some,
      Word.mul?_eq (by omega), Option.bind_some, Word.add?_eq (by omega), Option.bind_some,
      Option.bind_some]
    exact Memory.modify?_eq (Bytes.move?_eq hsource hdestination)

theorem perform_trapCopyValues (start : Nat) {values : List Value}
    (hvalues : values.length ≤ maxWord) (sourceStart count : Nat) :
    (view.trapCopyValues start values sourceStart count).perform memory
      = some ((view.copyValues start values sourceStart count).perform memory) := by
  have hlength := length_le hview hsize
  have hword := two_pow_le_maxWord
  simp only [trapCopyValues, copyValues, Word.exceeds_eq (hlength.trans hword),
    Word.exceeds_eq hvalues, decide_eq_true_eq]
  split
  · rfl
  · split
    · rfl
    · refine perform_trapSetAll hview hsize ?_
      rw [List.length_take, List.length_drop]
      omega

/-- What is copied lane by lane is read in full before anything is written. -/
theorem mapM_trapGet (indices : List Nat) :
    indices.mapM (view.trapGet memory) = some (indices.map (view.get? memory)) := by
  induction indices with
  | nil => rfl
  | cons index rest ih =>
    rw [List.mapM_cons, trapGet_eq hview hsize, ih]
    rfl

end Lanes

section TwoViews

variable (hview : view.Within memory) (hsize : memory.byteLength view.buffer ≤ 2 ^ 53)
  (hsource : source.Within memory) (hsourceSize : memory.byteLength source.buffer ≤ 2 ^ 53)
  {start sourceStart count : Nat} (htarget : start + count ≤ view.length)
  (hend : sourceStart + count ≤ source.length)

include hview hsize hsource hsourceSize htarget hend

/-- Moving bytes within a buffer is to write what was read. -/
theorem perform_trapCopyBytes (hkind : source.kind = view.kind) :
    (view.trapCopyBytes start source sourceStart count).perform memory
      = some (.ok (), memory.modify view.buffer (·.write (view.laneOffset start)
          ((memory.bytes source.buffer).window (source.laneOffset sourceStart)
            (count * view.kind.size)))) := by
  have hword := two_pow_le_maxWord
  have hfrom := laneOffset_add_le hsource sourceStart count hend
  have hto := laneOffset_add_le hview start count htarget
  rw [hkind] at hfrom
  rw [trapCopyBytes, Trapping.perform_get_bind,
    Trapping.perform_lift_bind (trapOffset_eq hsource hsourceSize (by omega)),
    Trapping.perform_lift_bind (trapOffset_eq hview hsize (by omega)),
    Trapping.perform_lift_bind (Word.mul?_eq (by omega)),
    Trapping.perform_lift_bind (Word.add?_eq (by omega))]
  split
  case isTrue hbuffer =>
    rw [hbuffer] at hfrom ⊢
    exact Trapping.perform_change (Memory.modify?_eq (Bytes.move?_eq hfrom hto))
  case isFalse =>
    rw [Trapping.perform_lift_bind (Bytes.slice?_eq hfrom),
      Trapping.perform_lift_bind (Word.add?_eq (by omega))]
    exact Trapping.perform_change
      (Memory.modify?_eq (Bytes.overwrite?_eq hto (Bytes.length_window _ _ _)))

theorem perform_trapCopyLanes :
    (view.trapCopyLanes start source sourceStart count).perform memory
      = some ((view.setAll start ((List.range' sourceStart count).filterMap
          (source.get? memory))).perform memory) := by
  have hword := two_pow_le_maxWord
  have hlength := length_le hsource hsourceSize
  have hvalues := List.length_filterMap_le (source.get? memory) (List.range' sourceStart count)
  rw [List.length_range'] at hvalues
  rw [trapCopyLanes, Trapping.perform_get_bind,
    Trapping.perform_lift_bind (Word.add?_eq (by omega)), Nat.add_sub_cancel_left,
    Trapping.perform_lift_bind (mapM_trapGet hsource hsourceSize _), List.filterMap_map,
    Function.id_comp]
  exact perform_trapSetAll hview hsize (by omega)

omit htarget hend in
theorem perform_trapCopyView (start sourceStart count : Nat) :
    (view.trapCopyView start source sourceStart count).perform memory
      = some ((view.copyView start source sourceStart count).perform memory) := by
  have hword := two_pow_le_maxWord
  have hlength := length_le hview hsize
  have hsourceLength := length_le hsource hsourceSize
  simp only [trapCopyView, copyView, Word.exceeds_eq (hlength.trans hword),
    Word.exceeds_eq (hsourceLength.trans hword), decide_eq_true_eq]
  split
  · rfl
  rename_i htarget
  split
  · rfl
  split
  · rfl
  rename_i hend
  rw [Nat.not_lt] at htarget hend
  rw [Edit.perform_get_bind]
  split
  -- No lanes: either way nothing is written.
  case isTrue hcount =>
    subst hcount
    split
    · rw [Nat.zero_mul, Edit.perform_modify, Memory.modify_eq_self]
      · rfl
      · rfl
    · rfl
  case isFalse =>
    split
    case isTrue hkind =>
      exact perform_trapCopyBytes hview hsize hsource hsourceSize htarget hend hkind
    case isFalse => exact perform_trapCopyLanes hview hsize hsource hsourceSize htarget hend

end TwoViews

end View

/-! ### Data views -/

namespace DataView

variable {view : DataView} (hview : view.offset + view.length ≤ memory.byteLength view.buffer)
  (hsize : memory.byteLength view.buffer ≤ maxWord)

include hview hsize

theorem trapLane_eq (position : Nat) (kind : LaneKind) :
    view.trapLane position kind = some (match view.lane? position kind with
      | some offset => .ok (offset, offset + kind.size)
      | none => .error .outsideDataView) := by
  have hlength : view.length ≤ maxWord := by omega
  simp only [trapLane, lane?, Word.exceeds_eq hlength, decide_eq_true_eq]
  rcases Nat.lt_or_ge view.length (position + kind.size) with hlt | hge
  · rw [if_pos hlt, if_neg (Nat.not_le.mpr hlt)]
    rfl
  · rw [if_neg (Nat.not_lt.mpr hge), if_pos hge, Word.add?_eq (by omega), Option.bind_eq_bind,
      Option.bind_some, Word.add?_eq (by omega)]
    rfl

omit hsize in
/-- A lane of a data view lies in the buffer. -/
theorem lane_le {position offset : Nat} {kind : LaneKind}
    (h : view.lane? position kind = some offset) :
    offset + kind.size ≤ memory.byteLength view.buffer := by
  rw [lane?, Option.ite_none_right_eq_some, Option.some.injEq] at h
  omega

theorem trapGet_eq (position : Nat) (kind : LaneKind) (order : ByteOrder) :
    view.trapGet memory position kind order = some (view.get memory position kind order) := by
  rw [trapGet, trapLane_eq hview hsize, get]
  cases hlane : view.lane? position kind with
  | none => rfl
  | some offset =>
    simp only [Option.bind_eq_bind, Option.bind_some, Bytes.slice?_eq (lane_le hview hlane)]
    rfl

theorem perform_trapSet (position : Nat) (kind : LaneKind) (value : Value) (order : ByteOrder) :
    (view.trapSet position kind value order).perform memory
      = some ((view.set position kind value order).perform memory) := by
  rw [trapSet, Trapping.perform_bind, Trapping.perform_ofExcept, perform_set]
  cases kind.encode value with
  | error e => rfl
  | ok bits =>
    dsimp only
    rw [Trapping.perform_lift_bind (trapLane_eq hview hsize position kind),
      Trapping.perform_bind, Trapping.perform_ofExcept]
    cases hlane : view.lane? position kind with
    | none => rfl
    | some offset =>
      exact Trapping.perform_change (Memory.modify?_eq
        (Bytes.overwrite?_eq (lane_le hview hlane) (ByteOrder.length_bytes _ _ _)))

end DataView

end ArrayEngine
