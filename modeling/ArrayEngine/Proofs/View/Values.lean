import ArrayEngine.Proofs.View.Confined
import ArrayEngine.Proofs.View.Write

/-!
# Copies from a list of values

A list may hold values of any sort, so a copy from it can fail in the middle, unlike a copy from a
view. What has been written by then stays: the lanes in front of the first value that does not
convert, and no other byte. The failure is that value's own.

A copy for which lanes or values are missing fails before that, with nothing written. Only such a
copy fails as one of range, so that a caller can tell the two apart by the category.

## Main definitions

* `LaneKind.FirstFailure`: where a list stops to convert, and how

## Main results

* `LaneKind.converts_or_firstFailure`: each list converts or has a first failure
* `View.perform_setAll_of_firstFailure`: the writing up to there
* `View.exists_ofValues_iff`: which lists become views
* `View.values_copied`: copies from lists, and views of them
-/

namespace ArrayEngine

/-! ### Where a list stops to convert -/

namespace LaneKind

variable {kind : LaneKind} {values : List Value} {value : Value} {index : Nat} {e : EngineError}

/-- The first value of the list that a lane does not take stands at an index, and fails with
`e`. -/
structure FirstFailure (kind : LaneKind) (values : List Value) (index : Nat) (e : EngineError) :
    Prop where
  before : ∀ value ∈ values.take index, ∃ bits, kind.encode value = .ok bits
  failure : ∃ value, values[index]? = some value ∧ kind.encode value = .error e

theorem FirstFailure.cons (h : kind.FirstFailure values index e) {bits : Nat}
    (hbits : kind.encode value = .ok bits) :
    kind.FirstFailure (value :: values) (index + 1) e where
  before := List.forall_mem_cons.mpr ⟨⟨bits, hbits⟩, h.before⟩
  failure := h.failure

theorem converts_or_firstFailure (kind : LaneKind) (values : List Value) :
    (∀ value ∈ values, ∃ bits, kind.encode value = .ok bits) ∨
      ∃ index e, kind.FirstFailure values index e := by
  induction values with
  | nil => exact .inl fun _ h => absurd h List.not_mem_nil
  | cons value rest ih =>
    cases hvalue : kind.encode value with
    | error e => exact .inr ⟨0, e, fun _ h => absurd h List.not_mem_nil, value, rfl, hvalue⟩
    | ok bits =>
      rcases ih with hrest | ⟨index, e, hrest⟩
      · exact .inl (List.forall_mem_cons.mpr ⟨⟨bits, hvalue⟩, hrest⟩)
      · exact .inr ⟨index + 1, e, hrest.cons hvalue⟩

theorem FirstFailure.not_converts (h : kind.FirstFailure values index e) :
    ¬∀ value ∈ values, ∃ bits, kind.encode value = .ok bits := by
  intro hvalues
  obtain ⟨value, hvalue, he⟩ := h.failure
  obtain ⟨bits, hbits⟩ := hvalues value (List.mem_of_getElem? hvalue)
  rw [hbits] at he
  cases he

/-- A value that does not convert is of a wrong type or badly written, never out of range. -/
theorem category_of_encode (h : kind.encode value = .error e) : e.category ≠ .range := by
  rw [encode] at h
  split at h
  case isTrue =>
    cases value <;> simp only [Value.toBigInt, Except.map] at h <;> grind [EngineError.category]
  case isFalse => grind [EngineError.category]

end LaneKind

variable {memory : Memory}

namespace View

variable {view : View} {start : Nat} {values : List Value}

/-! ### Copies -/

/-- The writing ends at the first failure, with all values before it written. -/
theorem perform_setAll_of_firstFailure {index : Nat} {e : EngineError} (hview : view.Within memory)
    (hroom : start + values.length ≤ view.length) (h : view.kind.FirstFailure values index e) :
    ∃ after, (view.setAll start values).perform memory = (.error e, after) ∧
      Written memory after view start (values.take index) := by
  obtain ⟨value, hvalue, he⟩ := h.failure
  obtain ⟨hindex, hget⟩ := List.getElem?_eq_some_iff.mp hvalue
  have hsplit : values.take index ++ value :: values.drop (index + 1) = values := by
    rw [← hget, ← List.drop_eq_getElem_cons hindex, List.take_append_drop]
  have hprefix : start + (values.take index).length ≤ view.length := by
    rw [List.length_take]
    omega
  have hwritten := exists_setAll_of_error hview hprefix h.before he (values.drop (index + 1))
  rwa [hsplit] at hwritten

theorem perform_copyValues_of_le {sourceStart count : Nat}
    (h : ¬(view.length < start + count ∨ values.length < sourceStart + count)) (memory : Memory) :
    (view.copyValues start values sourceStart count).perform memory
      = (view.setAll start ((values.drop sourceStart).take count)).perform memory := by
  rw [not_or] at h
  rw [copyValues, if_neg h.1, if_neg h.2]

/-! ### Views of a list -/

/-- A list of values in memory takes up at least eight bytes for each of them, so that the lanes
for it are never too many. -/
theorem length_mul_size_le {length : Nat} (h : 8 * length ≤ maxAllocation) (kind : LaneKind) :
    length * kind.size ≤ maxAllocation := by
  have hsize : kind.size ≤ 8 := by cases kind <;> decide
  calc length * kind.size ≤ length * 8 := Nat.mul_le_mul_left _ hsize
    _ = 8 * length := Nat.mul_comm _ _
    _ ≤ maxAllocation := h

theorem perform_ofValues_of_lt {kind : LaneKind}
    (h : maxAllocation < values.length * kind.size) (memory : Memory) :
    (ofValues kind values).perform memory = (.error (.viewTooLong values.length), memory) := by
  have hzeroed : (zeroed kind values.length).perform memory
      = (.error (.viewTooLong values.length), memory) := if_pos h
  rw [ofValues, Edit.perform_bind, hzeroed]

/-- The values are written to a view of a new buffer, which is there to be had if they all
convert. -/
theorem perform_ofValues_of_le {kind : LaneKind}
    (h : values.length * kind.size ≤ maxAllocation) (memory : Memory) :
    ∃ (view : View) (zeros : Memory), view.Within zeros ∧ view.kind = kind ∧
      view.length = values.length ∧
      (ofValues kind values).perform memory
        = (view.setAll 0 values >>= fun _ => pure view).perform zeros := by
  have hzeroed : ∃ view zeros, (zeroed kind values.length).perform memory = (.ok view, zeros) ∧
      view.kind = kind ∧ view.length = values.length :=
    ⟨_, _, if_neg (Nat.not_lt.mpr h), rfl, rfl⟩
  obtain ⟨view, zeros, hzeroed, hkind, hlength⟩ := hzeroed
  refine ⟨view, zeros, within_of_zeroed hzeroed, hkind, hlength, ?_⟩
  have hcopy : (view.copyValues 0 values 0 values.length).perform zeros
      = (view.setAll 0 ((values.drop 0).take values.length)).perform zeros :=
    perform_copyValues_of_le (by omega) zeros
  rw [List.drop_zero, List.take_length] at hcopy
  rw [ofValues, Edit.perform_bind_ok hzeroed, Edit.perform_bind, hcopy, Edit.perform_bind]

/-- A list becomes a view exactly if there is room and all its values convert. The lanes then hold
what the values convert to. -/
theorem exists_ofValues_iff (kind : LaneKind) (values : List Value) (memory : Memory) :
    ((∃ view after, (ofValues kind values).perform memory = (.ok view, after)) ↔
        values.length * kind.size ≤ maxAllocation ∧
          ∀ value ∈ values, ∃ bits, kind.encode value = .ok bits) ∧
      ∀ view after, (ofValues kind values).perform memory = (.ok view, after) →
        view.kind = kind ∧ view.length = values.length ∧
          ∀ i value, values[i]? = some value →
            ∃ bits, kind.encode value = .ok bits ∧ view.get? after i = some (kind.decode bits) := by
  rcases Nat.lt_or_ge maxAllocation (values.length * kind.size) with hlt | hle
  case inl =>
    rw [perform_ofValues_of_lt hlt]
    exact ⟨⟨fun ⟨_, _, h⟩ => (nomatch h), fun h => absurd h.1 (Nat.not_le.mpr hlt)⟩,
      fun _ _ h => (nomatch h)⟩
  case inr =>
    obtain ⟨view, zeros, hview, rfl, hlength, hperform⟩ := perform_ofValues_of_le hle memory
    have hroom : 0 + values.length ≤ view.length := by omega
    rw [hperform]
    rcases view.kind.converts_or_firstFailure values with hconverts | ⟨index, e, hfailure⟩
    case inl =>
      obtain ⟨after, hafter, hwritten⟩ := exists_setAll hview hroom hconverts
      rw [Edit.perform_bind_ok hafter, Edit.perform_pure]
      refine ⟨⟨fun _ => ⟨hle, hconverts⟩, fun _ => ⟨view, after, rfl⟩⟩, ?_⟩
      rintro _ _ ⟨⟩
      refine ⟨rfl, hlength, fun i value hvalue => ?_⟩
      obtain ⟨bits, hbits, hget⟩ := hwritten.get? hroom hvalue
      rw [Nat.zero_add] at hget
      exact ⟨bits, hbits, hget⟩
    case inr =>
      obtain ⟨after, hafter, -⟩ := perform_setAll_of_firstFailure hview hroom hfailure
      rw [Edit.perform_bind, hafter]
      exact ⟨⟨fun ⟨_, _, h⟩ => (nomatch h), fun h => absurd h.2 hfailure.not_converts⟩,
        fun _ _ h => (nomatch h)⟩

/-! ### Both -/

/-- A copy that is not refused writes what stands in front of the first failure, or everything. -/
theorem copied_of_not_refused {sourceStart count : Nat} (hview : view.Within memory)
    (h : ¬(view.length < start + count ∨ values.length < sourceStart + count)) :
    let part := (values.drop sourceStart).take count
    part.length = count ∧
      (∀ j e, view.kind.FirstFailure part j e →
        ∃ after, (view.copyValues start values sourceStart count).perform memory
            = (.error e, after) ∧
          Written memory after view start (part.take j)) ∧
      ((∀ value ∈ part, ∃ bits, view.kind.encode value = .ok bits) →
        ∃ after, (view.copyValues start values sourceStart count).perform memory
            = (.ok (), after) ∧
          Written memory after view start part) := by
  intro part
  have hpart : part.length = count := by
    rw [List.length_take, List.length_drop]
    omega
  have hroom : start + part.length ≤ view.length := by omega
  rw [perform_copyValues_of_le h]
  exact ⟨hpart, fun j e hfailure => perform_setAll_of_firstFailure hview hroom hfailure,
    fun hconverts => exists_setAll hview hroom hconverts⟩

/-- No copy fails as one of range except for those that are refused. -/
theorem exists_range_error_iff {sourceStart count : Nat} (hview : view.Within memory) :
    (∃ (e : EngineError) (after : Memory),
      (view.copyValues start values sourceStart count).perform memory = (.error e, after) ∧
        e.category = .range) ↔
      view.length < start + count ∨ values.length < sourceStart + count := by
  constructor
  · rintro ⟨e, after, hperform, he⟩
    by_contra h
    obtain ⟨-, hfailures, hconversions⟩ := copied_of_not_refused hview h
    rcases view.kind.converts_or_firstFailure ((values.drop sourceStart).take count) with
      hconverts | ⟨j, e', hfailure⟩
    case inl =>
      obtain ⟨_, hok, -⟩ := hconversions hconverts
      rw [hok] at hperform
      cases hperform
    case inr =>
      obtain ⟨_, herror, -⟩ := hfailures j e' hfailure
      rw [herror] at hperform
      obtain ⟨value, -, hvalue⟩ := hfailure.failure
      cases hperform
      exact LaneKind.category_of_encode hvalue he
  · intro h
    obtain ⟨e, hperform, he⟩ :
        RefusedAsRange (view.copyValues start values sourceStart count) memory :=
      copyValues_of_lt h
    exact ⟨e, memory, hperform, he⟩

/-- **Values are copied up to the first failure.** A copy from a list of values writes exactly what
stands in front of the first value that does not convert. It fails as one of range, with nothing
written, exactly if lanes or values are missing. So a list becomes a view exactly if all its values
convert, given that a value takes up at least eight bytes of the memory; and none of this traps in a
buffer of up to `2 ^ 53` bytes. -/
theorem values_copied (hview : view.Within memory) (values : List Value) :
    (∀ start sourceStart count,
      let copy := view.copyValues start values sourceStart count
      let refused := view.length < start + count ∨ values.length < sourceStart + count
      let part := (values.drop sourceStart).take count
      ((∃ (e : EngineError) (after : Memory),
          copy.perform memory = (.error e, after) ∧ e.category = .range) ↔ refused) ∧
        (refused → RefusedAsRange copy memory) ∧
        (¬refused → part.length = count ∧
          (∀ j e, view.kind.FirstFailure part j e →
            ∃ after, copy.perform memory = (.error e, after) ∧
              Written memory after view start (part.take j)) ∧
          ((∀ value ∈ part, ∃ bits, view.kind.encode value = .ok bits) →
            ∃ after, copy.perform memory = (.ok (), after) ∧
              Written memory after view start part)) ∧
        (memory.byteLength view.buffer ≤ 2 ^ 53 → values.length ≤ maxWord →
          (view.trapCopyValues start values sourceStart count).perform memory
            = some (copy.perform memory))) ∧
      ∀ kind,
        (8 * values.length ≤ maxAllocation →
          ((∃ made after, (ofValues kind values).perform memory = (.ok made, after)) ↔
            ∀ value ∈ values, ∃ bits, kind.encode value = .ok bits)) ∧
        ∀ made after, (ofValues kind values).perform memory = (.ok made, after) →
          made.kind = kind ∧ made.length = values.length ∧
            ∀ i value, values[i]? = some value →
              ∃ bits, kind.encode value = .ok bits ∧
                made.get? after i = some (kind.decode bits) := by
  constructor
  · intro start sourceStart count
    exact ⟨exists_range_error_iff hview, copyValues_of_lt, copied_of_not_refused hview,
      fun hsize hvalues => perform_trapCopyValues hview hsize start hvalues sourceStart count⟩
  · intro kind
    obtain ⟨hiff, hmade⟩ := exists_ofValues_iff kind values memory
    refine ⟨fun hmemory => ?_, hmade⟩
    rw [hiff, and_iff_right (length_mul_size_le hmemory kind)]

/-- Of four values, the third is no number: a copy of the last three fails after one lane, which
does not start the view. -/
theorem values_copied_of_mixed :
    let memory : Memory := ⟨#[#[9, 9, 9, 9]]⟩
    let view : View := ⟨0, .uint8, 0, 4⟩
    let values : List Value := [.null, .boolean true, .bigInt 7, .null]
    view.Within memory ∧
      view.kind.FirstFailure ((values.drop 1).take 3) 1 .bigIntAsNumber ∧
      (∃ after, (view.copyValues 1 values 1 3).perform memory = (.error .bigIntAsNumber, after) ∧
        Written memory after view 1 [.boolean true]) ∧
      (view.copyValues 1 values 1 3).perform memory
        = (.error .bigIntAsNumber, ⟨#[#[9, 1, 9, 9]]⟩) := by
  intro memory view values
  have hview : view.Within memory := ⟨by decide, by decide⟩
  have hone : LaneKind.encode .uint8 (.boolean true) = .ok 1 := by decide +kernel
  have hfailure : view.kind.FirstFailure ((values.drop 1).take 3) 1 .bigIntAsNumber :=
    ⟨List.forall_mem_singleton.mpr ⟨1, hone⟩, .bigInt 7, rfl, rfl⟩
  obtain ⟨hcopies, -⟩ := values_copied hview values
  obtain ⟨-, -, hcopy, -⟩ := hcopies 1 1 3
  obtain ⟨-, hfailures, -⟩ := hcopy (by decide)
  exact ⟨hview, hfailure, hfailures 1 .bigIntAsNumber hfailure, by decide +kernel⟩

end View

end ArrayEngine
