import ArrayEngine.Proofs.View.Write
import ArrayEngine.View.Copy
import Mathlib.Data.List.Basic

/-!
# Copies as through a snapshot

A copy between views writes to each lane what the source's lane held before the copy, whether the
views share bytes or not and whatever their kinds are. Between views of one kind the bytes are
moved, which differs from reading and writing each value at most in the NaN that is written.

A copy is refused before anything is written. Once it is not refused, every value converts: what is
read from a lane fits in a lane of any kind of the same sort.

## Main definitions

* `View.CopyRefused`: which copies are refused
* `View.Copied`: what a copy leaves in the memory
* `View.moveLanes`: the memory after a copy between views of one kind

## Main results

* `View.copied_moveLanes`, `View.copied_of_lanes`: moving bytes and converting values
* `View.copyView_snapshot`: both, with the refusals
-/

namespace ArrayEngine.View

variable {memory after : Memory} {view source : View} {start sourceStart count : Nat}

/-- The lanes to be copied or those to be written are not all there, or big integers are to become
numbers or the other way round. -/
def CopyRefused (view : View) (start : Nat) (source : View) (sourceStart count : Nat) : Prop :=
  view.length < start + count ∨ source.kind.isBigInt ≠ view.kind.isBigInt ∨
    source.length < sourceStart + count

/-- Between the two memories, `count` lanes of `source` have been copied. -/
structure Copied (memory after : Memory) (view : View) (start : Nat) (source : View)
    (sourceStart count : Nat) : Prop where
  /-- All bytes outside the lanes that were written are as before. -/
  sameOutside : memory.SameOutside after view.buffer (view.laneOffset start)
    (view.laneOffset (start + count))
  /-- Each of these lanes holds the value that the source held before, as its kind can hold it. -/
  get? : ∀ i < count, ∃ old bits new, source.get? memory (sourceStart + i) = some old ∧
    view.kind.encode old = .ok bits ∧ view.get? after (start + i) = some new ∧
      new.sameValue (view.kind.decode bits)

/-! ### Moving bytes -/

/-- The memory after the bytes of `count` lanes of `source` have been moved. -/
def moveLanes (memory : Memory) (view : View) (start : Nat) (source : View)
    (sourceStart count : Nat) : Memory :=
  memory.modify view.buffer (·.write (view.laneOffset start)
    ((memory.bytes source.buffer).window (source.laneOffset sourceStart)
      (count * view.kind.size)))

/-- Lanes to which bytes have been moved hold the bytes that the source's lanes held before. -/
theorem window_moveLanes (hview : view.Within memory) (hkind : source.kind = view.kind)
    (htarget : start + count ≤ view.length) (sourceStart : Nat) {i : Nat} (hi : i < count) :
    ((moveLanes memory view start source sourceStart count).bytes view.buffer).window
        (view.laneOffset (start + i)) view.kind.size
      = (memory.bytes source.buffer).window (source.laneOffset (sourceStart + i))
          view.kind.size := by
  have hroom := laneOffset_add_le hview start count htarget
  have hlane : i * view.kind.size + view.kind.size ≤ count * view.kind.size := by
    rw [← Nat.add_one_mul]
    exact Nat.mul_le_mul_right _ hi
  rw [moveLanes, Memory.bytes_write_self, laneOffset_add, laneOffset_add, hkind,
    Bytes.window_write (by rwa [Bytes.length_window]) (by rwa [Bytes.length_window]),
    Bytes.take_drop_window _ _ hlane]

theorem laneBits_moveLanes (hview : view.Within memory) (hkind : source.kind = view.kind)
    (htarget : start + count ≤ view.length) (sourceStart : Nat) {i : Nat} (hi : i < count) :
    view.laneBits (moveLanes memory view start source sourceStart count) (start + i)
      = source.laneBits memory (sourceStart + i) := by
  rw [laneBits, laneBits, Bytes.readLane, Bytes.readLane,
    window_moveLanes hview hkind htarget sourceStart hi, hkind]

theorem sameOutside_moveLanes (memory : Memory) (view : View) (start : Nat) (source : View)
    (sourceStart count : Nat) :
    memory.SameOutside (moveLanes memory view start source sourceStart count) view.buffer
      (view.laneOffset start) (view.laneOffset (start + count)) := by
  have h := memory.sameOutside_write view.buffer (view.laneOffset start)
    ((memory.bytes source.buffer).window (source.laneOffset sourceStart)
      (count * view.kind.size))
  rwa [Bytes.length_window, ← laneOffset_add] at h

theorem copied_moveLanes (hview : view.Within memory) (hkind : source.kind = view.kind)
    (htarget : start + count ≤ view.length) (hend : sourceStart + count ≤ source.length) :
    Copied memory (moveLanes memory view start source sourceStart count)
      view start source sourceStart count where
  sameOutside := sameOutside_moveLanes memory view start source sourceStart count
  get? := by
    intro i hi
    have hlanes := laneBits_moveLanes hview hkind htarget sourceStart hi
    obtain ⟨bits, hbits, hsame⟩ := LaneKind.exists_encode_decode
      (hkind ▸ source.laneBits_lt memory (sourceStart + i))
    refine ⟨_, bits, _, get?_of_lt memory (by omega), ?_, get?_of_lt _ (by omega), ?_⟩
    · rw [hkind]
      exact hbits
    · rw [hlanes]
      exact hsame

/-! ### Converting values -/

/-- The values that a copy converts are those of the lanes, all of which exist. -/
theorem filterMap_get? (memory : Memory) (hend : sourceStart + count ≤ source.length) :
    (List.range' sourceStart count).filterMap (source.get? memory)
      = (List.range' sourceStart count).map
          fun index => source.kind.decode (source.laneBits memory index) := by
  rw [← List.filterMap_eq_map]
  refine List.filterMap_congr fun index hindex => get?_of_lt memory ?_
  have hindex := List.mem_range'_1.mp hindex
  omega

/-- Every value that is read converts, and the values were read before any is written. -/
theorem copied_of_lanes (hview : view.Within memory)
    (hsort : source.kind.isBigInt = view.kind.isBigInt) (htarget : start + count ≤ view.length)
    (hend : sourceStart + count ≤ source.length) :
    ∃ after, (view.setAll start ((List.range' sourceStart count).filterMap
        (source.get? memory))).perform memory = (.ok (), after) ∧
      Copied memory after view start source sourceStart count ∧
      ∀ i < count, ∃ old bits, source.get? memory (sourceStart + i) = some old ∧
        view.kind.encode old = .ok bits ∧
        view.get? after (start + i) = some (view.kind.decode bits) := by
  rw [filterMap_get? memory hend]
  have hroom : start + ((List.range' sourceStart count).map
      fun index => source.kind.decode (source.laneBits memory index)).length ≤ view.length := by
    rwa [List.length_map, List.length_range']
  obtain ⟨after, hafter, hwritten⟩ := exists_setAll hview hroom
    (List.forall_mem_map.mpr fun index _ => LaneKind.exists_encode hsort _)
  have hsame := hwritten.sameOutside
  rw [List.length_map, List.length_range'] at hsame
  have hconverted : ∀ i < count, ∃ old bits, source.get? memory (sourceStart + i) = some old ∧
      view.kind.encode old = .ok bits ∧
      view.get? after (start + i) = some (view.kind.decode bits) := by
    intro i hi
    have hvalue : ((List.range' sourceStart count).map
        fun index => source.kind.decode (source.laneBits memory index))[i]?
        = some (source.kind.decode (source.laneBits memory (sourceStart + i))) := by
      simp [hi]
    obtain ⟨bits, hbits, hget⟩ := hwritten.get? hroom hvalue
    exact ⟨_, bits, get?_of_lt memory (by omega), hbits, hget⟩
  refine ⟨after, hafter, ⟨hsame, fun i hi => ?_⟩, hconverted⟩
  obtain ⟨old, bits, hold, hbits, hget⟩ := hconverted i hi
  exact ⟨old, bits, _, hold, hbits, hget, Value.sameValue_self _⟩

/-! ### Copies -/

/-- Moving bytes and converting values leave the same lanes, up to the NaN in them. -/
theorem Copied.sameValue {converted : Memory}
    (h : Copied memory after view start source sourceStart count)
    (hconverted : ∀ i < count, ∃ old bits, source.get? memory (sourceStart + i) = some old ∧
      view.kind.encode old = .ok bits ∧
      view.get? converted (start + i) = some (view.kind.decode bits)) :
    ∀ i < count, ∃ v w, view.get? after (start + i) = some v ∧
      view.get? converted (start + i) = some w ∧ v.sameValue w := by
  intro i hi
  obtain ⟨old, bits, v, hold, hbits, hv, hsame⟩ := h.get? i hi
  obtain ⟨old', bits', hold', hbits', hw⟩ := hconverted i hi
  obtain rfl : old = old' := Option.some.inj (hold.symm.trans hold')
  obtain rfl : bits = bits' := Except.ok.inj (hbits.symm.trans hbits')
  exact ⟨v, _, hv, hw, hsame⟩

theorem perform_copyView_of_refused
    (h : CopyRefused view start source sourceStart count) (memory : Memory) :
    ∃ e, (view.copyView start source sourceStart count).perform memory = (.error e, memory) := by
  simp only [copyView]
  split
  case isTrue => exact ⟨_, rfl⟩
  case isFalse htarget =>
    split
    case isTrue => exact ⟨_, rfl⟩
    case isFalse hsort =>
      have hend : source.length < sourceStart + count :=
        (h.resolve_left htarget).resolve_left (by simpa using hsort)
      rw [if_pos hend]
      exact ⟨_, rfl⟩

/-- A copy that is not refused either moves the bytes or converts the values that it has read. -/
theorem perform_copyView_of_not_refused
    (h : ¬CopyRefused view start source sourceStart count) (memory : Memory) :
    (view.copyView start source sourceStart count).perform memory
      = if source.kind = view.kind then
          (.ok (), moveLanes memory view start source sourceStart count)
        else
          (view.setAll start ((List.range' sourceStart count).filterMap
            (source.get? memory))).perform memory := by
  obtain ⟨htarget, hsort, hend⟩ : ¬view.length < start + count ∧
      ¬(source.kind.isBigInt != view.kind.isBigInt) ∧ ¬source.length < sourceStart + count := by
    simpa [CopyRefused] using h
  rw [copyView, if_neg htarget, if_neg hsort, if_neg hend, Edit.perform_get_bind]
  split <;> rfl

/-- A copy that is not refused leaves the lanes of the source as they were read before it, just as
the conversion of the values one by one does. -/
theorem exists_copyView (hview : view.Within memory)
    (h : ¬CopyRefused view start source sourceStart count) :
    ∃ after converted,
      (view.copyView start source sourceStart count).perform memory = (.ok (), after) ∧
      Copied memory after view start source sourceStart count ∧
      (view.setAll start ((List.range' sourceStart count).filterMap
        (source.get? memory))).perform memory = (.ok (), converted) ∧
      Copied memory converted view start source sourceStart count ∧
      ∀ i < count, ∃ v w, view.get? after (start + i) = some v ∧
        view.get? converted (start + i) = some w ∧ v.sameValue w := by
  obtain ⟨htarget, hsort, hend⟩ : start + count ≤ view.length ∧
      source.kind.isBigInt = view.kind.isBigInt ∧ sourceStart + count ≤ source.length := by
    simpa [CopyRefused] using h
  obtain ⟨converted, hperform, hcopied, hconverted⟩ := copied_of_lanes hview hsort htarget hend
  rw [perform_copyView_of_not_refused h]
  split
  case isTrue hkind =>
    have hmoved := copied_moveLanes hview hkind htarget hend
    exact ⟨_, converted, rfl, hmoved, hperform, hcopied, hmoved.sameValue hconverted⟩
  case isFalse =>
    exact ⟨converted, converted, hperform, hcopied, hperform, hcopied,
      hcopied.sameValue hconverted⟩

/-- **Copies behave as through a snapshot.** A copy is refused, with the memory as it was, exactly
if lanes are missing or the sorts of the kinds differ. Otherwise each lane that is written holds the
value that the source's lane held before, converted to the view's kind, and no other byte changes;
and the same lanes result, up to the NaN in them, when the values are converted one by one.

Every view that has been made over a buffer lies in it (`View.Made.within`), and so does a part of
one in all buffers of up to `2 ^ 53` bytes (`View.Obtained.within`). -/
theorem copyView_snapshot (hview : view.Within memory) (source : View)
    (start sourceStart count : Nat) :
    ((∃ e, (view.copyView start source sourceStart count).perform memory = (.error e, memory)) ↔
        CopyRefused view start source sourceStart count) ∧
      (¬CopyRefused view start source sourceStart count →
        ∃ after converted,
          (view.copyView start source sourceStart count).perform memory = (.ok (), after) ∧
          Copied memory after view start source sourceStart count ∧
          (view.setAll start ((List.range' sourceStart count).filterMap
            (source.get? memory))).perform memory = (.ok (), converted) ∧
          Copied memory converted view start source sourceStart count ∧
          ∀ i < count, ∃ v w, view.get? after (start + i) = some v ∧
            view.get? converted (start + i) = some w ∧ v.sameValue w) := by
  refine ⟨⟨?_, fun h => perform_copyView_of_refused h memory⟩, fun h => exists_copyView hview h⟩
  rintro ⟨e, herror⟩
  by_contra h
  obtain ⟨after, -, hok, -⟩ := exists_copyView hview h
  rw [hok] at herror
  cases herror

/-- Two lanes of two bytes are copied to the two bytes of the second one, which is converted as it
was before the first of its bytes was written. -/
theorem copyView_snapshot_of_overlap :
    let memory : Memory := ⟨#[#[1, 2, 3, 4]]⟩
    let view : View := ⟨0, .uint8, 0, 4⟩
    let source : View := ⟨0, .uint16, 0, 2⟩
    view.Within memory ∧ ¬CopyRefused view 2 source 0 2 ∧
      (∃ after, (view.copyView 2 source 0 2).perform memory = (.ok (), after) ∧
        Copied memory after view 2 source 0 2) ∧
      (view.copyView 2 source 0 2).perform memory = (.ok (), ⟨#[#[1, 2, 1, 3]]⟩) := by
  intro memory view source
  have hview : view.Within memory := ⟨by decide, by decide⟩
  have hrefused : ¬CopyRefused view 2 source 0 2 := by
    unfold CopyRefused
    decide
  obtain ⟨after, -, hperform, hcopied, -⟩ :=
    (copyView_snapshot hview source 2 0 2).2 hrefused
  refine ⟨hview, hrefused, ⟨after, hperform, hcopied⟩, ?_⟩
  decide +kernel

end ArrayEngine.View
