import ArrayEngine.Proofs.Store.Dictionary
import ArrayEngine.Proofs.Store.Elements

/-!
# Layouts by their elements

What each operation on a layout does to `get?`, to the kind, and to the invariant of a layout.

## The invariant

A packed layout has no more slots than the length, records only slots as holes, and ends with an
element. A dictionary has all its indices below the length and fewer entries than the length: at
least one index is a hole. While an element is written or the length is cut, a dictionary may be
full for a moment, until `pack` looks at it; `Layout.Fits` is the invariant without the condition
that a dictionary has a hole.

## Main results

* `Layout.get?_put`, `Layout.get?_delete`, `Layout.get?_cut`, `Layout.get?_pack`
* `Layout.fits_put`, `Layout.valid_delete`, `Layout.fits_cut`, `Layout.valid_pack`
* `Layout.mem_entries`, `Layout.pairwise_entries`: the elements in ascending order
-/

namespace ArrayEngine

theorem HoleSet.isEmpty_eq_false_iff {holes : HoleSet} :
    holes.isEmpty = false ↔ ∃ i, i ∈ holes := by
  rw [Std.ExtHashSet.isEmpty_eq_false_iff, not_iff_comm, not_exists]
  constructor
  · intro h
    exact Std.ExtHashSet.ext_mem fun i => iff_of_false (h i) Std.ExtHashSet.not_mem_empty
  · rintro rfl i
    exact Std.ExtHashSet.not_mem_empty

theorem HoleSet.mem_insertMany_range' {holes : HoleSet} {start n i : Nat} :
    i ∈ holes.insertMany (List.range' start n) ↔ i ∈ holes ∨ start ≤ i ∧ i < start + n := by
  rw [Std.ExtHashSet.mem_insertMany_list, List.contains_eq_mem, decide_eq_true_eq,
    List.mem_range'_1]

theorem HoleSet.erase_of_not_mem {holes : HoleSet} {i : Nat} (h : i ∉ holes) :
    holes.erase i = holes := by
  refine Std.ExtHashSet.ext_mem ?_
  intro j
  rw [Std.ExtHashSet.mem_erase, beq_eq_false_iff_ne]
  exact and_iff_right_of_imp fun hj heq => h (heq ▸ hj)

/-! ### Holes at the end -/

theorem exists_dropTrailingHoles (size : Nat) (holes : HoleSet) :
    ∃ n rest, dropTrailingHoles size holes = (n, rest) ∧ n ≤ size ∧
      (∀ i, i ∈ rest ↔ i ∈ holes ∧ (i < n ∨ size ≤ i)) ∧
      (∀ i, n ≤ i → i < size → i ∈ holes) ∧ ∀ last, n = last + 1 → last ∉ holes := by
  induction size generalizing holes with
  | zero => exact ⟨0, holes, rfl, Nat.le_refl 0, by simp, by simp, by simp⟩
  | succ last ih =>
    by_cases hlast : last ∈ holes
    · obtain ⟨n, rest, heq, hle, hmem, hdropped, hend⟩ := ih (holes.erase last)
      refine ⟨n, rest, by rw [dropTrailingHoles, if_pos hlast, heq], by omega, ?_, ?_, ?_⟩
      · intro i
        rw [hmem, Std.ExtHashSet.mem_erase, beq_eq_false_iff_ne]
        constructor
        · rintro ⟨⟨hne, hi⟩, h⟩
          exact ⟨hi, by omega⟩
        · rintro ⟨hi, h⟩
          exact ⟨⟨by omega, hi⟩, by omega⟩
      · intro i hn hi
        rcases Nat.lt_succ_iff_lt_or_eq.mp hi with hi | rfl
        · exact (Std.ExtHashSet.mem_erase.mp (hdropped i hn hi)).2
        · exact hlast
      · intro i hi hmem
        refine hend i hi (Std.ExtHashSet.mem_erase.mpr ⟨?_, hmem⟩)
        rw [beq_eq_false_iff_ne]
        omega
    · refine ⟨last + 1, holes, by rw [dropTrailingHoles, if_neg hlast], Nat.le_refl _, ?_, ?_, ?_⟩
      · intro i
        exact ⟨fun hi => ⟨hi, by omega⟩, fun hi => hi.1⟩
      · intro i h₁ h₂
        omega
      · intro i hi
        rwa [← Nat.succ.inj hi]

namespace Layout

variable {length : Nat} {layout : Layout}

/-! ### The invariant -/

/-- The invariant of a layout for a length, but that a dictionary may be full. -/
inductive Fits (length : Nat) : Layout → Prop
  | packed {elements : Elements} {holes : HoleSet} (size_le : elements.size ≤ length)
      (holes_lt : ∀ i ∈ holes, i < elements.size)
      (last_not_hole : ∀ last, elements.size = last + 1 → last ∉ holes) :
      Fits length (packed elements holes)
  | dictionary {elements : Dictionary} {kind : ElementKind}
      (indices_lt : ∀ i ∈ elements, i < length)
      (holds : ∀ (i : Nat) (v : Value), elements[i]? = some v → kind.holds v)
      (kind_ne : kind ≠ .empty) : Fits length (dictionary elements kind)

/-- The invariant of a layout for a length. -/
structure Valid (length : Nat) (layout : Layout) : Prop where
  fits : layout.Fits length
  /-- A dictionary has a hole below the length. -/
  size_lt : ∀ elements kind, layout = .dictionary elements kind → elements.size < length

theorem valid_packed {elements : Elements} {holes : HoleSet}
    (h : (packed elements holes).Fits length) : (packed elements holes).Valid length :=
  ⟨h, fun _ _ h => nomatch h⟩

theorem fits_full {elements : Elements} (h : elements.size ≤ length) :
    (full elements).Fits length :=
  .packed h (fun _ hi => absurd hi Std.ExtHashSet.not_mem_empty)
    fun _ _ => Std.ExtHashSet.not_mem_empty

theorem valid_full {elements : Elements} (h : elements.size ≤ length) :
    (full elements).Valid length := valid_packed (fits_full h)

@[simp] theorem kind_packed (elements : Elements) (holes : HoleSet) :
    (packed elements holes).kind = elements.kind := rfl

@[simp] theorem kind_dictionary (elements : Dictionary) (k : ElementKind) :
    (dictionary elements k).kind = k := rfl

theorem get?_packed (elements : Elements) (holes : HoleSet) (i : Nat) :
    (packed elements holes).get? i = if i ∈ holes then none else elements.values[i]? := by
  rw [get?, Elements.get?_eq]

@[simp] theorem get?_full (elements : Elements) (i : Nat) :
    (full elements).get? i = elements.values[i]? := by
  rw [full, get?_packed, if_neg Std.ExtHashSet.not_mem_empty]

theorem get?_dictionary (elements : Dictionary) (kind : ElementKind) (i : Nat) :
    (dictionary elements kind).get? i = elements[i]? := rfl

/-- The kind holds every element. -/
theorem Fits.holds (h : layout.Fits length) {i : Nat} {v : Value} (hv : layout.get? i = some v) :
    layout.kind.holds v := by
  cases h with
  | packed =>
    rw [get?_packed, Option.ite_none_left_eq_some] at hv
    exact Elements.holds_of_mem (Array.mem_of_getElem? hv.2)
  | dictionary _ holds _ => exact holds i v hv

/-- There are no elements from the length on. -/
theorem Fits.get?_eq_none (h : layout.Fits length) {i : Nat} (hi : length ≤ i) :
    layout.get? i = none := by
  cases h with
  | packed size_le =>
    rw [get?_packed, Array.getElem?_eq_none (by simp; omega), ite_self]
  | dictionary indices_lt =>
    exact Std.ExtTreeMap.getElem?_eq_none fun hmem => absurd (indices_lt i hmem) (by omega)

theorem Fits.mono (h : layout.Fits length) {length' : Nat} (hle : length ≤ length') :
    layout.Fits length' := by
  cases h with
  | packed size_le holes_lt last_not_hole => exact .packed (by omega) holes_lt last_not_hole
  | dictionary indices_lt holds kind_ne =>
    exact .dictionary (fun i hi => Nat.lt_of_lt_of_le (indices_lt i hi) hle) holds kind_ne

theorem Valid.mono (h : layout.Valid length) {length' : Nat} (hle : length ≤ length') :
    layout.Valid length' :=
  ⟨h.fits.mono hle, fun elements kind heq => Nat.lt_of_lt_of_le (h.size_lt elements kind heq) hle⟩

/-! ### Elements -/

theorem has_eq (layout : Layout) (i : Nat) : layout.has i = (layout.get? i).isSome := by
  cases layout with
  | packed elements holes =>
    rw [get?_packed, has]
    rw [Bool.eq_iff_iff]
    by_cases hi : i ∈ holes <;> simp [hi]
  | dictionary elements kind => simp [has, get?]
  | stuck => rfl

theorem mem_indicesFrom {start i : Nat} :
    i ∈ layout.indicesFrom start ↔ start ≤ i ∧ (layout.get? i).isSome := by
  cases layout with
  | packed elements holes =>
    rw [get?_packed]
    by_cases hi : i ∈ holes
    · simp [indicesFrom, hi]
    · simp only [indicesFrom, List.mem_filter, List.mem_range'_1, hi, not_false_eq_true,
        decide_true, and_true, if_false, isSome_getElem?, Elements.size_values]
      constructor <;> rintro ⟨h₁, h₂⟩ <;> exact ⟨h₁, by omega⟩
  | dictionary elements kind => simp [indicesFrom, get?, and_comm]
  | stuck => simp [indicesFrom, get?]

theorem pairwise_indicesFrom (layout : Layout) (start : Nat) :
    (layout.indicesFrom start).Pairwise (· < ·) := by
  cases layout with
  | packed elements holes => exact (List.pairwise_lt_range' ..).filter _
  | dictionary elements kind => exact (Dictionary.pairwise_keys elements).filter _
  | stuck => exact List.Pairwise.nil

theorem mem_entries {i : Nat} {v : Value} : (i, v) ∈ layout.entries ↔ layout.get? i = some v := by
  cases layout with
  | packed elements holes =>
    rw [get?_packed]
    simp only [entries, List.mem_filterMap, List.mem_filter, List.mem_range, decide_eq_true_eq,
      Option.map_eq_some_iff, Prod.mk.injEq, Elements.get?_eq]
    constructor
    · rintro ⟨j, ⟨_, hj⟩, w, hw, rfl, rfl⟩
      rw [if_neg hj, hw]
    · intro h
      obtain ⟨hi, hv⟩ := Option.ite_none_left_eq_some.mp h
      have hlt := (Array.getElem?_eq_some_iff.mp hv).1
      exact ⟨i, ⟨by simpa using hlt, hi⟩, v, hv, rfl, rfl⟩
  | dictionary elements kind => exact Std.ExtTreeMap.mem_toList_iff_getElem?_eq_some
  | stuck => simp [entries, get?]

theorem pairwise_entries (layout : Layout) :
    layout.entries.Pairwise fun a b => a.1 < b.1 := by
  cases layout with
  | packed elements holes =>
    refine List.Pairwise.filterMap (R := (· < ·)) _ ?_ (List.pairwise_lt_range.filter _)
    intro i j hij a ha b hb
    obtain ⟨_, _, rfl⟩ := Option.map_eq_some_iff.mp ha
    obtain ⟨_, _, rfl⟩ := Option.map_eq_some_iff.mp hb
    exact hij
  | dictionary elements kind => exact Dictionary.pairwise_toList elements
  | stuck => exact List.Pairwise.nil

/-- A dictionary made of a layout has its elements. -/
theorem getElem?_toDictionary (layout : Layout) (i : Nat) :
    layout.toDictionary[i]? = layout.get? i := by
  cases hi : layout.get? i with
  | none =>
    refine Std.ExtTreeMap.getElem?_ofList_of_contains_eq_false ?_
    rw [List.contains_eq_mem, decide_eq_false_iff_not, List.mem_map]
    rintro ⟨⟨j, v⟩, hmem, rfl⟩
    rw [mem_entries.mp hmem] at hi
    cases hi
  | some v =>
    refine Std.ExtTreeMap.getElem?_ofList_of_mem (by simp) ?_ (mem_entries.mpr hi)
    refine (pairwise_entries layout).imp fun h => ?_
    rw [Nat.compare_eq_eq]
    exact Nat.ne_of_lt h

/-! ### Holes at the end -/

@[simp] theorem kind_trimmed (elements : Elements) (holes : HoleSet) :
    (trimmed elements holes).kind = elements.kind := by
  simp [trimmed]

/-- Dropping the holes at the end changes no element. -/
theorem get?_trimmed (elements : Elements) (holes : HoleSet) (i : Nat) :
    (trimmed elements holes).get? i = (packed elements holes).get? i := by
  obtain ⟨n, rest, heq, hle, hmem, hdropped, _⟩ := exists_dropTrailingHoles elements.size holes
  simp only [trimmed, heq, get?_packed, Elements.values_truncate]
  rcases Nat.lt_or_ge i n with hi | hi
  · have hrest : i ∈ rest ↔ i ∈ holes := by simp [hmem, hi]
    simp only [hrest, getElem?_take, if_pos hi]
  · rw [getElem?_take, if_neg (Nat.not_lt.mpr hi), ite_self]
    rcases Nat.lt_or_ge i elements.size with hsize | hsize
    · rw [if_pos (hdropped i hi hsize)]
    · rw [Array.getElem?_eq_none (by simpa using hsize), ite_self]

theorem valid_trimmed {elements : Elements} {holes : HoleSet} (hsize : elements.size ≤ length)
    (hholes : ∀ i ∈ holes, i < elements.size) : (trimmed elements holes).Valid length := by
  obtain ⟨n, rest, heq, hle, hmem, _, hend⟩ := exists_dropTrailingHoles elements.size holes
  have hn : (elements.truncate n).size = n := by
    rw [← Elements.size_values, Elements.values_truncate]
    simpa using hle
  simp only [trimmed, heq]
  refine valid_packed (.packed (by omega) ?_ ?_)
  · intro i hi
    obtain ⟨hi, h⟩ := (hmem i).mp hi
    have := hholes i hi
    omega
  · intro last hlast hi
    exact hend last (by omega) ((hmem last).mp hi).1

/-! ### Writing an element -/

/-- Slots that are fitted to a value and padded up to an index take the value there. The slots
opened on the way keep fillers. -/
theorem exists_put?_padTo (elements : Elements) {i : Nat} (v : Value) (h : elements.size < i) :
    ∃ slots, ((elements.fit v).padTo i).put? i v = some slots ∧
      slots.kind = elements.kind.join (.of v) ∧ slots.size = i + 1 ∧
      ∀ j, slots.values[j]? = if j = i then some v
        else if j < elements.size then elements.values[j]?
        else if j < i then some (elements.fit v).filler else none := by
  have hpad : ((elements.fit v).padTo i).values
      = elements.values ++ Array.replicate (i - elements.size) (elements.fit v).filler := by
    rw [Elements.values_padTo (Elements.kind_fit_ne_empty elements v), Elements.values_fit,
      Elements.size_fit]
  have hsize : i = ((elements.fit v).padTo i).values.size := by
    rw [hpad]
    simp
    omega
  have hholds : ((elements.fit v).padTo i).kind.holds v := by
    rw [Elements.kind_padTo]
    exact Elements.holds_kind_fit elements v
  obtain ⟨slots, hput, hkind, hvalues⟩ := Elements.exists_put? hholds i
  refine ⟨slots, hput, ?_, ?_, ?_⟩
  · rw [hkind, Elements.kind_padTo, Elements.kind_fit]
  · rw [← Elements.size_values, hvalues, size_writeSlot hsize.le]
    omega
  · intro j
    rw [hvalues, getElem?_writeSlot hsize.le, hpad, Array.getElem?_append,
      Array.getElem?_replicate, Elements.size_values]
    have hlt : j - elements.size < i - elements.size ↔ j < i := by omega
    simp only [hlt]

/-- Slots that are fitted to a value take it at every index up to their end. -/
theorem exists_put?_fit (elements : Elements) {i : Nat} (v : Value) (h : i ≤ elements.size) :
    ∃ slots, (elements.fit v).put? i v = some slots ∧
      slots.kind = elements.kind.join (.of v) ∧ slots.size = max elements.size (i + 1) ∧
      ∀ j, slots.values[j]? = if j = i then some v else elements.values[j]? := by
  have hi : i ≤ elements.values.size := by simpa using h
  obtain ⟨slots, hput, hkind, hvalues⟩ := Elements.exists_put?_fit elements i v
  refine ⟨slots, hput, hkind, ?_, ?_⟩
  · rw [← Elements.size_values, hvalues, size_writeSlot hi, Elements.size_values]
  · intro j
    rw [hvalues, getElem?_writeSlot hi]

theorem kind_putSlot (elements : Elements) (holes : HoleSet) (i : Nat) (v : Value) :
    (putSlot elements holes i v).kind = elements.kind.join (.of v) := by
  simp only [putSlot]
  split
  · rename_i hi
    obtain ⟨slots, hput, hkind, _, _⟩ := exists_put?_padTo elements v hi
    rw [hput]
    exact hkind
  · obtain ⟨slots, hput, hkind, _, _⟩ :=
      exists_put?_fit elements v (show i ≤ elements.size by omega)
    rw [hput]
    split
    · exact hkind
    · exact hkind

theorem get?_putSlot {elements : Elements} {holes : HoleSet}
    (h : (packed elements holes).Fits length) (i j : Nat) (v : Value) :
    (putSlot elements holes i v).get? j
      = if j = i then some v else (packed elements holes).get? j := by
  cases h with
  | packed size_le holes_lt _ =>
    simp only [putSlot]
    split
    · rename_i hi
      obtain ⟨slots, hput, _, _, hget⟩ := exists_put?_padTo elements v hi
      rw [hput, written, get?_packed, hget, get?_packed]
      have hend : elements.size + (i - elements.size) = i := by omega
      simp only [HoleSet.mem_insertMany_range', hend]
      by_cases hj : j = i
      · have : j ∉ holes := fun hmem => by have := holes_lt j hmem; omega
        rw [if_neg (not_or.mpr ⟨this, by omega⟩), if_pos hj, if_pos hj]
      · rw [if_neg hj, if_neg hj]
        rcases Nat.lt_or_ge j elements.size with hlt | hge
        · simp [hlt, show ¬elements.size ≤ j by omega]
        · rw [Array.getElem?_eq_none (by simpa using hge)]
          by_cases hji : j < i <;> simp [hge, hji]
    · obtain ⟨slots, hput, _, _, hget⟩ :=
        exists_put?_fit elements v (show i ≤ elements.size by omega)
      rw [hput, written, written]
      split
      · rename_i hi
        have : i ∉ holes := fun hmem => by have := holes_lt i hmem; omega
        rw [get?_packed, hget, get?_packed]
        by_cases hj : j = i
        · simp [hj, this]
        · simp [hj]
      · rw [get?_packed, hget, get?_packed]
        by_cases hj : j = i
        · simp [hj]
        · simp [hj, Ne.symm hj]

theorem fits_putSlot {elements : Elements} {holes : HoleSet}
    (h : (packed elements holes).Fits length) (i : Nat) (v : Value) :
    (putSlot elements holes i v).Fits (max length (i + 1)) := by
  cases h with
  | packed size_le holes_lt last_not_hole =>
    simp only [putSlot]
    split
    · rename_i hi
      obtain ⟨slots, hput, _, hsize, _⟩ := exists_put?_padTo elements v hi
      have hmem (j : Nat) : j ∈ holes.insertMany (List.range' elements.size (i - elements.size))
          → j < i := by
        rw [HoleSet.mem_insertMany_range']
        rintro (hj | hj)
        · have := holes_lt j hj
          omega
        · omega
      rw [hput]
      refine .packed (by omega) ?_ ?_
      · intro j hj
        have := hmem j hj
        omega
      · intro last hlast hj
        have := hmem last hj
        omega
    · obtain ⟨slots, hput, _, hsize, _⟩ :=
        exists_put?_fit elements v (show i ≤ elements.size by omega)
      rw [hput]
      split
      · rename_i hi
        refine .packed (by omega) ?_ ?_
        · intro j hj
          have := holes_lt j hj
          omega
        · intro last hlast hj
          have := holes_lt last hj
          omega
      · refine .packed (by omega) ?_ ?_
        · intro j hj
          have := holes_lt j (Std.ExtHashSet.mem_erase.mp hj).2
          omega
        · intro last hlast hj
          exact last_not_hole last (by omega) (Std.ExtHashSet.mem_erase.mp hj).2

theorem get?_putEntry (elements : Dictionary) (kind : ElementKind) (i j : Nat) (v : Value) :
    (putEntry elements kind i v).get? j = if j = i then some v else elements[j]? :=
  Dictionary.getElem?_insert elements i j v

theorem fits_putEntry {elements : Dictionary} {kind : ElementKind}
    (hlt : ∀ i ∈ elements, i < length)
    (holds : ∀ (i : Nat) (v : Value), elements[i]? = some v → kind.holds v) (i : Nat) (v : Value) :
    (putEntry elements kind i v).Fits (max length (i + 1)) := by
  refine .dictionary ?_ ?_ (ElementKind.join_of_ne_empty v)
  · intro j hj
    rw [Dictionary.mem_iff_isSome, Dictionary.getElem?_insert] at hj
    by_cases hji : j = i
    · omega
    · rw [if_neg hji, ← Dictionary.mem_iff_isSome] at hj
      have := hlt j hj
      omega
  · intro j w hw
    rw [Dictionary.getElem?_insert] at hw
    split at hw
    · cases hw
      exact ElementKind.holds_join_of v
    · exact ElementKind.holds_of_le ElementKind.le_join_left (holds j w hw)

theorem kind_put (h : layout.Fits length) (gap i : Nat) (v : Value) :
    (layout.put gap i v).kind = layout.kind.join (.of v) := by
  cases h with
  | packed =>
    simp only [put]
    split
    · rfl
    · exact kind_putSlot ..
  | dictionary => rfl

/-- A write changes the element written, in whichever layout it ends up. -/
theorem get?_put (h : layout.Fits length) (gap i j : Nat) (v : Value) :
    (layout.put gap i v).get? j = if j = i then some v else layout.get? j := by
  cases layout with
  | packed elements holes =>
    simp only [put]
    split
    · rw [get?_putEntry, getElem?_toDictionary]
    · exact get?_putSlot h i j v
  | dictionary elements kind => exact get?_putEntry elements kind i j v
  | stuck => cases h

theorem fits_put (h : layout.Fits length) (gap i : Nat) (v : Value) :
    (layout.put gap i v).Fits (max length (i + 1)) := by
  cases layout with
  | packed elements holes =>
    simp only [put]
    split
    · refine fits_putEntry ?_ ?_ i v
      · intro j hj
        rw [Dictionary.mem_iff_isSome, getElem?_toDictionary] at hj
        refine Nat.lt_of_not_le ?_
        intro hle
        rw [h.get?_eq_none hle] at hj
        cases hj
      · intro j w hw
        rw [getElem?_toDictionary] at hw
        exact h.holds hw
    · exact fits_putSlot h i v
  | dictionary elements kind =>
    cases h with
    | dictionary indices_lt holds _ => exact fits_putEntry indices_lt holds i v
  | stuck => cases h

/-! ### Removing an element -/

theorem delete_fst (layout : Layout) (i : Nat) : (layout.delete i).1 = (layout.get? i).isSome := by
  rw [← has_eq]
  cases layout with
  | packed elements holes =>
    simp only [delete, has]
    split
    · rename_i h
      rw [Bool.or_eq_true, decide_eq_true_eq, decide_eq_true_eq] at h
      rcases h with h | h <;> simp [h]
    · rename_i h
      rw [Bool.or_eq_true, decide_eq_true_eq, decide_eq_true_eq, not_or] at h
      split <;> simp [h.2] <;> omega
  | dictionary elements kind => rfl
  | stuck => rfl

@[simp] theorem kind_delete (layout : Layout) (i : Nat) :
    (layout.delete i).2.kind = layout.kind := by
  cases layout with
  | packed elements holes =>
    simp only [delete]
    split
    · rfl
    · split
      · simp
      · rfl
  | dictionary elements kind => rfl
  | stuck => rfl

theorem get?_delete (layout : Layout) (i j : Nat) :
    (layout.delete i).2.get? j = if j = i then none else layout.get? j := by
  cases layout with
  | packed elements holes =>
    simp only [delete]
    split
    · rename_i h
      rw [Bool.or_eq_true, decide_eq_true_eq, decide_eq_true_eq] at h
      rw [get?_packed]
      by_cases hj : j = i
      · rcases h with h | h
        · rw [if_pos hj, hj, Array.getElem?_eq_none (by simpa using h), ite_self]
        · rw [if_pos hj, hj, if_pos h]
      · rw [if_neg hj]
    · rename_i h
      split
      · rename_i hi
        rw [get?_trimmed, get?_packed, get?_packed, Elements.values_pop, Array.getElem?_pop,
          Elements.size_values]
        by_cases hj : j = i
        · rw [if_pos hj, if_neg (show ¬j < elements.size - 1 by omega), ite_self]
        · rw [if_neg hj]
          by_cases hlt : j < elements.size - 1
          · rw [if_pos hlt]
          · rw [if_neg hlt, Array.getElem?_eq_none (by simp; omega)]
      · simp only [get?_packed, Std.ExtHashSet.mem_insert, beq_iff_eq]
        by_cases hj : j = i
        · rw [if_pos hj, if_pos (Or.inl hj.symm)]
        · simp [hj, Ne.symm hj]
  | dictionary elements kind => exact Dictionary.getElem?_erase elements i j
  | stuck => exact (ite_self none).symm

theorem valid_delete (h : layout.Valid length) (i : Nat) : (layout.delete i).2.Valid length := by
  cases layout with
  | packed elements holes =>
    have hfits := h.fits
    cases hfits with
    | packed size_le holes_lt last_not_hole =>
      simp only [delete]
      split
      · exact h
      · rename_i hi
        rw [Bool.or_eq_true, decide_eq_true_eq, decide_eq_true_eq, not_or] at hi
        split
        · rename_i hlast
          have hpop : elements.pop.size = elements.size - 1 := by
            rw [← Elements.size_values, Elements.values_pop, Array.size_pop, Elements.size_values]
          refine valid_trimmed (by omega) ?_
          intro j hj
          have hlt := holes_lt j hj
          have hne : j ≠ i := fun heq => hi.2 (heq ▸ hj)
          omega
        · refine valid_packed (.packed size_le ?_ ?_)
          · intro j hj
            rcases Std.ExtHashSet.mem_insert.mp hj with hj | hj
            · rw [beq_iff_eq] at hj
              omega
            · exact holes_lt j hj
          · intro last hlast hj
            rcases Std.ExtHashSet.mem_insert.mp hj with hj | hj
            · rw [beq_iff_eq] at hj
              omega
            · exact last_not_hole last hlast hj
  | dictionary elements kind =>
    have hfits := h.fits
    cases hfits with
    | dictionary indices_lt holds kind_ne =>
      refine ⟨.dictionary ?_ ?_ kind_ne, ?_⟩
      · intro j hj
        exact indices_lt j (Std.ExtTreeMap.mem_of_mem_erase hj)
      · intro j v hv
        rw [Dictionary.getElem?_erase] at hv
        exact holds j v (Option.ite_none_left_eq_some.mp hv).2
      · rintro _ _ ⟨⟩
        exact Nat.lt_of_le_of_lt Std.ExtTreeMap.size_erase_le (h.size_lt _ _ rfl)
  | stuck => exact h

/-! ### Cutting the length -/

@[simp] theorem kind_cut (layout : Layout) (n : Nat) : (layout.cut n).kind = layout.kind := by
  cases layout <;> simp [cut]

theorem get?_cut (layout : Layout) (n j : Nat) :
    (layout.cut n).get? j = if j < n then layout.get? j else none := by
  cases layout with
  | packed elements holes =>
    rw [cut, get?_trimmed, get?_packed, get?_packed, Elements.values_truncate, getElem?_take]
    by_cases hj : j < n <;> simp [Std.ExtHashSet.mem_filter, hj]
  | dictionary elements kind =>
    have := Dictionary.getElem?_filter elements (fun i => decide (i < n)) j
    rw [cut, get?_dictionary, this, get?_dictionary]
    simp
  | stuck => exact (ite_self none).symm

theorem fits_cut (h : layout.Fits length) (n : Nat) : (layout.cut n).Fits n := by
  cases h with
  | @packed elements holes size_le holes_lt _ =>
    have hsize : (elements.truncate n).size = min n elements.size := by
      rw [← Elements.size_values, Elements.values_truncate]
      simp
    refine (valid_trimmed (by omega) fun j hj => ?_).fits
    rw [Std.ExtHashSet.mem_filter] at hj
    obtain ⟨hmem, hlt⟩ := hj
    have := holes_lt j hmem
    simp at hlt
    omega
  | @dictionary elements kind indices_lt holds kind_ne =>
    refine .dictionary ?_ ?_ kind_ne
    · intro j hj
      rw [Dictionary.mem_iff_isSome] at hj
      have := Dictionary.getElem?_filter elements (fun i => decide (i < n)) j
      rw [this] at hj
      by_contra hn
      simp [hn] at hj
    · intro j v hv
      have := Dictionary.getElem?_filter elements (fun i => decide (i < n)) j
      rw [this] at hv
      exact holds j v (Option.ite_none_right_eq_some.mp hv).2

/-! ### Opening a gap -/

theorem get?_gap {rest : Elements} {start n : Nat} (h : start < rest.size) (i : Nat) :
    (packed (rest.insertGap start n) ((∅ : HoleSet).insertMany (List.range' start n))).get? i =
      if i < start then rest.values[i]?
      else if i < start + n then none else rest.values[i - n]? := by
  rw [get?_packed, Elements.getElem?_values_insertGap (Elements.kind_ne_empty_of_lt h) h.le]
  simp only [HoleSet.mem_insertMany_range', Std.ExtHashSet.not_mem_empty, false_or]
  rcases Nat.lt_or_ge i start with hi | hi
  · rw [if_neg (by omega), if_pos hi, if_pos hi]
  · rw [if_neg (Nat.not_lt.mpr hi), if_neg (Nat.not_lt.mpr hi)]
    by_cases hn : i < start + n
    · rw [if_pos ⟨hi, hn⟩, if_pos hn]
    · rw [if_neg (by omega), if_neg hn, if_neg hn]

/-- The fillers of a gap are recorded as holes, and the last slot is behind the gap. -/
theorem valid_gap {rest : Elements} {start n : Nat} (h : start < rest.size) :
    (packed (rest.insertGap start n) ((∅ : HoleSet).insertMany (List.range' start n))).Valid
      (rest.size + n) := by
  have hsize : (rest.insertGap start n).size = rest.size + n :=
    Elements.size_insertGap (Elements.kind_ne_empty_of_lt h) h.le
  have hmem (i : Nat) : i ∈ (∅ : HoleSet).insertMany (List.range' start n) →
      start ≤ i ∧ i < start + n := by
    rw [HoleSet.mem_insertMany_range']
    exact fun hi => hi.resolve_left Std.ExtHashSet.not_mem_empty
  refine valid_packed (.packed hsize.le ?_ ?_)
  · intro i hi
    have := hmem i hi
    omega
  · intro last hlast hi
    have := hmem last hi
    omega

/-! ### Other changes -/

theorem kind_widenTo (h : layout.Fits length) (kind : ElementKind) :
    (layout.widenTo kind).kind = layout.kind.join kind := by
  cases h with
  | packed => exact Elements.kind_widenTo _ kind
  | dictionary => rfl

theorem get?_widenTo (layout : Layout) (kind : ElementKind) (i : Nat) :
    (layout.widenTo kind).get? i = layout.get? i := by
  cases layout with
  | packed elements holes => rw [widenTo, get?_packed, get?_packed, Elements.values_widenTo]
  | dictionary elements kind' => rfl
  | stuck => rfl

theorem valid_widenTo (h : layout.Valid length) (kind : ElementKind) :
    (layout.widenTo kind).Valid length := by
  have hfits := h.fits
  cases hfits with
  | @packed elements holes size_le holes_lt last_not_hole =>
    have hsize := Elements.size_widenTo elements kind
    exact valid_packed (.packed (by omega) (fun j hj => hsize ▸ holes_lt j hj)
      fun last hlast => last_not_hole last (by omega))
  | dictionary indices_lt holds kind_ne =>
    refine ⟨.dictionary indices_lt ?_ ?_, ?_⟩
    · intro j v hv
      exact ElementKind.holds_of_le ElementKind.le_join_left (holds j v hv)
    · exact ElementKind.join_ne_empty kind_ne
    · rintro _ _ ⟨⟩
      exact h.size_lt _ _ rfl

/-- The elements of a dictionary can be written to slots of its kind. -/
theorem exists_ofValues?_entries {elements : Dictionary} {kind : ElementKind}
    (holds : ∀ (i : Nat) (v : Value), elements[i]? = some v → kind.holds v) :
    ∃ slots, Elements.ofValues? kind (elements.toList.map Prod.snd) = some slots ∧
      slots.kind = kind ∧ slots.values = (elements.toList.map Prod.snd).toArray := by
  refine Elements.exists_ofValues? ?_
  intro v hv
  obtain ⟨⟨i, w⟩, hmem, rfl⟩ := List.mem_map.mp hv
  exact holds i w (Std.ExtTreeMap.mem_toList_iff_getElem?_eq_some.mp hmem)

theorem kind_pack (h : layout.Fits length) (n : Nat) : (layout.pack n).kind = layout.kind := by
  cases h with
  | packed => rfl
  | dictionary _ holds _ =>
    simp only [pack]
    split
    · obtain ⟨slots, hof, hkind, _⟩ := exists_ofValues?_entries holds
      rw [hof]
      exact hkind
    · rfl

/-- There is nothing to pack about slots. -/
theorem pack_written (elements : Option Elements) (holes : HoleSet) (n : Nat) :
    (written elements holes).pack n = written elements holes := by
  cases elements <;> rfl

/-- A dictionary without holes has the same elements as slots. -/
theorem get?_pack (h : layout.Fits length) (j : Nat) :
    (layout.pack length).get? j = layout.get? j := by
  cases h with
  | packed => rfl
  | @dictionary elements kind indices_lt holds _ =>
    simp only [pack]
    split
    · rename_i hsize
      obtain ⟨slots, hof, _, hvalues⟩ := exists_ofValues?_entries holds
      rw [hof, written, ← full, get?_full, hvalues, List.getElem?_toArray,
        Dictionary.getElem?_values_of_size_eq indices_lt hsize, get?_dictionary]
    · rfl

theorem valid_pack (h : layout.Fits length) : (layout.pack length).Valid length := by
  have hfits := h
  cases h with
  | packed => exact valid_packed hfits
  | @dictionary elements kind indices_lt holds _ =>
    simp only [pack]
    split
    · rename_i hsize
      obtain ⟨slots, hof, _, hvalues⟩ := exists_ofValues?_entries holds
      rw [hof]
      refine valid_full (Nat.le_of_eq ?_)
      rw [← Elements.size_values, hvalues]
      simpa using hsize
    · rename_i hsize
      refine ⟨hfits, ?_⟩
      rintro _ _ ⟨⟩
      have := Dictionary.size_le indices_lt
      omega

end Layout

end ArrayEngine
