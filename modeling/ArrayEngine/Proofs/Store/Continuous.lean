import ArrayEngine.Proofs.Store.Basic
import ArrayEngine.Store.Continuous

/-!
# Block operations by their sparse arrays

A store is continuous where its sparse array is: every index below the length is bound, and nothing
would be inherited there. Each block operation, where it applies, does one operation on the sparse
array. Where it does not apply it answers nothing; on a continuous store that is where what it is
asked for is out of range.

## Main results

* `Store.isContinuous_iff`: what a block operation asks for does not depend on the layout
* `Store.fastPush_spec`, `Store.fastPop_spec`, `Store.fastSplice_spec`, `Store.fastReverse_spec`
* `Store.fastSlice_spec`, `Store.fastGet_spec`, `Store.fastSet_spec`
* `Store.isSome_fastPush`, …, `Store.isSome_fastReverse`: where block operations apply
-/

namespace ArrayEngine.Store

variable {s t : Store} {host : Host}

/-! ### Continuous stores -/

theorem isContinuous_iff (h : s.Valid) :
    s.isContinuous host = true ↔ s.toSparse.Continuous host := by
  have hinherited : (!host.indexed || (List.range s.length).all fun i => !host.shadows i) = true ↔
      ∀ i < s.length, host.inherited i = none := by
    cases hindexed : host.indexed with
    | false => simp [host.inherited_of_not_indexed hindexed]
    | true => simp [Host.shadows]
  rw [isContinuous, Bool.and_eq_true, hinherited, Bool.and_eq_true, Bool.not_eq_true',
    Bool.not_eq_true']
  refine and_congr_left fun _ => ⟨?_, ?_⟩
  · rintro ⟨hsparse, -⟩ i hi
    rw [Bool.eq_false_iff, ne_eq, isSparse_iff h] at hsparse
    push Not at hsparse
    exact Option.isSome_iff_ne_none.mpr (hsparse i hi)
  · intro hfull
    exact ⟨isSparse_eq_false h hfull, isDictionary_eq_false h hfull⟩

/-- The slots of a full store are its elements. -/
theorem exists_full (h : s.Valid) (hfull : s.toSparse.IsFull) :
    ∃ elements, s.layout = .full elements ∧ elements.size = s.length := by
  have hsparse := isSparse_eq_false h hfull
  have hdictionary := isDictionary_eq_false h hfull
  obtain ⟨config, length, layout⟩ := s
  have hfits := h.layout.fits
  cases hfits with
  | @packed elements holes size_le _ _ =>
    simp only [isSparse, Bool.or_eq_false_iff, Bool.not_eq_false', decide_eq_false_iff_not,
      Std.ExtHashSet.isEmpty_iff] at hsparse
    obtain ⟨rfl, hsize⟩ := hsparse
    exact ⟨elements, rfl, Nat.le_antisymm size_le (Nat.le_of_not_lt hsize)⟩
  | dictionary => cases hdictionary

theorem continuousParts?_eq_some (h : s.Valid) {elements : Elements} {holes : HoleSet}
    (hparts : s.continuousParts? host = some (elements, holes)) :
    s.toSparse.Continuous host ∧ holes = ∅ ∧ s.layout = .full elements ∧
      elements.size = s.length := by
  rw [continuousParts?] at hparts
  split at hparts
  · rename_i hcontinuous
    rw [isContinuous_iff h] at hcontinuous
    obtain ⟨slots, hlayout, hsize⟩ := exists_full h hcontinuous.1
    rw [hlayout] at hparts
    cases hparts
    exact ⟨hcontinuous, rfl, hlayout, hsize⟩
  · cases hparts

theorem exists_continuousParts? (h : s.Valid) (hcontinuous : s.isContinuous host) :
    ∃ elements, s.continuousParts? host = some (elements, ∅) ∧ elements.size = s.length := by
  obtain ⟨elements, hlayout, hsize⟩ := exists_full h ((isContinuous_iff h).mp hcontinuous).1
  refine ⟨elements, ?_, hsize⟩
  rw [continuousParts?, if_pos hcontinuous, hlayout]
  rfl

/-- A store whose layout has the elements of a sparse array is valid, and stands for it. -/
theorem mk_spec (config : Config) {layout : Layout} {a : SparseArray}
    (hlayout : layout.Valid a.length) (hlength : a.length ≤ maxLength)
    (hkind : layout.kind = a.kind) (hget : ∀ i < a.length, layout.get? i = a.get? i) :
    (⟨config, a.length, layout⟩ : Store).Valid ∧
      (⟨config, a.length, layout⟩ : Store).toSparse = a :=
  ⟨⟨hlength, hlayout⟩, SparseArray.ext_of_lt rfl hkind fun i hi => (if_pos hi).trans (hget i hi)⟩

theorem full_spec (config : Config) {slots : Elements} {a : SparseArray}
    (hsize : slots.size ≤ a.length) (hlength : a.length ≤ maxLength) (hkind : slots.kind = a.kind)
    (hget : ∀ i < a.length, slots.values[i]? = a.get? i) :
    (⟨config, a.length, .full slots⟩ : Store).Valid ∧
      (⟨config, a.length, .full slots⟩ : Store).toSparse = a :=
  mk_spec config (Layout.valid_full hsize) hlength hkind fun i hi =>
    (Layout.get?_full slots i).trans (hget i hi)

theorem get?_eq_values {elements : Elements} (hlayout : s.layout = .full elements)
    (hsize : elements.size = s.length) (i : Nat) : s.get? i = elements.values[i]? := by
  obtain ⟨config, length, layout⟩ := s
  cases hlayout
  exact get?_of_full hsize.le i

theorem kind_eq_of_full {elements : Elements} (hlayout : s.layout = .full elements) :
    s.kind = elements.kind := by
  rw [kind, hlayout]
  rfl

/-! ### At the end -/

theorem fastPush_spec (h : s.Valid) {values : List Value} {n : Nat}
    (hpush : s.fastPush values host = some (n, t)) :
    t.Valid ∧ t.toSparse = s.toSparse.replace s.length 0 values ∧
      n = s.length + values.length ∧ n ≤ maxLength ∧ s.toSparse.Continuous host := by
  simp only [fastPush, Option.ite_none_left_eq_some, Nat.not_lt, Option.map_eq_some_iff] at hpush
  obtain ⟨hn, ⟨elements, holes⟩, hparts, heq⟩ := hpush
  obtain ⟨hcontinuous, rfl, hlayout, hsize⟩ := continuousParts?_eq_some h hparts
  obtain ⟨slots, hfold, hkind, hvalues⟩ := Elements.exists_foldlM_fit_push? elements values
  simp only [hfold, Prod.mk.injEq] at heq
  obtain ⟨rfl, rfl⟩ := heq
  have hslots : slots.size = s.length + values.length := by
    rw [← Elements.size_values, hvalues]
    simp [hsize]
  have hspec : (⟨s.config, s.length + values.length, .full slots⟩ : Store).Valid ∧
      toSparse ⟨s.config, s.length + values.length, .full slots⟩
        = s.toSparse.replace s.length 0 values := by
    refine full_spec s.config (a := s.toSparse.replace s.length 0 values) hslots.le hn ?_
      fun i hi => ?_
    · rw [hkind, ElementKind.joinAll_eq_join_ofAll, ← kind_eq_of_full hlayout]
      rfl
    · have hi' : i < s.length + values.length := hi
      rw [SparseArray.get?_replace hi, if_pos hi', get?_toSparse, get?_eq_values hlayout hsize,
        hvalues, Array.getElem?_append, Elements.size_values, hsize]
      simp
  exact ⟨hspec.1, hspec.2, rfl, hn, hcontinuous⟩

theorem fastPop_spec (h : s.Valid) {v : Value} (hpop : s.fastPop host = some (v, t)) :
    t.Valid ∧ t.toSparse = s.toSparse.cut (s.length - 1) ∧ s.get? (s.length - 1) = some v ∧
      0 < s.length ∧ s.toSparse.Continuous host := by
  simp only [fastPop, Option.ite_none_left_eq_some, Option.bind_eq_bind, Option.bind_eq_some_iff,
    Option.pure_def, Option.some.injEq, Prod.mk.injEq] at hpop
  obtain ⟨hpos, ⟨elements, holes⟩, hparts, v, hlast, rfl, rfl⟩ := hpop
  obtain ⟨hcontinuous, rfl, hlayout, hsize⟩ := continuousParts?_eq_some h hparts
  have hle := h.length_le
  have hslots : elements.pop.size = s.length - 1 := by
    rw [← Elements.size_values, Elements.values_pop, Array.size_pop, Elements.size_values, hsize]
  have hspec : (⟨s.config, s.length - 1, .full elements.pop⟩ : Store).Valid ∧
      toSparse ⟨s.config, s.length - 1, .full elements.pop⟩ = s.toSparse.cut (s.length - 1) := by
    refine full_spec s.config (a := s.toSparse.cut (s.length - 1)) hslots.le
      (show s.length - 1 ≤ maxLength by omega) ?_ fun i hi => ?_
    · exact (Elements.kind_pop _).trans (kind_eq_of_full hlayout).symm
    · have hi : i < s.length - 1 := hi
      rw [SparseArray.get?_cut, if_pos hi, get?_toSparse, get?_eq_values hlayout hsize,
        Elements.values_pop, Array.getElem?_pop, Elements.size_values, hsize, if_pos hi]
  refine ⟨hspec.1, hspec.2, ?_, by omega, hcontinuous⟩
  rw [get?_eq_values hlayout hsize, ← Elements.get?_eq, ← hlast, hsize]

/-! ### Blocks -/

theorem fastSlice_spec (h : s.Valid) {start stop : Nat}
    (hslice : s.fastSlice start stop host = some t) :
    t.Valid ∧ t.length = stop - start ∧ t.kind = (if start = stop then .empty else s.kind) ∧
      ∀ i < stop - start, t.get? i = s.get? (start + i) := by
  simp only [fastSlice, Option.ite_none_left_eq_some, Bool.or_eq_true, decide_eq_true_eq, not_or,
    Nat.not_lt, Option.map_eq_some_iff] at hslice
  obtain ⟨⟨hle, hstop⟩, ⟨elements, holes⟩, hparts, rfl⟩ := hslice
  obtain ⟨-, rfl, hlayout, hsize⟩ := continuousParts?_eq_some h hparts
  have hlength := h.length_le
  -- An empty part is of the least kind, and otherwise has the same values as a copy.
  obtain ⟨part, hpart, hkind, hvalues⟩ : ∃ part : Elements,
      (if start = stop then .empty else elements.extract start stop) = part ∧
        part.kind = (if start = stop then .empty else s.kind) ∧
        part.values = elements.values.extract start stop := by
    rw [kind_eq_of_full hlayout]
    split
    · rename_i heq
      exact ⟨_, rfl, rfl, by simp [heq, Elements.values]⟩
    · exact ⟨_, rfl, Elements.kind_extract .., Elements.values_extract ..⟩
  have hslots : part.size = stop - start := by
    rw [← Elements.size_values, hvalues]
    simp
    omega
  rw [hpart]
  refine ⟨valid_of_full hslots.le (show stop - start ≤ maxLength by omega), rfl, hkind,
    fun i hi => ?_⟩
  rw [get?_of_full hslots.le, hvalues, get?_eq_values hlayout hsize, Array.getElem?_extract,
    if_pos (by simp [hsize]; omega)]

theorem fastSplice_bounds {start count inserted : Nat} {removed : Store}
    (hsplice : s.fastSplice start count inserted host = some (removed, t)) :
    start ≤ s.length ∧ count ≤ s.length - start ∧ s.length - count + inserted ≤ maxLength := by
  simp only [fastSplice, Option.ite_none_left_eq_some, Bool.or_eq_true, decide_eq_true_eq, not_or,
    Nat.not_lt] at hsplice
  exact ⟨hsplice.1.1.1, hsplice.1.1.2, hsplice.1.2⟩

theorem fastSplice_spec (h : s.Valid) {start count inserted : Nat} {removed : Store}
    (hsplice : s.fastSplice start count inserted host = some (removed, t)) :
    (removed.Valid ∧ removed.toSparse = s.toSparse.window start count) ∧
      (t.Valid ∧ t.toSparse = s.toSparse.splice start count inserted fun _ => none) ∧
      s.toSparse.Continuous host := by
  obtain ⟨hstart, hcount, hn⟩ := fastSplice_bounds hsplice
  simp only [fastSplice, Option.ite_none_left_eq_some, Option.map_eq_some_iff,
    Prod.mk.injEq] at hsplice
  obtain ⟨-, ⟨elements, holes⟩, hparts, rfl, rfl⟩ := hsplice
  obtain ⟨hcontinuous, rfl, hlayout, hsize⟩ := continuousParts?_eq_some h hparts
  have hle := h.length_le
  refine ⟨?_, ?_, hcontinuous⟩
  · have hslots : (elements.extract start (start + count)).size = count := by
      rw [← Elements.size_values, Elements.values_extract]
      simp [hsize]
      omega
    refine full_spec s.config (a := s.toSparse.window start count) hslots.le
      (show count ≤ maxLength by omega) ?_ fun i hi => ?_
    · exact (Elements.kind_extract ..).trans (kind_eq_of_full hlayout).symm
    · have hi : i < count := hi
      rw [SparseArray.get?_window hi, get?_toSparse,
        get?_eq_values hlayout hsize, Elements.values_extract, Array.getElem?_extract,
        if_pos (by simp [hsize]; omega)]
  · have hrest : (elements.drain start (start + count)).size = s.length - count := by
      rw [Elements.size_drain (Nat.le_add_right ..) (by omega)]
      omega
    have hvalues (i : Nat) : (elements.drain start (start + count)).values[i]?
        = if i < start then s.get? i else s.get? (i + count) := by
      rw [Elements.getElem?_values_drain (hsize ▸ hstart), get?_eq_values hlayout hsize,
        get?_eq_values hlayout hsize]
      split
      · rfl
      · rw [show i - start + (start + count) = i + count by omega]
    have hkind : (elements.drain start (start + count)).kind = s.kind :=
      (Elements.kind_drain ..).trans (kind_eq_of_full hlayout).symm
    dsimp only
    split
    · rename_i hlt
      have hvalid := Layout.valid_gap (n := inserted) hlt
      rw [hrest] at hvalid
      refine mk_spec s.config (a := s.toSparse.splice start count inserted fun _ => none) hvalid hn
        ((Elements.kind_insertGap ..).trans hkind) fun i hi => ?_
      rw [Layout.get?_gap hlt, SparseArray.get?_splice _ hi, get?_toSparse, hvalues, hvalues]
      by_cases hi₁ : i < start
      · rw [if_pos hi₁, if_pos hi₁, if_pos hi₁]
      · rw [if_neg hi₁, if_neg hi₁]
        by_cases hi₂ : i < start + inserted
        · rw [if_pos hi₂, if_pos hi₂]
        · rw [if_neg hi₂, if_neg hi₂, if_neg (by omega)]
    · rename_i hge
      -- No slot is left behind the gap, which lies between the slots and the length.
      refine full_spec s.config (a := s.toSparse.splice start count inserted fun _ => none)
        (hrest.le.trans (Nat.le_add_right ..)) hn hkind fun i hi => ?_
      have hi' : i < s.length - count + inserted := hi
      rw [SparseArray.get?_splice _ hi, hvalues, get?_toSparse]
      by_cases hi₁ : i < start
      · rw [if_pos hi₁, if_pos hi₁]
      · rw [if_neg hi₁, if_neg hi₁, if_pos (by omega)]
        exact s.toSparse.get?_eq_none (i + count) (show s.length ≤ i + count by omega)

theorem fastReverse_spec (h : s.Valid) (hreverse : s.fastReverse host = some t) :
    t.Valid ∧ t.toSparse = s.toSparse.reverse ∧ s.toSparse.Continuous host := by
  obtain ⟨⟨elements, holes⟩, hparts, rfl⟩ := Option.map_eq_some_iff.mp hreverse
  obtain ⟨hcontinuous, rfl, hlayout, hsize⟩ := continuousParts?_eq_some h hparts
  have hslots : elements.reverse.size = s.length := by
    rw [← Elements.size_values, Elements.values_reverse, Array.size_reverse, Elements.size_values,
      hsize]
  rw [← and_assoc]
  refine ⟨full_spec s.config (a := s.toSparse.reverse) hslots.le h.length_le ?_ fun i hi => ?_,
    hcontinuous⟩
  · exact (Elements.kind_reverse _).trans (kind_eq_of_full hlayout).symm
  · have hi : i < s.length := hi
    rw [SparseArray.get?_reverse (a := s.toSparse) hi, length_toSparse, get?_toSparse,
      get?_eq_values hlayout hsize, Elements.values_reverse,
      Array.getElem?_reverse (by simpa [hsize] using hi), Elements.size_values, hsize]

/-! ### Single elements -/

theorem fastGet_spec (h : s.Valid) {i : Nat} {v : Value} (hget : s.fastGet i = some v) :
    s.get? i = some v := by
  rw [h.get?_eq]
  rw [fastGet] at hget
  split at hget
  · rename_i elements holes hlayout
    rw [hlayout]
    exact hget
  · cases hget

/-- A write that is made in place is the write that any store would make. -/
theorem fastSet_spec (h : s.Valid) {i : Nat} {v : Value} (hset : s.fastSet i v = some t) :
    t = s.put i v ∧ i ≤ s.length ∧ i < maxLength := by
  obtain ⟨config, length, layout⟩ := s
  have hle : length ≤ maxLength := h.length_le
  have hfits := h.layout.fits
  cases hfits with
  | dictionary => cases hset
  | @packed elements holes size_le holes_lt _ =>
    simp only [fastSet, Option.ite_none_right_eq_some, Bool.or_eq_true, Bool.and_eq_true,
      decide_eq_true_eq, Option.some.injEq] at hset
    obtain ⟨hwhere, rfl⟩ := hset
    have size_le : elements.size ≤ length := size_le
    have hlt : i < maxLength := by omega
    refine ⟨?_, show i ≤ length by omega, hlt⟩
    have hput : (Layout.packed elements holes).put config.sparseGap i v
        = .written ((elements.fit v).put? i v) holes := by
      rw [Layout.put, if_neg (by omega), Layout.putSlot, if_neg (by omega)]
      split
      · rfl
      · rename_i hne
        rw [HoleSet.erase_of_not_mem (hwhere.resolve_left fun h => hne h.1.1).2]
    rw [put, hput, Layout.pack_written, Store.mk.injEq]
    refine ⟨rfl, ?_, rfl⟩
    split <;> omega

/-! ### Where block operations apply -/

section Applies

variable (h : s.Valid) (hcontinuous : s.isContinuous host)

include h hcontinuous

theorem isSome_fastPush (values : List Value) :
    (s.fastPush values host).isSome ↔ s.length + values.length ≤ maxLength := by
  obtain ⟨elements, hparts, -⟩ := exists_continuousParts? h hcontinuous
  rw [fastPush, hparts, ← Nat.not_lt]
  dsimp only
  split
  · rename_i hlong
    exact iff_of_false Bool.false_ne_true (not_not_intro hlong)
  · rename_i hshort
    exact iff_of_true rfl hshort

theorem isSome_fastPop : (s.fastPop host).isSome ↔ 0 < s.length := by
  obtain ⟨elements, hparts, hsize⟩ := exists_continuousParts? h hcontinuous
  rw [fastPop, hparts]
  split
  · rename_i hzero
    exact iff_of_false Bool.false_ne_true (Nat.not_lt.mpr hzero.le)
  · rename_i hne
    have hpos : 0 < s.length := Nat.pos_of_ne_zero hne
    obtain ⟨last, hlast⟩ := Option.isSome_iff_exists.mp
      (Elements.get?_isSome.mpr (show elements.size - 1 < elements.size by omega))
    refine iff_of_true ?_ hpos
    simp [hlast]

theorem isSome_fastSlice (start stop : Nat) :
    (s.fastSlice start stop host).isSome ↔ start ≤ stop ∧ stop ≤ s.length := by
  obtain ⟨elements, hparts, -⟩ := exists_continuousParts? h hcontinuous
  rw [fastSlice, hparts]
  split
  · rename_i hout
    simp only [Bool.or_eq_true, decide_eq_true_eq] at hout
    exact iff_of_false Bool.false_ne_true (by omega)
  · rename_i hin
    simp only [Bool.or_eq_true, decide_eq_true_eq] at hin
    exact iff_of_true rfl (by omega)

theorem isSome_fastSplice (start count inserted : Nat) :
    (s.fastSplice start count inserted host).isSome ↔
      start ≤ s.length ∧ count ≤ s.length - start ∧
        s.length - count + inserted ≤ maxLength := by
  obtain ⟨elements, hparts, -⟩ := exists_continuousParts? h hcontinuous
  rw [fastSplice, hparts]
  dsimp only
  split
  · rename_i hout
    simp only [Bool.or_eq_true, decide_eq_true_eq] at hout
    exact iff_of_false Bool.false_ne_true (by omega)
  · rename_i hin
    simp only [Bool.or_eq_true, decide_eq_true_eq] at hin
    exact iff_of_true rfl (by omega)

theorem isSome_fastReverse : (s.fastReverse host).isSome := by
  obtain ⟨elements, hparts, -⟩ := exists_continuousParts? h hcontinuous
  rw [fastReverse, hparts]
  rfl

end Applies

end ArrayEngine.Store
