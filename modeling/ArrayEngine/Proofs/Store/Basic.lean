import ArrayEngine.Proofs.SparseArray
import ArrayEngine.Proofs.Store.Layout
import ArrayEngine.Store.Step

/-!
# Stores as sparse arrays

`Store.toSparse` forgets how the elements of a store are kept. On valid stores every operation is
determined by the sparse array, and makes of it what the operation of the same name on sparse
arrays does; so does every observation. Layouts do not appear in what is built on this file.

## Main definitions

* `Store.Valid`: the representation invariant
* `Store.toSparse`: a store as a sparse array

## Main results

* `Store.toSparse_put`, `Store.toSparse_remove`, `Store.toSparse_setLength`, …
* `Store.isSparse_iff`, `Store.has_eq`, `Store.mem_entries`: the observations
* `Store.isDictionary_eq_false`: a store without holes is packed
-/

namespace ArrayEngine.Store

variable {s : Store}

/-! ### The invariant -/

/-- The representation invariant: the length is one that arrays have, and the layout is one for
this length. -/
structure Valid (s : Store) : Prop where
  length_le : s.length ≤ maxLength
  layout : s.layout.Valid s.length

/-- A store without its representation. -/
def toSparse (s : Store) : SparseArray where
  length := s.length
  kind := s.kind
  get? := s.get?
  get?_eq_none i hi := by rw [get?, if_neg (by omega)]

@[simp] theorem length_toSparse (s : Store) : s.toSparse.length = s.length := rfl

@[simp] theorem kind_toSparse (s : Store) : s.toSparse.kind = s.kind := rfl

@[simp] theorem get?_toSparse (s : Store) : s.toSparse.get? = s.get? := rfl

@[simp] theorem visible_toSparse (s : Store) : s.toSparse.visible = s.visible := rfl

/-- Stores with the same length, kind and elements are the same sparse array. -/
theorem toSparse_eq_iff {t : Store} :
    s.toSparse = t.toSparse ↔ s.length = t.length ∧ s.kind = t.kind ∧ ∀ i, s.get? i = t.get? i := by
  rw [SparseArray.ext_iff]
  simp [funext_iff]

theorem kind_eq_of_toSparse {a : SparseArray} (h : s.toSparse = a) : s.kind = a.kind :=
  congrArg SparseArray.kind h

theorem length_eq_of_toSparse {a : SparseArray} (h : s.toSparse = a) : s.length = a.length :=
  congrArg SparseArray.length h

theorem get?_eq_of_toSparse {a : SparseArray} (h : s.toSparse = a) (i : Nat) :
    s.get? i = a.get? i := congrFun (congrArg SparseArray.get? h) i

theorem Valid.get?_eq (h : s.Valid) (i : Nat) : s.get? i = s.layout.get? i := by
  rw [get?]
  split
  · rfl
  · rw [h.layout.fits.get?_eq_none (by omega)]

theorem Valid.layout_ne_stuck (h : s.Valid) : s.layout ≠ .stuck := by
  intro heq
  have hfits := h.layout.fits
  rw [heq] at hfits
  cases hfits

theorem Valid.held (h : s.Valid) : s.toSparse.Held := by
  intro i v hv
  rw [get?_toSparse, h.get?_eq] at hv
  exact h.layout.fits.holds hv

theorem Valid.holds (h : s.Valid) {i : Nat} {v : Value} (hv : s.get? i = some v) :
    s.kind.holds v := h.held i v hv

/-! ### Observations -/

theorem has_eq (h : s.Valid) (i : Nat) : s.has i = (s.get? i).isSome := by
  rw [has, Layout.has_eq, h.get?_eq]

theorem mem_entries (h : s.Valid) {i : Nat} {v : Value} :
    (i, v) ∈ s.entries ↔ s.get? i = some v := by
  rw [entries, Layout.mem_entries, h.get?_eq]

theorem pairwise_entries (s : Store) : s.entries.Pairwise fun a b => a.1 < b.1 :=
  Layout.pairwise_entries s.layout

/-- A store is sparse when some index below its length is a hole. -/
theorem isSparse_iff (h : s.Valid) : s.isSparse = true ↔ ∃ i < s.length, s.get? i = none := by
  obtain ⟨config, length, layout⟩ := s
  have hfits := h.layout.fits
  simp only [h.get?_eq]
  cases hfits with
  | @packed elements holes size_le holes_lt _ =>
    simp only [isSparse, Bool.or_eq_true, Bool.not_eq_true', decide_eq_true_eq]
    constructor
    · rintro (hne | hlt)
      · rw [HoleSet.isEmpty_eq_false_iff] at hne
        obtain ⟨i, hi⟩ := hne
        exact ⟨i, Nat.lt_of_lt_of_le (holes_lt i hi) size_le, by rw [Layout.get?_packed, if_pos hi]⟩
      · refine ⟨elements.size, hlt, ?_⟩
        rw [Layout.get?_packed, Array.getElem?_eq_none (by simp), ite_self]
    · rintro ⟨i, hi, hnone⟩
      rw [Layout.get?_packed] at hnone
      by_cases hmem : i ∈ holes
      · left
        rw [HoleSet.isEmpty_eq_false_iff]
        exact ⟨i, hmem⟩
      · right
        rw [if_neg hmem, Array.getElem?_eq_none_iff, Elements.size_values] at hnone
        omega
  | @dictionary elements kind indices_lt _ _ =>
    have hlt : elements.size < length := h.layout.size_lt _ _ rfl
    simp only [isSparse, decide_eq_true_eq]
    refine iff_of_true hlt ?_
    by_contra hall
    push Not at hall
    have hsub : (List.range length).Subperm elements.keys := by
      refine List.subperm_of_subset List.nodup_range ?_
      intro i hi
      rw [Std.ExtTreeMap.mem_keys, Dictionary.mem_iff_isSome]
      exact Option.isSome_iff_ne_none.mpr (hall i (List.mem_range.mp hi))
    have := hsub.length_le
    rw [List.length_range, Std.ExtTreeMap.length_keys] at this
    omega

theorem isSparse_eq_false (h : s.Valid) (hfull : s.toSparse.IsFull) : s.isSparse = false := by
  rw [Bool.eq_false_iff, ne_eq, isSparse_iff h]
  rintro ⟨i, hi, hnone⟩
  have := hfull i hi
  rw [get?_toSparse, hnone] at this
  cases this

/-- A store without holes is never kept in a dictionary. -/
theorem isDictionary_eq_false (h : s.Valid) (hfull : s.toSparse.IsFull) :
    s.isDictionary = false := by
  have hsparse := isSparse_eq_false h hfull
  obtain ⟨config, length, layout⟩ := s
  cases layout with
  | packed elements holes => rfl
  | dictionary elements kind =>
    have hlt := h.layout.size_lt _ _ rfl
    rw [isSparse, decide_eq_false_iff_not] at hsparse
    exact absurd hlt hsparse
  | stuck => rfl

/-! ### New stores -/

theorem valid_holes (config : Config) {length : Nat} (h : length ≤ maxLength) :
    (holes config length).Valid :=
  ⟨h, Layout.valid_full (Nat.zero_le _)⟩

@[simp] theorem toSparse_holes (config : Config) (length : Nat) :
    (holes config length).toSparse = .holes length := by
  ext i
  · rfl
  · rfl
  · simp [holes, SparseArray.holes, get?, Elements.values]

/-- Through a hole everything is seen that is inherited. -/
theorem visible_holes (config : Config) (length : Nat) (host : Host) (i : Nat) :
    (holes config length).visible host i = host.inherited i := by
  rw [visible, get?_eq_of_toSparse (toSparse_holes config length) i]
  rfl

theorem valid_empty (config : Config) : (empty config).Valid := valid_holes config (Nat.zero_le _)

/-- A store of packed elements that has no holes. -/
theorem valid_of_full {config : Config} {length : Nat} {elements : Elements}
    (hsize : elements.size ≤ length) (h : length ≤ maxLength) :
    (⟨config, length, .full elements⟩ : Store).Valid :=
  ⟨h, Layout.valid_full hsize⟩

theorem get?_of_full {config : Config} {length : Nat} {elements : Elements}
    (hsize : elements.size ≤ length) (i : Nat) :
    (⟨config, length, .full elements⟩ : Store).get? i = elements.values[i]? := by
  simp only [get?, Layout.get?_full]
  split
  · rfl
  · rw [Array.getElem?_eq_none (by simp; omega)]

theorem exists_ofValues (config : Config) (values : List Value) :
    ∃ slots, ofValues config values = ⟨config, values.length, .full slots⟩ ∧
      slots.kind = .ofAll values ∧ slots.values = values.toArray := by
  have holds : ∀ v ∈ values, (ElementKind.ofAll values).holds v := fun _ hv =>
    ElementKind.joinAll_holds hv
  obtain ⟨slots, hof, hkind, hvalues⟩ := Elements.exists_ofValues? holds
  exact ⟨slots, by rw [ofValues, hof]; rfl, hkind, hvalues⟩

theorem kind_ofValues (config : Config) (values : List Value) :
    (ofValues config values).kind = .ofAll values := by
  obtain ⟨slots, heq, hkind, -⟩ := exists_ofValues config values
  rw [heq]
  exact hkind

theorem get?_ofValues (config : Config) (values : List Value) (i : Nat) :
    (ofValues config values).get? i = values[i]? := by
  obtain ⟨slots, heq, -, hvalues⟩ := exists_ofValues config values
  have hsize : slots.size ≤ values.length := by
    rw [← Elements.size_values, hvalues, List.size_toArray]
  rw [heq, get?_of_full hsize, hvalues, List.getElem?_toArray]

theorem valid_ofValues (config : Config) {values : List Value} (h : values.length ≤ maxLength) :
    (ofValues config values).Valid := by
  obtain ⟨slots, heq, _, hvalues⟩ := exists_ofValues config values
  rw [heq]
  refine valid_of_full (Nat.le_of_eq ?_) h
  rw [← Elements.size_values, hvalues]
  simp

/-! ### Writing -/

theorem toSparse_put (h : s.Valid) (i : Nat) (v : Value) :
    (s.put i v).toSparse = s.toSparse.put i v := by
  obtain ⟨config, length, layout⟩ := s
  have hfits : (layout.put config.sparseGap i v).Fits (max length (i + 1)) :=
    Layout.fits_put h.layout.fits config.sparseGap i v
  ext : 1
  · rfl
  · exact (Layout.kind_pack hfits _).trans (Layout.kind_put h.layout.fits _ _ _)
  · funext j
    rw [SparseArray.get?_put, get?_toSparse, get?_toSparse, h.get?_eq, get?, put]
    simp only [Layout.get?_pack hfits, Layout.get?_put h.layout.fits]
    split
    · rfl
    · rename_i hlt
      have hnone : layout.get? j = none := h.layout.fits.get?_eq_none (show length ≤ j by omega)
      rw [if_neg (by omega), hnone]

theorem valid_put (h : s.Valid) {i : Nat} (hi : i < maxLength) (v : Value) :
    (s.put i v).Valid := by
  obtain ⟨config, length, layout⟩ := s
  have hle : length ≤ maxLength := h.length_le
  exact ⟨show max length (i + 1) ≤ maxLength by omega,
    Layout.valid_pack (Layout.fits_put h.layout.fits config.sparseGap i v)⟩

/-! ### Removing -/

theorem delete_fst (h : s.Valid) (i : Nat) : (s.delete i).1 = (s.get? i).isSome := by
  rw [h.get?_eq]
  exact Layout.delete_fst s.layout i

theorem toSparse_remove (h : s.Valid) (i : Nat) : (s.remove i).toSparse = s.toSparse.remove i := by
  obtain ⟨config, length, layout⟩ := s
  ext : 1
  · rfl
  · exact Layout.kind_delete layout i
  · funext j
    rw [SparseArray.get?_remove, get?_toSparse, get?_toSparse, h.get?_eq, get?, remove, delete]
    simp only [Layout.get?_delete]
    split
    · rfl
    · rename_i hlt
      have hnone : layout.get? j = none := h.layout.fits.get?_eq_none (show length ≤ j by omega)
      rw [hnone, ite_self]

theorem valid_remove (h : s.Valid) (i : Nat) : (s.remove i).Valid :=
  ⟨h.length_le, Layout.valid_delete h.layout i⟩

/-! ### The length and the kind -/

theorem toSparse_cut (h : s.Valid) (n : Nat) : (s.cut n).toSparse = s.toSparse.cut n := by
  obtain ⟨config, length, layout⟩ := s
  have hfits : (layout.cut n).Fits n := Layout.fits_cut h.layout.fits n
  ext : 1
  · rfl
  · exact (Layout.kind_pack hfits _).trans (Layout.kind_cut _ _)
  · funext j
    rw [SparseArray.get?_cut, get?_toSparse, get?_toSparse, h.get?_eq, get?, cut]
    simp only [Layout.get?_pack hfits, Layout.get?_cut]
    split <;> rfl

theorem valid_cut (h : s.Valid) {n : Nat} (hn : n ≤ maxLength) : (s.cut n).Valid := by
  obtain ⟨config, length, layout⟩ := s
  exact ⟨hn, Layout.valid_pack (Layout.fits_cut h.layout.fits n)⟩

theorem toSparse_grow (h : s.Valid) {n : Nat} (hn : s.length ≤ n) :
    ({ s with length := n } : Store).toSparse = s.toSparse.cut n := by
  ext : 1
  · rfl
  · rfl
  · funext j
    rw [SparseArray.cut_of_le hn, get?_toSparse, get?_toSparse, h.get?_eq, get?]
    split
    · rfl
    · rename_i hlt
      have hlt : ¬j < n := hlt
      rw [h.layout.fits.get?_eq_none (by omega)]

theorem valid_grow (h : s.Valid) {n : Nat} (hle : s.length ≤ n) (hn : n ≤ maxLength) :
    ({ s with length := n } : Store).Valid := ⟨hn, h.layout.mono hle⟩

theorem lastPinned?_eq (h : s.Valid) (start : Nat) (host : Host) :
    s.lastPinned? start host = s.toSparse.lastPinned? start host := by
  rw [lastPinned?, SparseArray.lastPinned?]
  congr 1
  refine eq_of_mem_iff ((Layout.pairwise_indicesFrom _ _).filter _)
    (List.pairwise_lt_range.filter _) fun i => ?_
  rw [SparseArray.mem_pinned, List.mem_filter, Layout.mem_indicesFrom, get?_toSparse, h.get?_eq,
    Bool.not_eq_true', and_assoc]

/-- A truncation does what it does to the sparse array, and stops where that stops. -/
theorem truncate_eq (h : s.Valid) (n : Nat) (host : Host) :
    (s.truncate n host).1 = (s.toSparse.truncate n host).1 ∧
      (s.truncate n host).2.toSparse = (s.toSparse.truncate n host).2 := by
  rw [truncate, SparseArray.truncate]
  rw [length_toSparse, ← lastPinned?_eq h]
  split
  · exact ⟨rfl, rfl⟩
  · cases s.lastPinned? n host with
    | some i => exact ⟨rfl, toSparse_cut h _⟩
    | none => exact ⟨rfl, toSparse_cut h _⟩

theorem setLength_eq (h : s.Valid) (n : Nat) (host : Host) :
    (s.setLength n host).1 = (s.toSparse.setLength n host).1 ∧
      (s.setLength n host).2.toSparse = (s.toSparse.setLength n host).2 := by
  rw [setLength, SparseArray.setLength]
  rw [length_toSparse]
  split
  · rename_i hle
    exact ⟨rfl, toSparse_grow h hle⟩
  · exact truncate_eq h n host

theorem lastPinned?_lt (h : s.Valid) {start i : Nat} {host : Host}
    (hi : s.lastPinned? start host = some i) : i < s.length := by
  rw [lastPinned?_eq h, SparseArray.lastPinned?] at hi
  exact List.mem_range.mp (List.mem_filter.mp (List.mem_of_getLast? hi)).1

theorem valid_truncate (h : s.Valid) (n : Nat) (host : Host) : (s.truncate n host).2.Valid := by
  have hle := h.length_le
  rw [truncate]
  split
  · exact h
  · split
    · rename_i i hi
      have := lastPinned?_lt h hi
      exact valid_cut h (by omega)
    · exact valid_cut h (by omega)

theorem valid_setLength (h : s.Valid) {n : Nat} (hn : n ≤ maxLength) (host : Host) :
    (s.setLength n host).2.Valid := by
  rw [setLength]
  split
  · rename_i hle
    exact valid_grow h hle hn
  · exact valid_truncate h n host

theorem toSparse_widenTo (h : s.Valid) (kind : ElementKind) :
    (s.widenTo kind).toSparse = s.toSparse.widenTo kind := by
  ext : 1
  · rfl
  · exact Layout.kind_widenTo h.layout.fits kind
  · funext j
    rw [SparseArray.get?_widenTo, get?_toSparse, get?_toSparse]
    simp only [get?, widenTo, Layout.get?_widenTo]

theorem valid_widenTo (h : s.Valid) (kind : ElementKind) : (s.widenTo kind).Valid :=
  ⟨h.length_le, Layout.valid_widenTo h.layout kind⟩

/-! ### Kinds -/

theorem kind_put (h : s.Valid) (i : Nat) (v : Value) : (s.put i v).kind = s.kind.join (.of v) := by
  rw [← kind_toSparse, toSparse_put h]
  rfl

theorem kind_remove (s : Store) (i : Nat) : (s.remove i).kind = s.kind :=
  Layout.kind_delete s.layout i

theorem kind_setLength (h : s.Valid) (n : Nat) (host : Host) :
    (s.setLength n host).2.kind = s.kind := by
  rw [← kind_toSparse, (setLength_eq h n host).2, SparseArray.kind_setLength, kind_toSparse]

theorem kind_widenTo (h : s.Valid) (kind : ElementKind) :
    (s.widenTo kind).kind = s.kind.join kind := Layout.kind_widenTo h.layout.fits kind

end ArrayEngine.Store
