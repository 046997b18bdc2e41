import ArrayEngine.Proofs.Bulk.Window
import ArrayEngine.Proofs.Operation

/-!
# Kinds of derived arrays

Slicing and splicing answer a new array, as one block or index by index. A block keeps the kind of
the array that it is taken from, which may be wider than its elements need: the array holds other
elements too, or was widened for one that is gone. A copy index by index starts from nothing and is
widened only as far as its elements need.

So the kind of what is answered tells the two ways apart, and it does so exactly if the array is of
a wider kind than the elements of the window need. An empty slice is of the least kind either way;
an empty range that is cut out by a splice is so only index by index.

## Main results

* `Store.exists_visiblePart_of_values`: the kind of a copy
* `Store.visiblePart_of_genericSplice`: a splice answers such a copy
* `Store.Reachable.derived_kind`: both ways, and when their kinds agree
* `Store.derived_kind_ne`: they need not
-/

namespace ArrayEngine

open Binary (Double)

namespace Store

variable {s t : Store} {host : Host} {start n : Nat} {values : List Value}

/-! ### Copies index by index -/

/-- The elements of a window have a list of values, which the kind of the array holds. -/
theorem exists_window (h : s.Valid) (hfull : s.toSparse.IsFull) (hend : start + n ≤ s.length) :
    ∃ window : List Value, window.length = n ∧ (∀ k < n, s.get? (start + k) = window[k]?) ∧
      ElementKind.ofAll window ≤ s.kind := by
  have hsome : ∀ k < n, (s.toSparse.get? (start + k)).isSome :=
    fun k hk => hfull (start + k) (show start + k < s.length by omega)
  obtain ⟨window, rfl, hwindow⟩ := SparseArray.exists_values hsome
  have hholds : ∀ v ∈ window, s.kind.holds v := by
    intro v hv
    obtain ⟨k, hk, rfl⟩ := List.mem_iff_getElem.mp hv
    exact h.held (start + k) _ ((hwindow k hk).trans (List.getElem?_eq_getElem hk))
  refine ⟨window, rfl, hwindow, ?_⟩
  have hjoin := ElementKind.joinAll_of_holds hholds
  rw [ElementKind.joinAll_eq_join_ofAll] at hjoin
  rw [← hjoin]
  exact ElementKind.le_join_right

/-- A copy of indices that all hold elements is as wide as these elements need. -/
theorem exists_visiblePart_of_values (host : Host)
    (hvalues : ∀ k < values.length, s.get? (start + k) = values[k]?)
    (hn : values.length ≤ maxLength) :
    ∃ part, s.visiblePart host start values.length = .ok part ∧ part.kind = .ofAll values := by
  have hlength : ((SparseArray.holes 0).write 0 values).length ≤ values.length := by
    rw [SparseArray.length_write, Nat.zero_add]
    exact Nat.max_le.mpr ⟨Nat.zero_le _, Nat.le_refl _⟩
  have hcopy : Takes (.holes 0) (copyPart s host start values.length) (.ok ())
      (((SparseArray.holes 0).write 0 values).cut values.length) :=
    (takes_copyVisible hvalues (Nat.le_refl 0) (by rwa [Nat.zero_add])).bind
      (takes_assignLength_of_le hn hlength)
  obtain ⟨part, hpart, -, heq⟩ := exists_build hcopy s.config
  exact ⟨part, hpart, kind_eq_of_toSparse heq⟩

/-- What a splice answers, if it answers, is a copy of the window. -/
theorem visiblePart_of_genericSplice {removed : Store} (hstart : start ≤ s.length)
    (hn : n ≤ s.length - start)
    (h : (genericSplice start n values host).perform s = (.ok removed, t)) :
    s.visiblePart host start n = .ok removed := by
  rw [genericSplice_eq, Edit.perform_get_bind] at h
  dsimp only at h
  rw [Nat.min_eq_left hstart, Nat.min_eq_left hn, checkLength] at h
  split at h
  · rw [pure_bind, Edit.perform_get_bind, Edit.perform_bind, Edit.perform_ofExcept] at h
    cases hpart : s.visiblePart host start n with
    | error e =>
      rw [hpart] at h
      cases h
    | ok part =>
      rw [hpart] at h
      dsimp only at h
      rw [Edit.perform_bind] at h
      split at h
      · cases h
        rfl
      · cases h
  · cases h

/-! ### Both ways -/

variable {window : List Value}

/-- A block that is not empty has the kind of the array, a copy that of its elements. -/
theorem exists_slices (h : s.Valid) (hcontinuous : s.isContinuous host)
    (hend : start + window.length ≤ s.length)
    (hwindow : ∀ k < window.length, s.get? (start + k) = window[k]?) :
    ∃ block copy, s.fastSlice start (start + window.length) host = some block ∧
      s.genericSlice start (start + window.length) host = .ok copy ∧
      block.kind = (if window.length = 0 then .empty else s.kind) ∧
      copy.kind = .ofAll window := by
  have hle := h.length_le
  obtain ⟨block, hblock⟩ := Option.isSome_iff_exists.mp
    ((isSome_fastSlice h hcontinuous start (start + window.length)).mpr ⟨by omega, hend⟩)
  obtain ⟨copy, hcopy, hcopyKind⟩ := exists_visiblePart_of_values host hwindow (by omega)
  refine ⟨block, copy, hblock, ?_, ?_, hcopyKind⟩
  · rw [genericSlice, Nat.add_sub_cancel_left]
    exact hcopy
  · rw [(fastSlice_spec h hblock).2.2.1]
    exact if_congr (by omega) rfl rfl

/-- What is cut out as a block has the kind of the array, even if it is empty. -/
theorem exists_fastSplice (h : s.Valid) (hcontinuous : s.isContinuous host) {inserted : Nat}
    (hend : start + n ≤ s.length) (hn : s.length - n + inserted ≤ maxLength) :
    ∃ block rest, s.fastSplice start n inserted host = some (block, rest) ∧
      block.kind = s.kind := by
  obtain ⟨⟨block, rest⟩, hsplice⟩ := Option.isSome_iff_exists.mp
    ((isSome_fastSplice h hcontinuous start n inserted).mpr ⟨by omega, by omega, hn⟩)
  exact ⟨block, rest, hsplice, kind_eq_of_toSparse (fastSplice_spec h hsplice).1.2⟩

/-- **The kind of a derived array depends on the way.** Let all indices of a window hold elements,
as they do in a continuous array. A slice as one block is of the kind of the array, or of the least
one if it is empty; index by index it is of the kind that its elements need. So the kinds agree just
if the slice is empty or the array is not wider than its elements need. What a splice cuts out as
one block is of the kind of the array even if it is empty; index by index it is of the kind that its
elements need, if the splice answers, which it does wherever the host lets go what is left over. -/
theorem Reachable.derived_kind (h : s.Reachable) (hcontinuous : s.isContinuous host)
    (hend : start + n ≤ s.length) :
    ∃ window : List Value, window.length = n ∧
      (∀ k < n, s.get? (start + k) = window[k]?) ∧ ElementKind.ofAll window ≤ s.kind ∧
      (∃ block copy, s.fastSlice start (start + n) host = some block ∧
        s.genericSlice start (start + n) host = .ok copy ∧
        block.kind = (if n = 0 then .empty else s.kind) ∧ copy.kind = .ofAll window ∧
        (block.kind = copy.kind ↔ n = 0 ∨ s.kind = .ofAll window)) ∧
      ∀ values : List Value, s.length - n + values.length ≤ maxLength →
        ∃ block rest, s.fastSplice start n values.length host = some (block, rest) ∧
          block.kind = s.kind ∧
          (∀ copy t, (genericSplice start n values host).perform s = (.ok copy, t) →
            copy.kind = .ofAll window ∧ (block.kind = copy.kind ↔ s.kind = .ofAll window)) ∧
          ((∀ i, s.length - n + values.length ≤ i → i < s.length → host.deletable i) →
            ∃ copy t, (genericSplice start n values host).perform s = (.ok copy, t)) := by
  have hvalid := h.valid
  have hmax := hvalid.length_le
  have hfull := ((isContinuous_iff hvalid).mp hcontinuous).1
  obtain ⟨window, rfl, hwindow, hkind⟩ := exists_window hvalid hfull hend
  obtain ⟨part, hpart, hpartKind⟩ := exists_visiblePart_of_values host hwindow (by omega)
  obtain ⟨block, copy, hblock, hcopy, hblockKind, hcopyKind⟩ :=
    exists_slices hvalid hcontinuous hend hwindow
  refine ⟨window, rfl, hwindow, hkind,
    ⟨block, copy, hblock, hcopy, hblockKind, hcopyKind, ?_⟩, fun values hn => ?_⟩
  · rw [hblockKind, hcopyKind]
    split
    · rename_i hzero
      obtain rfl := List.eq_nil_of_length_eq_zero hzero
      exact iff_of_true rfl (.inl hzero)
    · rename_i hne
      rw [or_iff_right hne]
  · obtain ⟨removed, rest, hsplice, hremoved⟩ := exists_fastSplice hvalid hcontinuous hend hn
    refine ⟨removed, rest, hsplice, hremoved, ?_, fun hhost => ?_⟩
    · intro copy t hperform
      have hcopy := visiblePart_of_genericSplice (by omega) (by omega) hperform
      obtain rfl : part = copy := Except.ok.inj (hpart.symm.trans hcopy)
      rw [hremoved, hpartKind]
      exact ⟨rfl, Iff.rfl⟩
    · have hstart : start ≤ s.length := by omega
      have hcount : window.length ≤ s.length - start := by omega
      obtain ⟨copy, -, -, t, hperform, -⟩ :=
        exists_genericSplice hvalid hfull hstart hcount hn hhost
      exact ⟨copy, t, hperform⟩

/-- The first element of `2` and `0.5`, as a slice and cut out. -/
theorem derived_kind_of_mixed :
    let s := ofValues {} [.number (Double.ofNat 2), .number ⟨0x3fe0000000000000⟩]
    (∃ block copy, s.fastSlice 0 1 .plain = some block ∧ s.genericSlice 0 1 .plain = .ok copy ∧
        block.kind = .float64 ∧ copy.kind = .int32) ∧
      ∃ block rest copy t, s.fastSplice 0 1 0 .plain = some (block, rest) ∧
        (genericSplice 0 1 [] .plain).perform s = (.ok copy, t) ∧
        block.kind = .float64 ∧ copy.kind = .int32 := by
  intro s
  have hreachable : s.Reachable := .ofValues {} _ (by decide)
  have hcontinuous : s.isContinuous .plain := by decide +kernel
  have hend : 0 + 1 ≤ s.length := by decide
  obtain ⟨window, hlength, hwindow, -, ⟨block, copy, hblock, hcopy, hblockKind, hcopyKind, -⟩,
    hsplice⟩ := hreachable.derived_kind hcontinuous hend
  obtain ⟨removed, rest, hfast, hremoved, hkinds, hanswers⟩ := hsplice [] (by decide)
  obtain ⟨other, t, hgeneric⟩ := hanswers fun _ _ _ => rfl
  have hkind : s.kind = .float64 := (kind_ofValues {} _).trans (by decide +kernel)
  have hneeds : ElementKind.ofAll window = .int32 := by
    obtain ⟨v, rfl⟩ := List.length_eq_one_iff.mp hlength
    have hv : s.get? 0 = some v := hwindow 0 Nat.one_pos
    rw [get?_ofValues, List.getElem?_cons_zero, Option.some.injEq] at hv
    rw [← hv]
    decide +kernel
  rw [if_neg Nat.one_ne_zero, hkind] at hblockKind
  exact ⟨⟨block, copy, hblock, hcopy, hblockKind, hcopyKind.trans hneeds⟩, removed,
    rest, other, t, hfast, hgeneric, hremoved.trans hkind,
    (hkinds other t hgeneric).1.trans hneeds⟩

/-- Of the array of `2` and `0.5`, the slice `2` is of double numbers as one block and of integers
index by index; what a splice cuts out, though it has no element, is of double numbers as one block
and of the least kind index by index. -/
theorem derived_kind_ne :
    let s := ofValues {} [.number (Double.ofNat 2), .number ⟨0x3fe0000000000000⟩]
    s.isContinuous .plain = true ∧
      (s.fastSlice 0 1 .plain).map kind = some .float64 ∧
      (s.genericSlice 0 1 .plain).map kind = .ok .int32 ∧
      (s.fastSplice 0 0 0 .plain).map (·.1.kind) = some .float64 ∧
      ((genericSplice 0 0 [] .plain).perform s).1.map kind = .ok .empty := by
  decide +kernel

end Store

end ArrayEngine
