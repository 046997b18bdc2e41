import ArrayEngine.Proofs.Bulk.Invariant
import ArrayEngine.Proofs.Visible.Moves

/-!
# Windows, by sparse arrays

What is seen of an array can be copied whatever it looks like; where it has no holes, the copy
writes the list of its elements. Splicing index by index moves what follows the window, drops what
is left over and writes into the gap. On an array without holes this is what splicing as one block
does.

## Main results

* `Store.takes_copyVisible`, `Store.exists_copyVisible`, `Store.exists_visiblePart`: copies
* `Store.exists_genericSplice_of_takes`: a splice, given how the window is replaced
* `Store.exists_moveTail`, `Store.takes_replaceWindow`, `Store.exists_genericSplice`: index by index
* `Store.splice_sameEnding`: block or index by index
-/

namespace ArrayEngine

/-- Bound indices one after another have a list of values. -/
theorem SparseArray.exists_values {a : SparseArray} {start n : Nat}
    (h : ∀ k < n, (a.get? (start + k)).isSome) :
    ∃ values : List Value, values.length = n ∧ ∀ k < n, a.get? (start + k) = values[k]? := by
  induction n with
  | zero => exact ⟨[], rfl, fun k hk => absurd hk (Nat.not_lt_zero k)⟩
  | succ n ih =>
    obtain ⟨values, hlength, hvalues⟩ := ih fun k hk => h k (Nat.lt_succ_of_lt hk)
    obtain ⟨v, hv⟩ := Option.isSome_iff_exists.mp (h n (Nat.lt_succ_self n))
    refine ⟨values ++ [v], by rw [List.length_append, hlength]; rfl, ?_⟩
    intro k hk
    rcases Nat.lt_succ_iff_lt_or_eq.mp hk with hlt | rfl
    · rw [hvalues k hlt, List.getElem?_append_left (hlength ▸ hlt)]
    · rw [hv, ← hlength, List.getElem?_concat_length]

namespace Store

variable {a : SparseArray} {s : Store} {host : Host} {values : List Value}

/-! ### Copies of what is seen -/

theorem takes_copyElement {source : Store} {index target : Nat} {v : Value}
    (hv : source.get? index = some v) (ht : target < maxLength) :
    Takes a (copyElement source host index target) (.ok ()) (a.put target v) := by
  rw [copyElement, ← visible_toSparse, SparseArray.visible_of_get? hv]
  exact takes_assign ht v

theorem takes_copyVisible {source : Store} {start target : Nat}
    (hvalues : ∀ k < values.length, source.get? (start + k) = values[k]?)
    (htarget : target ≤ a.length) (hn : target + values.length ≤ maxLength) :
    Takes a (copyVisible source host start values.length target) (.ok ())
      (a.write target values) := by
  have hloop := takes_forM_range' (f := fun k => copyElement source host (start + k) (target + k))
    0 values.length (fun k => a.write target (values.take k)) fun k hk => ?_
  · rwa [List.take_zero, SparseArray.write_nil htarget, List.take_length,
      ← List.range_eq_range'] at hloop
  · have hv : source.get? (start + k) = some values[k] := by
      rw [hvalues k hk, List.getElem?_eq_getElem hk]
    have hlength : (values.take k).length = k := by
      rw [List.length_take, Nat.min_eq_left hk.le]
    have hput := a.write_concat target (values.take k) values[k]
    rw [hlength, List.take_append_getElem hk] at hput
    rw [Nat.zero_add, ← hput]
    exact takes_copyElement hv (by omega)

/-- An edit that a sparse array of length zero goes through builds a store. -/
theorem exists_build {edit : Edit Store Unit} (h : Takes (.holes 0) edit (.ok ()) a)
    (config : Config) : ∃ t, build config edit = .ok t ∧ t.Valid ∧ t.toSparse = a := by
  obtain ⟨t, hedit, ht⟩ := h (empty config) (valid_empty config) (toSparse_holes config 0)
  refine ⟨t, ?_, ht⟩
  rw [build, hedit]

/-- What is seen is copied behind an array, and nothing where nothing is seen. -/
theorem exists_copyVisible (source : Store) (host : Host) (start : Nat) {count target : Nat}
    (ha : a.length ≤ target) (hn : target + count ≤ maxLength) :
    ∃ b, Takes a (copyVisible source host start count target) (.ok ()) b ∧
      a.Overlaid b (fun k => source.visible host (start + k)) target count := by
  rw [copyVisible, List.range_eq_range']
  refine exists_forM_range'
    (fun k b => a.Overlaid b (fun k => source.visible host (start + k)) target k)
    (fun k hk b hb => ?_) (.zero ..)
  rw [Nat.zero_add, copyElement]
  cases hseen : source.visible host (start + k) with
  | none => exact ⟨b, takes_pure (), hb.skip ha hseen⟩
  | some v =>
    have hsucc := hb.succ
    rw [hseen] at hsucc
    exact ⟨b.put (target + k) v, takes_assign (by omega) v, hsucc⟩

/-- What is seen of a part can always be copied, holes at its end included. -/
theorem exists_visiblePart (s : Store) (host : Host) (start : Nat) {count : Nat}
    (hn : count ≤ maxLength) :
    ∃ part, s.visiblePart host start count = .ok part ∧ part.length = count ∧
      ∀ i < count, part.get? i = s.visible host (start + i) := by
  obtain ⟨b, hcopy, hb⟩ := exists_copyVisible (a := .holes 0) s host start (Nat.le_refl 0)
    (show 0 + count ≤ maxLength by omega)
  have hlength : b.length ≤ count := by
    have hle : b.length ≤ max 0 (0 + count) := hb.length_le
    omega
  have hpart : Takes (.holes 0) (copyPart s host start count) (.ok ()) (b.cut count) :=
    hcopy.bind (takes_assignLength_of_le hn hlength)
  obtain ⟨part, hbuild, -, heq⟩ := exists_build hpart s.config
  refine ⟨part, hbuild, length_eq_of_toSparse heq, fun i hi => ?_⟩
  rw [get?_eq_of_toSparse heq, SparseArray.get?_cut, if_pos hi, ← hb.get?_inside hi, Nat.zero_add]

/-! ### Splices -/

theorem exists_moveTail {start count inserted : Nat} (hfull : a.IsFull)
    (hend : start + count ≤ a.length) (hn : a.length - count + inserted ≤ maxLength)
    (hhost : ∀ i, a.length - count + inserted ≤ i → i < a.length → host.deletable i) :
    ∃ b, Takes a (moveTail host a.length start count inserted) (.ok ()) b ∧
      a.MakesRoom b start count inserted := by
  have hsome : ∀ k < a.length - count - start, (a.get? (start + count + k)).isSome :=
    fun k hk => hfull _ (by omega)
  have hroom := SparseArray.makesRoom_move inserted hend
  rw [moveTail]
  rcases Nat.lt_trichotomy inserted count with hlt | rfl | hgt
  · rw [if_pos hlt]
    refine ⟨_, Takes.bind (takes_moveDown hlt.le hsome (by omega)) (takes_discardAll ?_),
      hroom.clear hend _⟩
    intro i hi h
    exact hhost i hi (by omega)
  · rw [if_neg (Nat.lt_irrefl _), if_neg (Nat.lt_irrefl _)]
    exact ⟨a, takes_pure (), SparseArray.makesRoom_self hend⟩
  · rw [if_neg (by omega), if_pos hgt]
    exact ⟨_, takes_moveUp hgt.le hsome (by omega), hroom⟩

/-- A window that lies in the array is replaced, if everything that is left over may be removed. -/
theorem takes_replaceWindow {start count : Nat} (hfull : a.IsFull) (hend : start + count ≤ a.length)
    (hn : a.length - count + values.length ≤ maxLength)
    (hhost : ∀ i, a.length - count + values.length ≤ i → i < a.length → host.deletable i) :
    Takes a (replaceWindow host a.length start count values) (.ok ())
      (a.replace start count values) := by
  obtain ⟨b, hmove, hroom⟩ := exists_moveTail hfull hend hn hhost
  rw [← hroom.cut_write]
  refine hmove.bind (Takes.bind (takes_assignAll hroom.start_le (by omega)) ?_)
  refine takes_assignLength hn fun i hi hsome => ?_
  obtain ⟨v, hv⟩ := Option.isSome_iff_exists.mp hsome
  have hlt := SparseArray.lt_length hv
  have hle := hroom.length_le
  rw [SparseArray.length_write] at hlt
  exact hhost i hi (by omega)

/-- A splice answers what is seen in the window that is left of the one asked for, and replaces
it. -/
theorem exists_genericSplice_of_takes (h : s.Valid) {start count first n : Nat}
    (hfirst : min start s.length = first) (hcount : min count (s.length - first) = n)
    (hn : s.length - n + values.length ≤ maxLength) {part : Store} {b : SparseArray}
    (hpart : s.visiblePart host first n = .ok part)
    (hreplace : Takes s.toSparse (replaceWindow host s.length first n values) (.ok ()) b) :
    ∃ t, (genericSplice start count values host).perform s = (.ok part, t) ∧ t.Valid ∧
      t.toSparse = b := by
  obtain ⟨t, hperform, ht⟩ := hreplace s h rfl
  refine ⟨t, ?_, ht⟩
  rw [genericSplice_eq, Edit.perform_get_bind]
  dsimp only
  rw [hfirst, hcount, checkLength, if_pos hn, pure_bind, Edit.perform_get_bind, hpart,
    Edit.perform_bind_ok (Edit.perform_ofExcept (.ok part) s), Edit.perform_bind_ok hperform,
    Edit.perform_pure]

/-- A window that lies in an array without holes is answered and replaced. -/
theorem exists_genericSplice {start count : Nat} (h : s.Valid) (hfull : s.toSparse.IsFull)
    (hstart : start ≤ s.length) (hcount : count ≤ s.length - start)
    (hn : s.length - count + values.length ≤ maxLength)
    (hhost : ∀ i, s.length - count + values.length ≤ i → i < s.length → host.deletable i) :
    ∃ part, part.length = count ∧ (∀ i < count, part.get? i = s.get? (start + i)) ∧
      ∃ t, (genericSplice start count values host).perform s = (.ok part, t) ∧ t.Valid ∧
        t.toSparse = s.toSparse.replace start count values := by
  have hle := h.length_le
  have hend : start + count ≤ s.length := by omega
  obtain ⟨part, hpart, hlength, hseen⟩ :=
    exists_visiblePart s host start (show count ≤ maxLength by omega)
  refine ⟨part, hlength, fun i hi => ?_, exists_genericSplice_of_takes h (Nat.min_eq_left hstart)
    (Nat.min_eq_left hcount) hn hpart (takes_replaceWindow hfull hend hn hhost)⟩
  have hlt : start + i < s.length := by omega
  obtain ⟨v, hv⟩ := Option.isSome_iff_exists.mp (hfull (start + i) hlt)
  rw [hseen i hi, ← visible_toSparse, SparseArray.visible_of_get? hv, ← hv]
  rfl

/-- Values are written where room was made for them in the middle of a continuous store. -/
theorem takes_fillGap {first n : Nat} {removed t : Store} (h : s.Valid)
    (hsplice : s.fastSplice first n values.length host = some (removed, t)) :
    Takes t.toSparse (do assignAll first values; return removed) (.ok removed)
      (s.toSparse.replace first n values) := by
  obtain ⟨hstart, hcount, hn⟩ := fastSplice_bounds hsplice
  obtain ⟨-, ⟨-, hgap⟩, -⟩ := fastSplice_spec h hsplice
  rw [hgap, ← SparseArray.write_splice_eq_replace values (show first ≤ s.length - n by omega)]
  refine Takes.bind (takes_assignAll ?_ (by omega)) (takes_pure removed)
  show first ≤ s.length - n + values.length
  omega

/-- Both ways to splice answer the same elements and leave stores that are alike. -/
theorem splice_sameEnding (h : s.Valid) {start count : Option Binary.Double} {first n : Nat}
    (hbounds : spliceBounds s.length start count = (first, n)) (values : List Value)
    (hhost : ∀ i < s.length, host.deletable i) :
    SameEnding SameElements ((splice start count values host).perform s)
      ((genericSplice first n values host).perform s) := by
  rw [perform_splice hbounds]
  split
  · rename_i removed t hsplice
    obtain ⟨hstart, hcount, hn⟩ := fastSplice_bounds hsplice
    obtain ⟨⟨-, hwindow⟩, ⟨ht, -⟩, hcontinuous⟩ := fastSplice_spec h hsplice
    have hleft : ∀ i, s.length - n + values.length ≤ i → i < s.length → host.deletable i :=
      fun i _ hi => hhost i hi
    obtain ⟨part, hlength, hget, u, hgeneric, hu, hreplace⟩ :=
      exists_genericSplice h hcontinuous.1 hstart hcount hn hleft
    have hcopied : removed.length = n := length_eq_of_toSparse hwindow
    obtain ⟨w, hperform, hw, hwreplace⟩ := takes_fillGap h hsplice t ht rfl
    rw [hgeneric, hperform]
    refine ⟨.ok (sameElements_of_lt (hcopied.trans hlength.symm) fun i hi => ?_), ?_⟩
    · rw [hcopied] at hi
      rw [get?_eq_of_toSparse hwindow, SparseArray.get?_window hi, hget i hi]
      rfl
    · refine alike_of_isFull (hcontinuous.1.replace ?_) hw hu hwreplace hreplace
      show first + n ≤ s.length
      omega
  · exact SameEnding.refl SameElements.refl _

end Store

end ArrayEngine
