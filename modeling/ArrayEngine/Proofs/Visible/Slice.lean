import ArrayEngine.Proofs.Bulk.Window
import ArrayEngine.Proofs.Operation
import ArrayEngine.Proofs.Position

/-!
# Slices of what is seen

A slice of any store is what is seen between two positions, holes at its end included. Where the
block operation applies nothing is inherited, and it answers the same elements as a copy index by
index.

## Main results

* `Store.fastSlice_visible`, `Store.fastSlice_sameElements`: the block operation
* `Store.exists_slice`: either way
* `Store.Reachable.slice_visible`
-/

namespace ArrayEngine

open Binary (Double)

namespace Store

variable {s part : Store} {host : Host}

/-! ### Two ways to slice -/

/-- What is copied index by index is what is seen. -/
theorem exists_genericSlice (h : s.Valid) (start : Nat) {stop : Nat} (hstop : stop ≤ s.length)
    (host : Host) :
    ∃ part, s.genericSlice start stop host = .ok part ∧ part.length = stop - start ∧
      ∀ j < stop - start, part.get? j = s.visible host (start + j) :=
  exists_visiblePart s host start (by have := h.length_le; omega)

/-- What is copied as a block is what is seen, too: a continuous store inherits nothing. -/
theorem fastSlice_visible (h : s.Valid) {start stop : Nat}
    (hslice : s.fastSlice start (max stop start) host = some part) :
    part.length = stop - start ∧ ∀ j < stop - start, part.get? j = s.visible host (start + j) := by
  have hwidth : max stop start - start = stop - start := by omega
  obtain ⟨-, hlength, -, hget⟩ := fastSlice_spec h hslice
  simp only [fastSlice, Option.ite_none_left_eq_some, Bool.or_eq_true, decide_eq_true_eq, not_or,
    Nat.not_lt, Option.map_eq_some_iff] at hslice
  obtain ⟨⟨-, hstop⟩, ⟨elements, holes⟩, hparts, -⟩ := hslice
  obtain ⟨⟨-, hinherited⟩, -⟩ := continuousParts?_eq_some h hparts
  rw [hwidth] at hlength hget
  refine ⟨hlength, ?_⟩
  intro j hj
  have hnone : host.inherited (start + j) = none :=
    hinherited (start + j) (show start + j < s.length by omega)
  rw [hget j hj, ← visible_toSparse, SparseArray.visible_of_not_inherited hnone, get?_toSparse]

/-- Both ways answer the same elements. -/
theorem fastSlice_sameElements (h : s.Valid) {start stop : Nat} (hstop : stop ≤ s.length)
    (hslice : s.fastSlice start (max stop start) host = some part) :
    ∃ copy, s.genericSlice start stop host = .ok copy ∧ part.SameElements copy := by
  obtain ⟨copy, hcopy, hcopyLength, hcopyGet⟩ := exists_genericSlice h start hstop host
  obtain ⟨hlength, hget⟩ := fastSlice_visible h hslice
  refine ⟨copy, hcopy, sameElements_of_lt (hlength.trans hcopyLength.symm) fun j hj => ?_⟩
  rw [hget j (hlength ▸ hj), hcopyGet j (hlength ▸ hj)]

/-! ### Slices -/

/-- Either way, a slice is what is seen between the positions. -/
theorem exists_slice (h : s.Valid) (host : Host) (start : Double) (stop : Option Double) :
    let first := relativePosition start s.length
    let last := relativeEnd stop s.length
    ∃ part, s.slice start stop host = .ok part ∧ part.length = last - first ∧
      ∀ j < last - first, part.get? j = s.visible host (first + j) := by
  intro first last
  have hlength : s.length ≤ 2 ^ 53 := h.length_le.trans (by decide)
  have hlast : last ≤ s.length := relativeEnd_le stop s.length
  simp only [slice, adjustIndex_eq_relativePosition hlength, adjustEnd_eq_relativeEnd hlength]
  cases hblock : s.fastSlice first (max last first) host with
  | none => exact exists_genericSlice h first hlast host
  | some block => exact ⟨block, rfl, fastSlice_visible h hblock⟩

/-- **Slicing any store**, under any host, between any two numbers. The answer has all indices
between the two positions that the numbers denote, none if they are crossed, with what is seen
there: the element, or else the inherited value, or else a hole. The store that is sliced is as it
was. Where the block operation applies to these positions, it answers the elements that a copy index
by index does. -/
theorem Reachable.slice_visible (h : s.Reachable) (host : Host) (start : Double)
    (stop : Option Double) :
    let first := relativePosition start s.length
    let last := relativeEnd stop s.length
    (first ≤ s.length ∧ last ≤ s.length) ∧
    (∃ part, s.slice start stop host = .ok part ∧
      (Operation.slice start stop host).perform s = (some part, s) ∧
      part.length = last - first ∧
      ∀ j < last - first, part.get? j = (s.get? (first + j)).or (host.inherited (first + j))) ∧
    ∀ block, s.fastSlice first (max last first) host = some block →
      ∃ copy, s.genericSlice first last host = .ok copy ∧ block.SameElements copy := by
  intro first last
  have hlast : last ≤ s.length := relativeEnd_le stop s.length
  obtain ⟨part, hslice, hlength, hget⟩ := exists_slice h.valid host start stop
  have hanswer : (Operation.slice start stop host).perform s = (some part, s) := by
    rw [Operation.perform, hslice]
    rfl
  exact ⟨⟨relativePosition_le start s.length, hlast⟩, ⟨part, hslice, hanswer, hlength, hget⟩,
    fun block hblock => fastSlice_sameElements h.valid hlast hblock⟩

/-- The last two of three holes, the first of them with an inherited value: that is an element of
the slice, and the hole at the end counts. -/
theorem slice_visible_of_inherited :
    let s := holes {} 3
    let host := Host.plain.inherit 1 .null
    s.Reachable ∧ ∃ part, s.slice (Double.ofInt (-2)) none host = .ok part ∧ part.length = 2 ∧
      part.get? 0 = some .null ∧ part.get? 1 = none := by
  intro s host
  have hreachable : s.Reachable := .holes {} 3
  have hfirst : relativePosition (Double.ofInt (-2)) s.length = 1 := by
    rw [← adjustIndex_eq_relativePosition (by decide)]
    decide +kernel
  have hlast : relativeEnd none s.length = 3 := rfl
  obtain ⟨-, ⟨part, hslice, -, hlength, hget⟩, -⟩ :=
    Reachable.slice_visible hreachable host (Double.ofInt (-2)) none
  simp only [hfirst, hlast] at hlength hget
  refine ⟨hreachable, part, hslice, hlength, ?_, ?_⟩
  · exact (hget 0 (by decide)).trans (visible_holes {} 3 host 1)
  · exact (hget 1 (by decide)).trans (visible_holes {} 3 host 2)

end Store

end ArrayEngine
