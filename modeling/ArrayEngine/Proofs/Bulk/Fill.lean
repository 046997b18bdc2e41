import ArrayEngine.Bulk.Window
import ArrayEngine.Proofs.Operation
import ArrayEngine.Proofs.Position

/-!
# Filling a window

A fill writes one value at index after index. On the way an array may take on another layout and
give it up again: the first write behind a long tail of holes leaves a dictionary, and a later one
may fill the last hole. As a sparse array it is each time the one before with one index bound, so
that the loop comes to a block of equal values.

## Main results

* `ElementKind.joinAll_replicate`, `SparseArray.get?_write_replicate`: blocks of equal values
* `Store.takes_fill`: a fill writes such a block
* `Store.Reachable.fill_exact`: what a fill leaves
-/

namespace ArrayEngine

open Binary (Double)

/-! ### Blocks of equal values -/

/-- After the first of them a value widens nothing any more. -/
theorem ElementKind.joinAll_replicate (kind : ElementKind) (v : Value) (n : Nat) :
    kind.joinAll (List.replicate n v) = if 0 < n then kind.join (.of v) else kind := by
  cases n with
  | zero => rfl
  | succ n =>
    rw [List.replicate_succ, joinAll_cons, if_pos (Nat.succ_pos n)]
    refine joinAll_of_holds fun w hw => ?_
    rw [List.eq_of_mem_replicate hw]
    exact holds_join_of v

theorem SparseArray.get?_write_replicate (a : SparseArray) (start n i : Nat) (v : Value) :
    (a.write start (List.replicate n v)).get? i
      = if start ≤ i ∧ i < start + n then some v else a.get? i := by
  rw [get?_write, List.length_replicate]
  split
  · rw [List.getElem?_replicate, if_pos (by omega)]
  · rfl

namespace Store

variable {a : SparseArray} {s : Store}

theorem assignAll_replicate (start n : Nat) (v : Value) :
    assignAll start (List.replicate n v) = (List.range' start n).forM fun i => assign i v := by
  induction n generalizing start with
  | zero => rfl
  | succ n ih =>
    rw [List.replicate_succ, List.range'_succ, Edit.forM_cons, ← ih]
    rfl

/-! ### Fills -/

theorem takes_fill (v : Value) (start : Double) (stop : Option Double) :
    Takes a (fill v start stop) (.ok ())
      (a.write (relativePosition start a.length)
        (List.replicate (relativeEnd stop a.length - relativePosition start a.length) v)) := by
  refine takes_of_valid fun hmax _ => takes_get ?_
  rintro s rfl
  rw [length_toSparse] at hmax ⊢
  have hlength : s.length ≤ 2 ^ 53 := hmax.trans (by decide)
  have hfirst := relativePosition_le start s.length
  have hlast := relativeEnd_le stop s.length
  dsimp only
  rw [adjustIndex_eq_relativePosition hlength, adjustEnd_eq_relativeEnd hlength,
    ← assignAll_replicate]
  exact takes_assignAll hfirst (by rw [List.length_replicate]; omega)

/-- **A fill writes its window and nothing else.** It always finishes and keeps the length. Every
index from the start up to the end holds the value, whatever was there; every other one is as it
was, holes included. The kind is widened by the value if there is an index to write, and otherwise
it is the same. -/
theorem Reachable.fill_exact (h : s.Reachable) (v : Value) (start : Double)
    (stop : Option Double) :
    ∃ t, (fill v start stop).perform s = (.ok (), t) ∧ t.length = s.length ∧
      (∀ i, t.get? i =
        if relativePosition start s.length ≤ i ∧ i < relativeEnd stop s.length then some v
        else s.get? i) ∧
      t.kind =
        if relativePosition start s.length < relativeEnd stop s.length then s.kind.join (.of v)
        else s.kind := by
  obtain ⟨t, hperform, -, ht⟩ := takes_fill v start stop s h.valid rfl
  have hfirst := relativePosition_le start s.length
  have hlast := relativeEnd_le stop s.length
  rw [length_toSparse] at ht
  refine ⟨t, hperform, ?_, fun i => ?_, ?_⟩
  · rw [length_eq_of_toSparse ht, SparseArray.length_write, List.length_replicate, length_toSparse]
    omega
  · rw [get?_eq_of_toSparse ht, SparseArray.get?_write_replicate, get?_toSparse]
    exact if_congr (by omega) rfl rfl
  · rw [kind_eq_of_toSparse ht, SparseArray.kind_write, ElementKind.joinAll_replicate,
      kind_toSparse]
    exact if_congr (by omega) rfl rfl

/-- The last two of many holes are filled, the first of them far behind the last slot. -/
theorem fill_exact_of_far_window :
    let s := holes {} 4000
    ∃ t, (fill (.boolean true) (Double.ofInt (-2)) none).perform s = (.ok (), t) ∧
      t.length = 4000 ∧ t.get? 3997 = none ∧ t.get? 3998 = some (.boolean true) ∧
      t.kind = .object := by
  intro s
  have hreachable : s.Reachable := .holes {} 4000
  have hfirst : relativePosition (Double.ofInt (-2)) s.length = 3998 := by
    rw [← adjustIndex_eq_relativePosition (by decide)]
    decide +kernel
  have hlast : relativeEnd none s.length = 4000 := rfl
  obtain ⟨t, hperform, hlength, hget, hkind⟩ :=
    hreachable.fill_exact (.boolean true) (Double.ofInt (-2)) none
  rw [hfirst, hlast] at hkind
  simp only [hfirst, hlast] at hget
  refine ⟨t, hperform, hlength, ?_, hget 3998, hkind⟩
  rw [hget, if_neg (by decide), get?_eq_of_toSparse (toSparse_holes {} 4000)]
  rfl

end Store

end ArrayEngine
