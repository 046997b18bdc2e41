import ArrayEngine.Store.Basic
import Mathlib.Data.List.Perm.Subperm

/-!
# Dictionaries

A dictionary lists its entries by ascending index. One with as many entries as there are indices
below a bound, and no others, has an entry for each of them, in order.
-/

namespace ArrayEngine

/-! ### Ascending indices -/

/-- Distinct numbers below `n` are at most `n` many. -/
theorem length_le_of_lt {indices : List Nat} (hsorted : indices.Pairwise (· < ·)) {n : Nat}
    (hlt : ∀ i ∈ indices, i < n) : indices.length ≤ n := by
  have hsub : indices.Subperm (List.range n) :=
    List.subperm_of_subset (hsorted.imp Nat.ne_of_lt) fun i hi => List.mem_range.mpr (hlt i hi)
  simpa using hsub.length_le

/-- As many as `n` ascending numbers below `n` are all of them. -/
theorem eq_range_of_length {indices : List Nat} (hsorted : indices.Pairwise (· < ·)) {n : Nat}
    (hlt : ∀ i ∈ indices, i < n) (hlength : indices.length = n) : indices = List.range n := by
  have hsub : indices.Subperm (List.range n) :=
    List.subperm_of_subset (hsorted.imp Nat.ne_of_lt) fun i hi => List.mem_range.mpr (hlt i hi)
  have hperm := hsub.perm_of_length_le (by simp [hlength])
  exact hperm.eq_of_pairwise (fun a b _ _ hab hba => absurd hab (Nat.lt_asymm hba)) hsorted
    List.pairwise_lt_range

/-- Ascending numbers are determined by which they are. -/
theorem eq_of_mem_iff {indices indices' : List Nat} (hsorted : indices.Pairwise (· < ·))
    (hsorted' : indices'.Pairwise (· < ·)) (hmem : ∀ i, i ∈ indices ↔ i ∈ indices') :
    indices = indices' := by
  have hperm : indices.Perm indices' :=
    (List.perm_ext_iff_of_nodup (hsorted.imp Nat.ne_of_lt) (hsorted'.imp Nat.ne_of_lt)).mpr hmem
  exact hperm.eq_of_pairwise (fun a b _ _ hab hba => absurd hab (Nat.lt_asymm hba)) hsorted
    hsorted'

namespace Dictionary

variable {d : Dictionary} {n : Nat}

theorem pairwise_keys (d : Dictionary) : d.keys.Pairwise (· < ·) :=
  d.ordered_keys.imp Nat.compare_eq_lt.mp

theorem pairwise_toList (d : Dictionary) : d.toList.Pairwise fun a b => a.1 < b.1 :=
  d.ordered_keys_toList.imp Nat.compare_eq_lt.mp

theorem mem_iff_isSome {i : Nat} : i ∈ d ↔ d[i]?.isSome := by
  rw [Std.ExtTreeMap.mem_iff_isSome_getElem?]

theorem getElem?_insert (d : Dictionary) (i j : Nat) (v : Value) :
    (d.insert i v)[j]? = if j = i then some v else d[j]? := by
  rw [Std.ExtTreeMap.getElem?_insert]
  simp only [Nat.compare_eq_eq, eq_comm (a := i)]

theorem getElem?_erase (d : Dictionary) (i j : Nat) :
    (d.erase i)[j]? = if j = i then none else d[j]? := by
  rw [Std.ExtTreeMap.getElem?_erase]
  simp only [Nat.compare_eq_eq, eq_comm (a := i)]

theorem getElem?_filter (d : Dictionary) (p : Nat → Bool) (j : Nat) :
    (d.filter fun i _ => p i)[j]? = if p j then d[j]? else none := by
  rw [Std.ExtTreeMap.getElem?_filter']
  cases d[j]? <;> simp [Option.filter]

theorem size_le (h : ∀ i ∈ d, i < n) : d.size ≤ n := by
  rw [← Std.ExtTreeMap.length_keys]
  exact length_le_of_lt (pairwise_keys d) fun i hi => h i (Std.ExtTreeMap.mem_keys.mp hi)

/-- The entries of a dictionary without holes, read in order, are its elements. -/
theorem getElem?_values_of_size_eq (h : ∀ i ∈ d, i < n) (hsize : d.size = n) (i : Nat) :
    (d.toList.map Prod.snd)[i]? = d[i]? := by
  have hkeys : d.keys = List.range n :=
    eq_range_of_length (pairwise_keys d) (fun i hi => h i (Std.ExtTreeMap.mem_keys.mp hi))
      (by rw [Std.ExtTreeMap.length_keys, hsize])
  rw [List.getElem?_map]
  rcases hentry : d.toList[i]? with _ | ⟨j, v⟩
  · have hle : n ≤ i := by simpa [hsize] using List.getElem?_eq_none_iff.mp hentry
    have hmem : i ∉ d := fun hi => absurd (h i hi) (by omega)
    rw [Std.ExtTreeMap.getElem?_eq_none hmem]
    rfl
  · have hj : d.keys[i]? = some j := by
      rw [← Std.ExtTreeMap.map_fst_toList_eq_keys, List.getElem?_map, hentry]
      rfl
    have hji : j = i := by
      rw [hkeys] at hj
      obtain ⟨_, hj⟩ := List.getElem?_eq_some_iff.mp hj
      simpa using hj.symm
    have hv := Std.ExtTreeMap.mem_toList_iff_getElem?_eq_some.mp (List.mem_of_getElem? hentry)
    rw [← hji, hv]
    rfl

end Dictionary

end ArrayEngine
