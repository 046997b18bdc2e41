import ArrayEngine.Proofs.Operation
import Mathlib.Order.Bounds.Basic

/-!
# Where a truncation stops

A truncation removes elements from the top down and ends above the first one that the host does not
let go. So the greatest of these from the requested length on decides the length that results. An
index that is pinned and holds no element decides nothing, since a hole is not removed.

Whether it stops or not, a truncation leaves everything below the resulting length as it was, holes
included, and nothing from there on. This is the same for slots, for holes behind the last slot and
for a dictionary, also one that is packed again because no hole is left in what remains of it.

## Main definitions

* `SparseArray.pinnedFrom`, `Store.pinnedFrom`: what is in the way of a truncation

## Main results

* `SparseArray.lastPinned?_eq_some_iff`, `SparseArray.lastPinned?_eq_none_iff`: where one stops
* `Store.Reachable.truncate_exact`: what a truncation reports, and what it leaves
-/

namespace ArrayEngine

variable {host : Host} {n i : Nat}

/-! ### Sparse arrays -/

namespace SparseArray

variable {a : SparseArray}

/-- Bound indices from `n` on that the host does not let go. -/
def pinnedFrom (a : SparseArray) (n : Nat) (host : Host) : Set Nat :=
  {i | n ≤ i ∧ (a.get? i).isSome ∧ host.deletable i = false}

theorem lastPinned?_eq_none_iff : a.lastPinned? n host = none ↔ a.pinnedFrom n host = ∅ := by
  rw [lastPinned?, List.getLast?_eq_none_iff, List.eq_nil_iff_forall_not_mem,
    Set.eq_empty_iff_forall_notMem]
  simp only [mem_pinned]
  rfl

theorem isGreatest_of_lastPinned? (h : a.lastPinned? n host = some i) :
    IsGreatest (a.pinnedFrom n host) i := by
  refine ⟨mem_pinned.mp (List.mem_of_getLast? h), ?_⟩
  rintro j ⟨hn, hbound, hpinned⟩
  exact le_of_lastPinned? h hn hbound hpinned

theorem lastPinned?_eq_some_iff :
    a.lastPinned? n host = some i ↔ IsGreatest (a.pinnedFrom n host) i := by
  refine ⟨isGreatest_of_lastPinned?, fun h => ?_⟩
  cases hlast : a.lastPinned? n host with
  | none =>
    rw [lastPinned?_eq_none_iff] at hlast
    exact absurd h.1 (by simp [hlast])
  | some j => rw [(isGreatest_of_lastPinned? hlast).unique h]

theorem truncate_of_pinnedFrom_eq_empty (hlength : n < a.length)
    (h : a.pinnedFrom n host = ∅) : a.truncate n host = (none, a.cut n) := by
  rw [truncate, if_neg (by omega), lastPinned?_eq_none_iff.mpr h]

theorem truncate_of_isGreatest (hlength : n < a.length)
    (h : IsGreatest (a.pinnedFrom n host) i) :
    a.truncate n host = (some ⟨n, i + 1⟩, a.cut (i + 1)) := by
  rw [truncate, if_neg (by omega), lastPinned?_eq_some_iff.mpr h]

/-- Whether it stops or not, a truncation cuts at the length that results, and no more. -/
theorem truncate_snd (h : n < a.length) :
    (a.truncate n host).2 = a.cut (a.truncate n host).2.length := by
  rw [truncate, if_neg (by omega)]
  cases a.lastPinned? n host <;> rfl

end SparseArray

/-! ### Stores -/

namespace Store

variable {s : Store}

/-- Elements from `n` on that the host does not let go. -/
def pinnedFrom (s : Store) (n : Nat) (host : Host) : Set Nat :=
  {i | n ≤ i ∧ s.has i ∧ host.deletable i = false}

theorem pinnedFrom_toSparse (h : s.Valid) (n : Nat) (host : Host) :
    s.toSparse.pinnedFrom n host = s.pinnedFrom n host := by
  ext i
  simp [SparseArray.pinnedFrom, pinnedFrom, has_eq h]

/-- The store has become `t` by a cut at the length of `t`. -/
structure CutTo (s t : Store) : Prop where
  kind_eq : t.kind = s.kind
  get?_of_lt : ∀ i < t.length, t.get? i = s.get? i
  has_of_lt : ∀ i < t.length, t.has i = s.has i
  get?_of_le : ∀ i, t.length ≤ i → t.get? i = none
  has_of_le : ∀ i, t.length ≤ i → t.has i = false

theorem cutTo_of_toSparse {t : Store} (hs : s.Valid) (ht : t.Valid)
    (h : t.toSparse = s.toSparse.cut t.length) : s.CutTo t := by
  have hget : ∀ i, t.get? i = if i < t.length then s.get? i else none := get?_eq_of_toSparse h
  refine ⟨kind_eq_of_toSparse h, ?_, ?_, ?_, ?_⟩
  · intro i hi
    rw [hget, if_pos hi]
  · intro i hi
    rw [has_eq ht, has_eq hs, hget, if_pos hi]
  · intro i hi
    rw [hget, if_neg (by omega)]
  · intro i hi
    rw [has_eq ht, hget, if_neg (by omega)]
    rfl

theorem truncate_cutTo (h : s.Valid) (hlength : n < s.length) (host : Host) :
    s.CutTo (s.truncate n host).2 := by
  have hsparse := (truncate_eq h n host).2
  have hresult := length_eq_of_toSparse hsparse
  refine cutTo_of_toSparse h (valid_truncate h n host) ?_
  rw [hresult, ← SparseArray.truncate_snd hlength]
  exact hsparse

/-- A greater length is assigned by adding holes. -/
theorem grow_get? (h : s.Valid) (hlength : s.length ≤ n) (i : Nat) :
    ({ s with length := n } : Store).get? i = s.get? i := by
  rw [get?_eq_of_toSparse (toSparse_grow h hlength), SparseArray.cut_of_le hlength, get?_toSparse]

/-- **A truncation stops at the right place.** Let the requested length be less than the length. If
the host lets every element go from there on, the requested length results. Otherwise the greatest
element that it does not let go is kept: the truncation is reported as stopped there, and the
resulting length is that index and one. Either way everything below the resulting length is as it
was, holes included, and nothing is left from there on.

To request a length that is not less changes nothing; to assign one adds holes. -/
theorem Reachable.truncate_exact (h : s.Reachable) (n : Nat) (host : Host) :
    (n < s.length →
      s.setLength n host = s.truncate n host ∧
      (s.pinnedFrom n host = ∅ →
        (s.truncate n host).1 = none ∧ (s.truncate n host).2.length = n) ∧
      (∀ last, IsGreatest (s.pinnedFrom n host) last →
        (s.truncate n host).1 = some { requested := n, retained := last + 1 } ∧
          (s.truncate n host).2.length = last + 1) ∧
      s.CutTo (s.truncate n host).2) ∧
    (s.length ≤ n →
      s.truncate n host = (none, s) ∧
      s.setLength n host = (none, { s with length := n }) ∧
      ∀ i, (s.setLength n host).2.get? i = s.get? i ∧ (s.setLength n host).2.has i = s.has i) := by
  have hvalid := h.valid
  obtain ⟨hreport, hsparse⟩ := truncate_eq hvalid n host
  have hlength := length_eq_of_toSparse hsparse
  rw [← pinnedFrom_toSparse hvalid]
  refine ⟨fun hlt => ⟨if_neg (by omega), ?_, ?_, truncate_cutTo hvalid hlt host⟩, fun hle => ?_⟩
  · intro hnone
    have htruncate := SparseArray.truncate_of_pinnedFrom_eq_empty hlt hnone
    rw [hreport, hlength, htruncate]
    exact ⟨rfl, rfl⟩
  · intro last hlast
    have htruncate := SparseArray.truncate_of_isGreatest hlt hlast
    rw [hreport, hlength, htruncate]
    exact ⟨rfl, rfl⟩
  · have hgrow : s.setLength n host = (none, { s with length := n }) := if_pos hle
    refine ⟨if_pos hle, hgrow, ?_⟩
    intro i
    rw [hgrow]
    exact ⟨grow_get? hvalid hle i, rfl⟩

/-- Two holes follow three elements. The first element and the first hole are pinned; the truncation
goes past the hole and stops above the element. -/
theorem truncate_exact_of_hole :
    let host := (Host.plain.pin 0).pin 3
    let s := ((Operation.basic (.setLength 5 host)).perform
      (ofValues {} [.null, .null, .null])).2
    s.length = 5 ∧ IsGreatest (s.pinnedFrom 0 host) 0 ∧
      (s.truncate 0 host).1 = some { requested := 0, retained := 1 } ∧
      (s.truncate 0 host).2.length = 1 ∧ s.CutTo (s.truncate 0 host).2 := by
  intro host s
  have hreachable : s.Reachable := .left _ (.ofValues {} _ (by decide))
  have hlast : IsGreatest (s.pinnedFrom 0 host) 0 := by
    refine ⟨⟨Nat.le_refl _, by decide +kernel, rfl⟩, ?_⟩
    rintro i ⟨-, hhas, hpinned⟩
    obtain rfl | rfl : i = 3 ∨ i = 0 := by
      by_contra hne
      rw [not_or] at hne
      simp [host, Host.pin, Host.plain, hne] at hpinned
    · cases hhas
    · exact Nat.le_refl _
  obtain ⟨-, -, hstops, hcut⟩ := (hreachable.truncate_exact 0 host).1 (by decide)
  exact ⟨rfl, hlast, (hstops 0 hlast).1, (hstops 0 hlast).2, hcut⟩

end Store

end ArrayEngine
