import ArrayEngine.Proofs.Binary.Coercion
import ArrayEngine.Proofs.Truncation

/-!
# Lengths that are assigned as values

A value is a length if its number is an integer that 32 bits hold. Whether it is one is decided by
comparing the number with its own residue, which rounds nothing. Two things can go wrong when a
value is assigned, and they are reported under different categories: a value that is no length is
refused before anything has changed, and a truncation that has stopped leaves the array cut above
the element that was in its way.

## Main definitions

* `Value.IsLength`: the number of a value is a length
* `Store.lengthAnswer`: what is answered after a length has been set

## Main results

* `Store.lengthOf?_eq_some_iff`: the comparison finds just the lengths
* `Store.setLength_stops_iff`, `Store.setLength_of_isGreatest`: when and where setting a length
  stops
* `Store.Reachable.assignLengthValue_exact`: what assigning a value does
-/

namespace ArrayEngine

open Binary (Double)

variable {v : Value} {n last : Nat} {host : Host}

/-! ### Values that are lengths -/

/-- The number of `v` is the length `n`. The negative zero is the length zero. -/
structure Value.IsLength (v : Value) (n : Nat) : Prop where
  isFinite : v.toNumber.isFinite
  value_eq : v.toNumber.value = n
  le : n ≤ maxLength

theorem Value.isLength_iff : v.IsLength n ↔ n < 2 ^ 32 ∧ v.toNumber.IsInt n := by
  have hmax : maxLength + 1 = 2 ^ 32 := by decide
  rw [Double.isInt_iff]
  constructor
  · rintro ⟨hfinite, hvalue, hle⟩
    exact ⟨by omega, hfinite, hvalue⟩
  · rintro ⟨hlt, hfinite, hvalue⟩
    exact ⟨hfinite, hvalue, by omega⟩

namespace Store

theorem lengthOf?_eq (v : Value) :
    lengthOf? v =
      if (Double.ofNat v.toNumber.modulo32).numericEq v.toNumber then some v.toNumber.modulo32
      else none := by
  rw [Double.modulo32_eq]
  rfl

/-- The numbers that pass the comparison with their residue are just the lengths. -/
theorem lengthOf?_eq_some_iff : lengthOf? v = some n ↔ v.IsLength n := by
  rw [lengthOf?_eq, Value.isLength_iff, Option.ite_none_right_eq_some, Option.some_inj,
    Double.numericEq_modulo32_iff]
  constructor
  · rintro ⟨⟨k, hk, hint⟩, hresidue⟩
    rw [hint.modulo32_eq hk] at hresidue
    exact hresidue ▸ ⟨hk, hint⟩
  · rintro ⟨hn, hint⟩
    exact ⟨⟨n, hn, hint⟩, hint.modulo32_eq hn⟩

theorem lengthOf?_eq_none_iff : lengthOf? v = none ↔ ∀ n, ¬v.IsLength n := by
  simp only [← lengthOf?_eq_some_iff, Option.eq_none_iff_forall_ne_some, ne_eq]

end Store

/-! ### Where setting a length stops -/

namespace SparseArray

variable {a : SparseArray}

theorem setLength_of_pinnedFrom_eq_empty (h : a.pinnedFrom n host = ∅) :
    a.setLength n host = (none, a.cut n) := by
  rw [← lastPinned?_eq_none_iff] at h
  rw [setLength, truncate]
  split
  · rfl
  · rw [h]

theorem setLength_of_isGreatest (h : IsGreatest (a.pinnedFrom n host) last) :
    a.setLength n host = (some ⟨n, last + 1⟩, a.cut (last + 1)) := by
  obtain ⟨hn, hbound, -⟩ := h.1
  obtain ⟨v, hv⟩ := Option.isSome_iff_exists.mp hbound
  have hlt := lt_length hv
  rw [setLength, if_neg (by omega), truncate_of_isGreatest (by omega) h]

theorem pinnedFrom_eq_empty_or_isGreatest (a : SparseArray) (n : Nat) (host : Host) :
    a.pinnedFrom n host = ∅ ∨ ∃ last, IsGreatest (a.pinnedFrom n host) last := by
  cases hlast : a.lastPinned? n host with
  | none => exact .inl (lastPinned?_eq_none_iff.mp hlast)
  | some last => exact .inr ⟨last, isGreatest_of_lastPinned? hlast⟩

end SparseArray

namespace Store

variable {s : Store}

theorem setLength_stops_iff (h : s.Valid) (n : Nat) (host : Host) :
    (s.setLength n host).1.isSome ↔ ∃ last, IsGreatest (s.pinnedFrom n host) last := by
  rw [(setLength_eq h n host).1, ← pinnedFrom_toSparse h]
  rcases s.toSparse.pinnedFrom_eq_empty_or_isGreatest n host with hempty | ⟨last, hlast⟩
  · rw [SparseArray.setLength_of_pinnedFrom_eq_empty hempty, hempty]
    exact iff_of_false Bool.false_ne_true fun ⟨_, hlast⟩ => hlast.1
  · rw [SparseArray.setLength_of_isGreatest hlast]
    exact iff_of_true rfl ⟨last, hlast⟩

theorem setLength_of_isGreatest (h : s.Valid) (hlast : IsGreatest (s.pinnedFrom n host) last) :
    (s.setLength n host).1 = some ⟨n, last + 1⟩ ∧ (s.setLength n host).2.length = last + 1 := by
  rw [← pinnedFrom_toSparse h] at hlast
  obtain ⟨hstop, hafter⟩ := setLength_eq h n host
  rw [SparseArray.setLength_of_isGreatest hlast] at hstop hafter
  exact ⟨hstop, length_eq_of_toSparse hafter⟩

/-! ### Assigning a value -/

/-- Answer after a length has been set, by how the truncation stopped. -/
def lengthAnswer : Option Truncation → Except EngineError Unit
  | none => .ok ()
  | some stop => .error (.stopped stop)

theorem perform_assignLength_eq (host : Host) (n : Nat) (s : Store) :
    (assignLength host n).perform s =
      (lengthAnswer (s.setLength n host).1, (s.setLength n host).2) := by
  simp only [Edit.perform, ExceptT.run, StateT.run, assignLength]
  generalize s.setLength n host = outcome
  obtain ⟨_ | stop, t⟩ := outcome <;> rfl

theorem perform_assignLengthValue_of_isLength (hv : v.IsLength n) (host : Host) (s : Store) :
    (assignLengthValue host v).perform s =
      (lengthAnswer (s.setLength n host).1, (s.setLength n host).2) := by
  rw [assignLengthValue, lengthOf?_eq_some_iff.mpr hv]
  exact perform_assignLength_eq host n s

theorem perform_assignLengthValue_of_not_isLength (hv : ∀ n, ¬v.IsLength n) (host : Host)
    (s : Store) : (assignLengthValue host v).perform s = (.error .invalidLength, s) := by
  rw [assignLengthValue, lengthOf?_eq_none_iff.mpr hv]
  rfl

/-- What stops is an error of type, so an answer of another category is no truncation's. -/
theorem lengthAnswer_eq_error {stop : Option Truncation} {e : EngineError}
    (h : lengthAnswer stop = .error e) : stop.isSome ∧ e.category = .type := by
  cases stop with
  | none => cases h
  | some stop =>
    cases h
    exact ⟨rfl, rfl⟩

/-- **Assigning a length validates exactly.** A value whose number is no integer from zero to the
greatest length is refused as one of range, and only such a value is; the array stays as it was.
Any other value does what setting its number as the length does. It is reported as an error of type
if and only if that stops, which it does at the greatest element from the length on that the host
does not let go; the length is then that index and one. -/
theorem Reachable.assignLengthValue_exact (h : s.Reachable) (host : Host) (v : Value) :
    ((∃ e t, (assignLengthValue host v).perform s = (.error e, t) ∧ e.category = .range) ↔
      ∀ n, ¬v.IsLength n) ∧
    ((∀ n, ¬v.IsLength n) →
      (assignLengthValue host v).perform s = (.error .invalidLength, s)) ∧
    ∀ n, v.IsLength n →
      (assignLengthValue host v).perform s =
        (lengthAnswer (s.setLength n host).1, (s.setLength n host).2) ∧
      ((∃ e t, (assignLengthValue host v).perform s = (.error e, t) ∧ e.category = .type) ↔
        (s.setLength n host).1.isSome) ∧
      ((s.setLength n host).1.isSome ↔ ∃ last, IsGreatest (s.pinnedFrom n host) last) ∧
      ∀ last, IsGreatest (s.pinnedFrom n host) last →
        (s.setLength n host).1 = some ⟨n, last + 1⟩ ∧
          (s.setLength n host).2.length = last + 1 := by
  have hvalid := h.valid
  refine ⟨⟨?_, fun hv => ?_⟩, fun hv => perform_assignLengthValue_of_not_isLength hv host s,
    fun n hv => ?_⟩
  · rintro ⟨e, t, hperform, hrange⟩ n hv
    rw [perform_assignLengthValue_of_isLength hv] at hperform
    have htype := (lengthAnswer_eq_error (congrArg Prod.fst hperform)).2
    rw [hrange] at htype
    cases htype
  · exact ⟨_, _, perform_assignLengthValue_of_not_isLength hv host s, rfl⟩
  · have hperform := perform_assignLengthValue_of_isLength hv host s
    refine ⟨hperform, ⟨?_, fun hstop => ?_⟩, setLength_stops_iff hvalid n host,
      fun last hlast => setLength_of_isGreatest hvalid hlast⟩
    · rintro ⟨e, t, herror, -⟩
      rw [hperform] at herror
      exact (lengthAnswer_eq_error (congrArg Prod.fst herror)).1
    · obtain ⟨stop, hstop⟩ := Option.isSome_iff_exists.mp hstop
      rw [hstop] at hperform
      exact ⟨_, _, hperform, rfl⟩

/-- The negative zero is assigned to three elements of which the second is pinned, and then a number
that is one too great. -/
theorem assignLengthValue_exact_of_negative_zero :
    let host := Host.plain.pin 1
    let s := ofValues {} [.null, .null, .null]
    (∃ t, (assignLengthValue host (.number ⟨0x8000000000000000⟩)).perform s =
      (.error (.stopped ⟨0, 2⟩), t) ∧ t.length = 2) ∧
    (assignLengthValue host (.number ⟨0x41F0000000000000⟩)).perform s =
      (.error .invalidLength, s) := by
  intro host s
  have hreachable : s.Reachable := .ofValues {} _ (by decide)
  have hzero : (Value.number ⟨0x8000000000000000⟩).IsLength 0 :=
    Value.isLength_iff.mpr ⟨by decide, by constructor <;> decide +kernel⟩
  have hgreat : ∀ n, ¬(Value.number ⟨0x41F0000000000000⟩).IsLength n :=
    lengthOf?_eq_none_iff.mp (by decide +kernel)
  have hlast : IsGreatest (s.pinnedFrom 0 host) 1 := by
    refine ⟨⟨Nat.zero_le _, ?_, rfl⟩, ?_⟩
    · rw [has_eq hreachable.valid, get?_ofValues]
      rfl
    · rintro i ⟨-, -, hpinned⟩
      by_contra hgt
      have hne : i ≠ 1 := by omega
      simp [host, Host.pin, Host.plain, hne] at hpinned
  obtain ⟨hperform, -, -, hstops⟩ :=
    (hreachable.assignLengthValue_exact host (.number ⟨0x8000000000000000⟩)).2.2 0 hzero
  obtain ⟨hstop, hlength⟩ := hstops 1 hlast
  rw [hstop] at hperform
  exact ⟨⟨_, hperform, hlength⟩, (hreachable.assignLengthValue_exact host _).2.1 hgreat⟩

end Store

end ArrayEngine
