import ArrayEngine.Value.Coercion
import Mathlib.Data.List.TakeWhile

/-!
# Characters of numerals

What a reader of numbers takes is made of letters, digits, signs, points and underscores, whatever
the reader and the number. So there are no blanks, quotes, brackets and commas in it.

## Main results

* `Value.isNumeralChar_of_numeral?`: numbers written as strings
* `Decimal.isNumeralChar_of_integer?`: whole numbers of any size
-/

namespace ArrayEngine

namespace Decimal

variable {c : Char} {text digits : List Char} {radix bits acc : ℕ}

/-- Whether a character may stand in a numeral. -/
def isNumeralChar (c : Char) : Bool :=
  c.isDigit || 'a' ≤ c && c ≤ 'z' || 'A' ≤ c && c ≤ 'Z' || c == '+' || c == '-' || c == '.'
    || c == '_'

theorem isNumeralChar_of_isDigit (hc : c.isDigit) : isNumeralChar c := by
  simp [isNumeralChar, hc]

theorem isNumeralChar_of_digitValue? {d : ℕ} (h : digitValue? radix c = some d) :
    isNumeralChar c := by
  obtain ⟨hvalue, -⟩ := Option.filter_eq_some_iff.mp h
  split_ifs at hvalue with hdigit hlower hupper
  · exact isNumeralChar_of_isDigit hdigit
  · have hz : c ≤ 'z' := Char.le_trans hlower.2 (by decide)
    simp [isNumeralChar, hlower.1, hz]
  · have hz : c ≤ 'Z' := Char.le_trans hupper.2 (by decide)
    simp [isNumeralChar, hupper.1, hz]

theorem isNumeralChar_of_digitsFrom? {n : ℕ} (h : digitsFrom? radix acc digits = some n) :
    ∀ c ∈ digits, isNumeralChar c := by
  induction digits generalizing acc with
  | nil => simp
  | cons c rest ih =>
    rw [digitsFrom?] at h
    cases hc : digitValue? radix c with
    | some d =>
      rw [hc] at h
      exact List.forall_mem_cons.mpr ⟨isNumeralChar_of_digitValue? hc, ih h⟩
    | none =>
      rw [hc] at h
      cases h

theorem isNumeralChar_of_unsigned? {n : ℕ} (h : unsigned? radix bits text = some n) :
    ∀ c ∈ text, isNumeralChar c := by
  obtain ⟨hvalue, -⟩ := Option.filter_eq_some_iff.mp h
  have hdigits := isNumeralChar_of_digitsFrom? (Option.ite_none_left_eq_some.mp hvalue).2
  split at hdigits
  · exact List.forall_mem_cons.mpr ⟨rfl, hdigits⟩
  · exact hdigits

theorem isNumeralChar_of_takeSign (h : ∀ c ∈ (takeSign text).2, isNumeralChar c) :
    ∀ c ∈ text, isNumeralChar c := by
  unfold takeSign at h
  split at h
  · exact List.forall_mem_cons.mpr ⟨rfl, h⟩
  · exact List.forall_mem_cons.mpr ⟨rfl, h⟩
  · exact h

theorem isNumeralChar_of_exponent? {n : ℤ} (h : exponent? text = some n) :
    ∀ c ∈ text, isNumeralChar c := by
  cases text with
  | nil => simp
  | cons e rest =>
    rw [exponent?] at h
    obtain ⟨he, h⟩ := Option.ite_none_right_eq_some.mp h
    obtain ⟨hdigits, -⟩ := Option.ite_none_left_eq_some.mp h
    have hall : ((takeSign rest).2.isEmpty || !(takeSign rest).2.all Char.isDigit) = false :=
      eq_false_of_ne_true hdigits
    rw [Bool.or_eq_false_iff, Bool.not_eq_false'] at hall
    have hrest := isNumeralChar_of_takeSign fun c hc =>
      isNumeralChar_of_isDigit (List.all_eq_true.mp hall.2 c hc)
    obtain rfl | rfl := he
    · exact List.forall_mem_cons.mpr ⟨rfl, hrest⟩
    · exact List.forall_mem_cons.mpr ⟨rfl, hrest⟩

theorem isNumeralChar_of_mem_takeWhile (hc : c ∈ text.takeWhile Char.isDigit) : isNumeralChar c :=
  isNumeralChar_of_isDigit (List.mem_takeWhile_imp hc)

theorem isNumeralChar_of_unsignedDecimal? {p : ℕ × ℤ} (h : unsignedDecimal? text = some p) :
    ∀ c ∈ text, isNumeralChar c := by
  unfold unsignedDecimal? at h
  rw [← List.takeWhile_append_dropWhile (p := Char.isDigit) (l := text), List.forall_mem_append]
  refine ⟨fun c => isNumeralChar_of_mem_takeWhile, ?_⟩
  dsimp only at h
  split at h
  · rename_i hexponent
    have hrest := isNumeralChar_of_exponent? hexponent
    split at hrest
    · rename_i more hpoint
      rw [hpoint, List.forall_mem_cons, ← List.takeWhile_append_dropWhile (p := Char.isDigit)
        (l := more), List.forall_mem_append]
      exact ⟨rfl, fun c => isNumeralChar_of_mem_takeWhile, hrest⟩
    · exact hrest
  · cases h

theorem isNumeralChar_of_decimal? {x : Binary.Double} (h : decimal? text = some x) :
    ∀ c ∈ text, isNumeralChar c := by
  obtain ⟨p, hp, -⟩ := Option.map_eq_some_iff.mp h
  exact isNumeralChar_of_takeSign (isNumeralChar_of_unsignedDecimal? hp)

theorem isNumeralChar_of_natural? {n : ℕ} (h : natural? text = some n) :
    ∀ c ∈ text, isNumeralChar c := by
  rw [natural?] at h
  split_ifs at h
  intro c hc
  by_cases hunderscore : c = '_'
  · subst hunderscore
    rfl
  · exact isNumeralChar_of_digitsFrom? h c (List.mem_filter.mpr ⟨hc, by simpa using hunderscore⟩)

theorem isNumeralChar_of_integer? {n : ℤ} (h : integer? text = some n) :
    ∀ c ∈ text, isNumeralChar c := by
  unfold integer? at h
  split at h
  · obtain ⟨m, hm, -⟩ := Option.map_eq_some_iff.mp h
    obtain ⟨k, hk, -⟩ := Option.bind_eq_some_iff.mp hm
    exact List.forall_mem_cons.mpr ⟨rfl, isNumeralChar_of_natural? hk⟩
  · obtain ⟨m, hm, -⟩ := Option.map_eq_some_iff.mp h
    exact List.forall_mem_cons.mpr ⟨rfl, isNumeralChar_of_natural? hm⟩
  · obtain ⟨m, hm, -⟩ := Option.map_eq_some_iff.mp h
    exact isNumeralChar_of_natural? hm

theorem isNumeralChar_of_radixPrefix? (h : radixPrefix? text = some (radix, digits))
    (hdigits : ∀ c ∈ digits, isNumeralChar c) : ∀ c ∈ text, isNumeralChar c := by
  unfold radixPrefix? at h
  split at h
  · rename_i letter rest
    obtain ⟨n, hn, hpair⟩ := Option.map_eq_some_iff.mp h
    obtain ⟨rfl, rfl⟩ := Prod.mk.inj hpair
    have hletter : isNumeralChar letter := by
      unfold radix? at hn
      split at hn <;> first | rfl | cases hn
    exact List.forall_mem_cons.mpr ⟨rfl, List.forall_mem_cons.mpr ⟨hletter, hdigits⟩⟩
  · cases h

end Decimal

theorem Value.isNumeralChar_of_numeral? {text : List Char} {x : Binary.Double}
    (h : numeral? text = some x) : ∀ c ∈ text, Decimal.isNumeralChar c := by
  unfold numeral? at h
  split at h
  · rename_i radix digits hprefix
    obtain ⟨n, hn, -⟩ := Option.map_eq_some_iff.mp h
    exact Decimal.isNumeralChar_of_radixPrefix? hprefix (Decimal.isNumeralChar_of_unsigned? hn)
  · split_ifs at h with hinfinity hnegative
    · obtain rfl | rfl := hinfinity <;> exact List.all_eq_true.mp rfl
    · rw [hnegative]
      exact List.all_eq_true.mp rfl
    · exact Decimal.isNumeralChar_of_decimal? h

end ArrayEngine
