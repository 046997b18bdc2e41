import ArrayEngine.Proofs.Binary.Integer
import ArrayEngine.Proofs.Text.Blank
import ArrayEngine.Proofs.Text.Utf16
import ArrayEngine.Value.Coercion
import Mathlib.Data.Nat.Digits.Defs

/-!
# Numbers with a radix prefix

What stands behind a radix prefix is a number if it is one or more digits of the radix, and then it
is the double nearest to what the digits denote by their places. In two things the reader differs
from this. A plus sign may stand before the digits. And digits that denote a number of more than
64 bits are not a number, although there are doubles near it.

## Main definitions

* `Decimal.IsDigit`, `Decimal.Denotes`: digits of a radix, and the number that they denote
* `Decimal.withoutPlus`: a text without a plus sign before it

## Main results

* `Decimal.digitsValue?_eq_some_iff`: the reader of digits reads what they denote
* `Value.isNaN_toNumber_prefixed_iff`: which texts behind a prefix are numbers, and which
-/

namespace ArrayEngine

namespace Decimal

variable {radix acc n value : Nat} {c : Char} {text : List Char}

/-! ### Digits and places -/

/-- A character is the digit of a radix with a value. Letters may be of either case. -/
def IsDigit (radix : Nat) (c : Char) (value : Nat) : Prop :=
  value < radix ∧
    ("0123456789abcdef".toList[value]? = some c ∨ "0123456789ABCDEF".toList[value]? = some c)

/-- A text is one or more digits of a radix, which denote a number by their places. -/
def Denotes (radix : Nat) (text : List Char) (n : Nat) : Prop :=
  text ≠ [] ∧ ∃ values, List.Forall₂ (IsDigit radix) text values ∧
    n = Nat.ofDigits radix values.reverse

/-- A text without a plus sign before it. -/
def withoutPlus : List Char → List Char
  | '+' :: rest => rest
  | text => text

/-- The place of a character among digits that follow each other. -/
theorem getElem?_of_mem_range {digits : List Char} {first last : Char} (place : Nat)
    (h : ∀ k ≤ last.toNat - first.toNat, digits[k + place]? = some (Char.ofNat (first.toNat + k)))
    (hc : first ≤ c ∧ c ≤ last) : digits[c.toNat - first.toNat + place]? = some c := by
  have hfirst : first.toNat ≤ c.toNat := hc.1
  have hlast : c.toNat ≤ last.toNat := hc.2
  rw [h _ (Nat.sub_le_sub_right hlast _), Nat.add_sub_cancel' hfirst, Char.ofNat_toNat]

/-- Each of the digits is read as its place. -/
theorem digitValue?_of_getElem? (hvalue : value < 16)
    (hc : "0123456789abcdef".toList[value]? = some c ∨
      "0123456789ABCDEF".toList[value]? = some c) : digitValue? 16 c = some value := by
  have hlower : "0123456789abcdef".toList.map (digitValue? 16) = (List.range 16).map some := by
    decide
  have hupper : "0123456789ABCDEF".toList.map (digitValue? 16) = (List.range 16).map some := by
    decide
  have hplace : ((List.range 16).map some)[value]? = some (some value) := by
    rw [List.getElem?_map, List.getElem?_range hvalue, Option.map_some]
  rcases hc with hc | hc
  · rwa [← hlower, List.getElem?_map, hc, Option.map_some, Option.some_inj] at hplace
  · rwa [← hupper, List.getElem?_map, hc, Option.map_some, Option.some_inj] at hplace

theorem digitValue?_eq_some_iff : digitValue? radix c = some value ↔ IsDigit radix c value := by
  rw [digitValue?, IsDigit, Option.filter_eq_some_iff, and_comm, decide_eq_true_eq]
  refine and_congr_right fun _ => ⟨fun h => ?_, fun h => ?_⟩
  · split_ifs at h with hdigit hlower hupper <;> obtain rfl := Option.some_inj.mp h
    · have hrange : '0' ≤ c ∧ c ≤ '9' := by simpa [Char.isDigit, Char.le_def] using hdigit
      exact .inl (getElem?_of_mem_range 0 (by decide) hrange)
    · exact .inl (getElem?_of_mem_range 10 (by decide) hlower)
    · exact .inr (getElem?_of_mem_range 10 (by decide) hupper)
  · have hvalue : value < 16 := by
      rcases h with h | h <;> exact (List.getElem?_eq_some_iff.mp h).1
    exact (Option.filter_eq_some_iff.mp (digitValue?_of_getElem? hvalue h)).1

/-! ### Places -/

/-- The leading digit counts for as many places as there are digits behind it. -/
theorem ofDigits_reverse_cons (radix d : Nat) (values : List Nat) :
    Nat.ofDigits radix (d :: values).reverse
      = d * radix ^ values.length + Nat.ofDigits radix values.reverse := by
  rw [List.reverse_cons, Nat.ofDigits_append, Nat.ofDigits_singleton, List.length_reverse,
    Nat.add_comm, Nat.mul_comm]

/-- What is read of digits behind others, by the places of both. -/
theorem digitsFrom?_eq_some_iff :
    digitsFrom? radix acc text = some n ↔ ∃ values, List.Forall₂ (IsDigit radix) text values ∧
      n = acc * radix ^ text.length + Nat.ofDigits radix values.reverse := by
  induction text generalizing acc with
  | nil => simp [digitsFrom?, eq_comm]
  | cons c rest ih =>
    -- The digit read now is the last of those before and the first of those in the text.
    have hplaces (d : Nat) {values : List Nat}
        (hvalues : List.Forall₂ (IsDigit radix) rest values) :
        (acc * radix + d) * radix ^ rest.length + Nat.ofDigits radix values.reverse
          = acc * radix ^ (c :: rest).length + Nat.ofDigits radix (d :: values).reverse := by
      rw [ofDigits_reverse_cons, ← hvalues.length_eq, List.length_cons]
      ring
    rw [digitsFrom?]
    constructor
    · intro h
      cases hc : digitValue? radix c with
      | none => simp [hc] at h
      | some d =>
        rw [hc] at h
        obtain ⟨values, hvalues, rfl⟩ := ih.mp h
        exact ⟨d :: values, .cons (digitValue?_eq_some_iff.mp hc) hvalues, hplaces d hvalues⟩
    · rintro ⟨_, hvalues, rfl⟩
      obtain ⟨d, values, hd, hrest, rfl⟩ := List.forall₂_cons_left_iff.mp hvalues
      rw [digitValue?_eq_some_iff.mpr hd]
      exact ih.mpr ⟨values, hrest, (hplaces d hrest).symm⟩

/-- The reader of digits reads what they denote. -/
theorem digitsValue?_eq_some_iff : digitsValue? radix text = some n ↔ Denotes radix text n := by
  rw [digitsValue?, Option.ite_none_left_eq_some, digitsFrom?_eq_some_iff, Nat.zero_mul,
    List.isEmpty_iff, Denotes]
  simp only [Nat.zero_add]

theorem Denotes.unique {m : Nat} (hm : Denotes radix text m) (hn : Denotes radix text n) : m = n :=
  Option.some_inj.mp <|
    (digitsValue?_eq_some_iff.mpr hm).symm.trans (digitsValue?_eq_some_iff.mpr hn)

/-- A text of one or more digits denotes a number, and no other text does. -/
theorem exists_denotes_iff :
    (∃ n, Denotes radix text n) ↔ text ≠ [] ∧ ∀ c ∈ text, ∃ value, IsDigit radix c value := by
  have hvalues : (∃ values, List.Forall₂ (IsDigit radix) text values)
      ↔ ∀ c ∈ text, ∃ value, IsDigit radix c value := by
    induction text with
    | nil => simp
    | cons c rest ih => simp [List.forall₂_cons_left_iff, ← ih]
  rw [← hvalues]
  constructor
  · rintro ⟨n, hne, values, h, -⟩
    exact ⟨hne, values, h⟩
  · rintro ⟨hne, values, h⟩
    exact ⟨_, hne, values, h, rfl⟩

/-- An unsigned number is what its digits denote, if that is not too wide. -/
theorem unsigned?_eq_some_iff {bits : Nat} :
    unsigned? radix bits text = some n ↔ Denotes radix (withoutPlus text) n ∧ n < 2 ^ bits := by
  have hdigits : unsigned? radix bits text
      = (digitsValue? radix (withoutPlus text)).filter (· < Nat.pow 2 bits) := by
    unfold unsigned?
    split
    case h_1 => rfl
    case h_2 hplus => rw [withoutPlus.eq_2 text hplus]
  rw [hdigits, Option.filter_eq_some_iff, digitsValue?_eq_some_iff, decide_eq_true_eq]
  rfl

/-! ### Prefixes -/

/-- The prefixes of numbers in a radix other than ten, and the radix. -/
def prefixes : List (String × Nat) :=
  [("0x", 16), ("0X", 16), ("0o", 8), ("0O", 8), ("0b", 2), ("0B", 2)]

theorem radixPrefix?_append {announced : String} (h : (announced, radix) ∈ prefixes)
    (text : List Char) : radixPrefix? (announced.toList ++ text) = some (radix, text) := by
  have hall : ∀ p ∈ prefixes, ∃ letter, p.1.toList = ['0', letter] ∧ radix? letter = some p.2 := by
    simp [prefixes, radix?]
  obtain ⟨letter, hletters, hradix⟩ := hall _ h
  rw [hletters, List.cons_append, List.singleton_append, radixPrefix?, hradix]
  rfl

theorem isBlank_of_mem_prefixes {announced : String} (h : (announced, radix) ∈ prefixes) :
    ∀ c ∈ announced.toList, Text.isBlank c = false := by
  have hall : ∀ p ∈ prefixes, p.1.toList.all (Text.isBlank · == false) := by decide
  exact Text.no_blank_of_all (hall _ h)

end Decimal

namespace Value

open Binary (Double)

variable {announced : String} {radix n : Nat} {d : List UInt16}

section

variable (hannounced : (announced, radix) ∈ Decimal.prefixes)
  (hblank : ∀ c ∈ Text.decodeUtf16 d, Text.isBlank c = false)
include hannounced hblank

/-- A text with a prefix is the unsigned number of 64 bits that stands behind the prefix. -/
theorem toNumber_prefixed :
    toNumber (.string (Text.encodeUtf16 announced.toList ++ d))
      = ((Decimal.unsigned? radix 64 (Text.decodeUtf16 d)).map Double.ofNat).getD Double.nan := by
  have hradix := Decimal.radixPrefix?_append hannounced (Text.decodeUtf16 d)
  have hnone : ∀ c ∈ announced.toList ++ Text.decodeUtf16 d, Text.isBlank c = false :=
    List.forall_mem_append.mpr ⟨Decimal.isBlank_of_mem_prefixes hannounced, hblank⟩
  rw [toNumber, Text.decodeUtf16_encodeUtf16_append, numberOfText,
    (Text.isTrimmed_of_no_blank hnone).trim_eq]
  split
  case h_1 hnil =>
    rw [hnil] at hradix
    cases hradix
  case h_2 => rw [numeral?, hradix]

theorem toNumber_prefixed_of_denotes
    (hn : Decimal.Denotes radix (Decimal.withoutPlus (Text.decodeUtf16 d)) n) (hlt : n < 2 ^ 64) :
    toNumber (.string (Text.encodeUtf16 announced.toList ++ d)) = Double.ofNat n := by
  rw [toNumber_prefixed hannounced hblank, Decimal.unsigned?_eq_some_iff.mpr ⟨hn, hlt⟩]
  rfl

theorem isNearest_toNumber_prefixed
    (hn : Decimal.Denotes radix (Decimal.withoutPlus (Text.decodeUtf16 d)) n) (hlt : n < 2 ^ 64) :
    (toNumber (.string (Text.encodeUtf16 announced.toList ++ d))).IsNearest n := by
  rw [toNumber_prefixed_of_denotes hannounced hblank hn hlt]
  exact Double.isNearest_ofNat (hlt.trans (pow_lt_pow_right₀ one_lt_two (by norm_num)))

/-- Only digits of at most 64 bits make a number. -/
theorem exists_denotes_of_not_isNaN
    (hnan : (toNumber (.string (Text.encodeUtf16 announced.toList ++ d))).isNaN = false) :
    ∃ n, Decimal.Denotes radix (Decimal.withoutPlus (Text.decodeUtf16 d)) n ∧ n < 2 ^ 64 := by
  rw [toNumber_prefixed hannounced hblank] at hnan
  cases hn : Decimal.unsigned? radix 64 (Text.decodeUtf16 d) with
  | some n => exact ⟨n, Decimal.unsigned?_eq_some_iff.mp hn⟩
  | none =>
    rw [hn] at hnan
    cases hnan

end

/-- **Numbers with a prefix.** Which texts with a prefix are numbers, and which numbers they are. A
text is none if it lacks digits, has something else among them, or denotes a number of more than 64
bits. A plus sign before the digits does not count. -/
theorem isNaN_toNumber_prefixed_iff (hannounced : (announced, radix) ∈ Decimal.prefixes)
    (hblank : ∀ c ∈ Text.decodeUtf16 d, Text.isBlank c = false) :
    let x := toNumber (.string (Text.encodeUtf16 announced.toList ++ d))
    let digits := Decimal.withoutPlus (Text.decodeUtf16 d)
    (x.isNaN ↔ digits = [] ∨ (∃ c ∈ digits, ∀ value, ¬Decimal.IsDigit radix c value) ∨
      ∃ n, Decimal.Denotes radix digits n ∧ 2 ^ 64 ≤ n) ∧
    ∀ n, Decimal.Denotes radix digits n → n < 2 ^ 64 → x.IsNearest n ∧ x.isNegative = false := by
  intro x digits
  refine ⟨⟨fun hnan => ?_, fun h => ?_⟩, fun n hn hlt => ⟨?_, ?_⟩⟩
  · by_cases hdigits : digits ≠ [] ∧ ∀ c ∈ digits, ∃ value, Decimal.IsDigit radix c value
    case pos =>
      obtain ⟨n, hn⟩ := Decimal.exists_denotes_iff.mpr hdigits
      refine .inr (.inr ⟨n, hn, Nat.le_of_not_lt fun hlt => ?_⟩)
      have hfinite := (isNearest_toNumber_prefixed hannounced hblank hn hlt).isFinite
      rw [Double.not_isNaN_of_isFinite hfinite] at hnan
      cases hnan
    case neg =>
      simp only [not_and_or, not_not, not_forall, not_exists, exists_prop] at hdigits
      exact hdigits.imp_right .inl
  · rw [← Bool.not_eq_false]
    intro hnan
    obtain ⟨n, hn, hlt⟩ := exists_denotes_of_not_isNaN hannounced hblank hnan
    obtain ⟨hne, hall⟩ := Decimal.exists_denotes_iff.mp ⟨n, hn⟩
    rcases h with hnil | ⟨c, hc, hnone⟩ | ⟨m, hm, hle⟩
    · exact hne hnil
    · obtain ⟨value, hvalue⟩ := hall c hc
      exact hnone value hvalue
    · exact absurd hlt (Nat.not_lt.mpr (hle.trans_eq (hm.unique hn)))
  · exact isNearest_toNumber_prefixed hannounced hblank hn hlt
  · exact (congrArg Double.isNegative (toNumber_prefixed_of_denotes hannounced hblank hn hlt)).trans
      (Double.isNegative_ofNat n)

/-- Both cases of letters denote, and the plus sign before them is left out. -/
theorem isNaN_toNumber_prefixed_of_plus :
    let x := toNumber (.string (Text.encodeUtf16 "0X".toList ++ Text.encodeUtf16 "+fF".toList))
    x.IsNearest 255 ∧ x.isNegative = false := by
  have hannounced : ("0X", 16) ∈ Decimal.prefixes := by decide
  have hblank : ∀ c ∈ Text.decodeUtf16 (Text.encodeUtf16 "+fF".toList), Text.isBlank c = false :=
    Text.no_blank_of_all rfl
  have hn : Decimal.Denotes 16
      (Decimal.withoutPlus (Text.decodeUtf16 (Text.encodeUtf16 "+fF".toList))) 255 :=
    Decimal.digitsValue?_eq_some_iff.mp (by decide)
  exact (isNaN_toNumber_prefixed_iff hannounced hblank).2 255 hn (by decide)

/-- A plus sign is no digit, and `2 ^ 64` has digits only. -/
theorem toNumber_prefixed_of_plus_and_wide :
    (toNumber (.string
        (Text.encodeUtf16 "0x".toList ++ Text.encodeUtf16 "+5".toList))).isNaN = false ∧
      (∀ value, ¬Decimal.IsDigit 16 '+' value) ∧
      (toNumber (.string
        (Text.encodeUtf16 "0x".toList ++ Text.encodeUtf16 "10000000000000000".toList))).isNaN ∧
      Decimal.Denotes 16 "10000000000000000".toList (2 ^ 64) := by
  have hannounced : ("0x", 16) ∈ Decimal.prefixes := by decide
  have hwide : Decimal.Denotes 16 "10000000000000000".toList (2 ^ 64) :=
    Decimal.digitsValue?_eq_some_iff.mp (by decide)
  refine ⟨?_, fun value h => ?_, ?_, hwide⟩
  · have hn : Decimal.Denotes 16
        (Decimal.withoutPlus (Text.decodeUtf16 (Text.encodeUtf16 "+5".toList))) 5 :=
      Decimal.digitsValue?_eq_some_iff.mp (by decide)
    exact Double.not_isNaN_of_isFinite
      (isNearest_toNumber_prefixed hannounced (Text.no_blank_of_all rfl) hn (by decide)).isFinite
  · cases Decimal.digitValue?_eq_some_iff.mpr h
  · rw [← Bool.not_eq_false]
    intro hnan
    obtain ⟨n, hn, hlt⟩ := exists_denotes_of_not_isNaN hannounced (Text.no_blank_of_all rfl) hnan
    rw [Text.decodeUtf16_encodeUtf16] at hn
    cases hn.unique hwide
    exact Nat.lt_irrefl _ hlt

end Value

end ArrayEngine
