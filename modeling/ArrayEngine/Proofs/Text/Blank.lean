import ArrayEngine.Text.Blank
import Mathlib.Data.List.DropRight

/-!
# Texts without blanks at their ends

To trim a text is to take blanks off both of its ends and nothing else, and what is left begins and
ends with something that is not blank. Such a text is left as it is.

## Main definitions

* `Text.IsTrimmed`: texts with no blanks at their ends

## Main results

* `Text.exists_append_trim`: what is taken off
* `Text.isTrimmed_trim`: what is left
* `Text.IsTrimmed.trim_eq`: texts that stay as they are
-/

namespace ArrayEngine.Text

variable {text : List Char} {c : Char}

/-- No blank stands at either end of a text. -/
structure IsTrimmed (text : List Char) : Prop where
  head : ∀ c ∈ text.head?, isBlank c = false
  last : ∀ c ∈ text.getLast?, isBlank c = false

theorem trimEnd_eq (text : List Char) : trimEnd text = text.rdropWhile isBlank := rfl

/-- What is taken off the end of a text. -/
theorem trimEnd_append (text : List Char) :
    trimEnd text ++ text.rtakeWhile isBlank = text :=
  List.rdropWhile_append_rtakeWhile

/-- What is taken off the ends of a text. Only blanks are. -/
theorem exists_append_trim (text : List Char) :
    ∃ before after, text = before ++ (trim text ++ after) ∧ ∀ c ∈ before, isBlank c := by
  refine ⟨text.takeWhile isBlank, (text.dropWhile isBlank).rtakeWhile isBlank, ?_,
    fun c hc => List.mem_takeWhile_imp hc⟩
  rw [trim, trimEnd_append, List.takeWhile_append_dropWhile]

theorem head?_dropWhile (text : List Char) :
    ∀ c ∈ (text.dropWhile isBlank).head?, isBlank c = false := by
  intro c hc
  have h := List.head?_dropWhile_not isBlank text
  rwa [Option.mem_def.mp hc] at h

theorem getLast?_trimEnd (text : List Char) :
    ∀ c ∈ (trimEnd text).getLast?, isBlank c = false := by
  intro c hc
  obtain ⟨hne, rfl⟩ := List.mem_getLast?_eq_getLast hc
  exact eq_false_of_ne_true (List.rdropWhile_last_not isBlank text hne)

/-- A text that begins with something that is not blank keeps its beginning. -/
theorem trim_cons (rest : List Char) (hc : isBlank c = false) :
    ∃ kept, trim (c :: rest) = c :: kept := by
  have hdrop : (c :: rest).dropWhile isBlank = c :: rest :=
    List.dropWhile_cons_of_neg (by simp [hc])
  have hprefix : trimEnd (c :: rest) <+: c :: rest := List.rdropWhile_prefix isBlank _
  have hne : trimEnd (c :: rest) ≠ [] := fun h => by
    have hall := List.rdropWhile_eq_nil_iff.mp ((trimEnd_eq _).symm.trans h)
    simp [hc] at hall
  rw [trim, hdrop]
  obtain ⟨d, kept, hkept⟩ := List.exists_cons_of_ne_nil hne
  rw [hkept, List.cons_prefix_cons] at hprefix
  exact ⟨kept, by rw [hkept, hprefix.1]⟩

theorem isTrimmed_trim (text : List Char) : IsTrimmed (trim text) where
  head := by
    cases h : text.dropWhile isBlank with
    | nil => simp [trim, h, trimEnd]
    | cons c rest =>
      have hc : isBlank c = false := head?_dropWhile text c (by simp [h])
      obtain ⟨kept, hkept⟩ := trim_cons rest hc
      have htrim : trim text = trim (c :: rest) := by
        rw [trim, trim, h, List.dropWhile_cons_of_neg (by simp [hc])]
      simp [htrim, hkept, hc]
  last := getLast?_trimEnd _

theorem no_blank_of_all (h : text.all (isBlank · == false)) : ∀ c ∈ text, isBlank c = false :=
  fun c hc => eq_of_beq (List.all_eq_true.mp h c hc)

theorem isTrimmed_of_no_blank (h : ∀ c ∈ text, isBlank c = false) : IsTrimmed text where
  head c hc := h c (List.mem_of_mem_head? hc)
  last c hc := h c (List.mem_of_mem_getLast? hc)

theorem IsTrimmed.trim_eq (h : IsTrimmed text) : trim text = text := by
  have hdrop : text.dropWhile isBlank = text := by
    cases text with
    | nil => rfl
    | cons c rest => exact List.dropWhile_cons_of_neg (by simp [h.head c rfl])
  rw [trim, hdrop, trimEnd_eq]
  refine List.rdropWhile_eq_self_iff.mpr fun hne => ?_
  simp [h.last _ (List.getLast?_eq_some_getLast hne)]

end ArrayEngine.Text
