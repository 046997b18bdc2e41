import ArrayEngine.Proofs.Shell.Spelling
import ArrayEngine.Proofs.Text.Numeral
import ArrayEngine.Shell.Literal
import Mathlib.Data.List.Forall2

/-!
# Lists of values

A list is written with commas between its elements, and read by taking each comma for a blank and
then scanning what is left for words. A number has no commas in it, so it is found as it was
written. A quoted text may have some, and they are taken for blanks as well: it is found, whatever
it has in it, but with blanks where it had commas.

So a list has as many values as it has elements. They are the values of the elements, apart from
the commas of strings, and exactly those where no element has a comma in it.

## Main definitions

* `replaceAll`: a list with one value in the place of another
* `listLiteral`: a list as it is written
* `Value.blankCommas`: a value with blanks for the commas of a string

## Main results

* `readValue_word`, `readValue_quoted`: values of the two sorts of elements
* `readList_listLiteral`: the values of a list
* `readList_ne_of_comma`: a list that does not mean the list of its elements
-/

namespace ArrayEngine

/-! ### Commas -/

section ReplaceAll

variable {α : Type} [DecidableEq α] {a b : α} {l : List α}

/-- The list with `b` wherever it has `a`. -/
def replaceAll (a b : α) (l : List α) : List α := l.map fun x => if x = a then b else x

theorem replaceAll_of_not_mem (h : a ∉ l) : replaceAll a b l = l := by
  have hsame : replaceAll a b l = l.map id := List.map_congr_left fun x hx =>
    if_neg fun hxa : x = a => h (hxa ▸ hx)
  rw [hsame, List.map_id]

theorem not_mem_replaceAll (h : b ≠ a) : a ∉ replaceAll a b l := by
  intro hmem
  obtain ⟨x, -, hx⟩ := List.mem_map.mp hmem
  split_ifs at hx with hxa
  · exact h hx
  · exact hxa hx

theorem replaceAll_eq_self_iff (h : b ≠ a) : replaceAll a b l = l ↔ a ∉ l :=
  ⟨fun hsame => hsame ▸ not_mem_replaceAll h, replaceAll_of_not_mem⟩

theorem replaceAll_intercalate (a b : α) (separator : List α) (parts : List (List α)) :
    replaceAll a b (separator.intercalate parts)
      = (replaceAll a b separator).intercalate (parts.map (replaceAll a b)) := by
  induction parts with
  | nil => rfl
  | cons part parts ih =>
    cases parts with
    | nil => simp
    | cons next parts =>
      rw [List.intercalate_cons_cons, List.map_cons, List.map_cons, List.intercalate_cons_cons,
        ← List.map_cons, ← ih]
      simp [replaceAll]

end ReplaceAll

namespace Text

/-- Only the comma is encoded with the unit of a comma: no half of a surrogate pair is one. -/
theorem comma_mem_charUnits_iff (c : Char) : 0x2c ∈ charUnits c ↔ c = ',' := by
  constructor
  · intro hmem
    have hrange : c.toNat < 0x110000 := c.valid.elim (·.trans (by decide)) (·.2)
    have hcode : c.toNat = 0x2c := by
      rw [charUnits] at hmem
      split_ifs at hmem with hsolo
      · simp [← UInt16.toNat_inj] at hmem
        omega
      · simp [← UInt16.toNat_inj] at hmem
        omega
    exact Char.toNat_inj.mp hcode
  · rintro rfl
    decide

theorem comma_mem_encodeUtf16_iff (text : List Char) : 0x2c ∈ encodeUtf16 text ↔ ',' ∈ text := by
  simp [encodeUtf16, comma_mem_charUnits_iff]

theorem replaceAll_encodeUtf16 (text : List Char) :
    replaceAll 0x2c 0x20 (encodeUtf16 text) = encodeUtf16 (replaceAll ',' ' ' text) := by
  rw [replaceAll, encodeUtf16, List.map_flatMap, encodeUtf16, replaceAll, List.flatMap_map]
  refine congrArg text.flatMap (funext fun c => ?_)
  by_cases hc : c = ','
  · subst hc
    rfl
  · rw [if_neg hc]
    exact replaceAll_of_not_mem (mt (comma_mem_charUnits_iff c).mp hc)

end Text

/-- The value with blanks for the commas of a string. -/
def Value.blankCommas : Value → Value
  | string units => string (replaceAll 0x2c 0x20 units)
  | v => v

namespace Value

theorem blankCommas_ofText (text : List Char) :
    (ofText text).blankCommas = ofText (replaceAll ',' ' ' text) :=
  congrArg string (Text.replaceAll_encodeUtf16 text)

theorem blankCommas_ofText_eq_self_iff (text : List Char) :
    (ofText text).blankCommas = ofText text ↔ ',' ∉ text := by
  have hunits : (0x20 : UInt16) ≠ 0x2c := by decide
  rw [← Text.comma_mem_encodeUtf16_iff, ← replaceAll_eq_self_iff hunits]
  exact ⟨string.inj, congrArg string⟩

end Value

namespace Shell

open Binary (Double)
open Decimal (isNumeralChar)

variable {token : Token} {tokens : List Token} {v : Value} {values : List Value}

/-! ### Values of words -/

/-- Names are made of letters, which numerals may have in them as well. -/
theorem isNumeralChar_of_namedValue? (h : namedValue? token = some v) :
    ∀ c ∈ token, isNumeralChar c := by
  have hname : ∀ name : String, String.ofList token = name →
      name.toList.all isNumeralChar → ∀ c ∈ token, isNumeralChar c := by
    rintro name rfl hall
    rwa [String.toList_ofList, List.all_eq_true] at hall
  unfold namedValue? at h
  split at h
  · exact hname _ ‹_› rfl
  · exact hname _ ‹_› rfl
  · exact hname _ ‹_› rfl
  · exact hname _ ‹_› rfl
  · exact hname _ ‹_› rfl
  · cases h

theorem blankCommas_of_namedValue? (h : namedValue? token = some v) : v.blankCommas = v := by
  unfold namedValue? at h
  split at h <;> cases h <;> rfl

theorem isNumeralChar_of_bigIntLiteral? {n : ℤ} (h : bigIntLiteral? token = some n) :
    ∀ c ∈ token, isNumeralChar c := by
  obtain ⟨hlast, hn⟩ := Option.ite_none_right_eq_some.mp h
  rw [← List.dropLast_append_getLast? 'n' hlast, List.forall_mem_append]
  exact ⟨Decimal.isNumeralChar_of_integer? hn, List.forall_mem_singleton.mpr rfl⟩

theorem numberOfText_word (hword : token.IsWord) :
    Value.numberOfText token = (Value.numeral? token).getD Double.nan := by
  obtain ⟨c, rest, rfl⟩ := List.exists_cons_of_ne_nil hword.ne_nil
  rw [Value.numberOfText, (Text.isTrimmed_of_no_blank hword.no_blank).trim_eq]

theorem isNumeralChar_of_readNumber (hword : token.IsWord) {x : Double}
    (h : readNumber token = .ok x) : ∀ c ∈ token, isNumeralChar c := by
  by_cases hnan : token = "NaN".toList
  · rw [hnan]
    exact List.all_eq_true.mp rfl
  rw [readNumber, numberOfText_word hword] at h
  cases hnumeral : Value.numeral? token with
  | some y => exact Value.isNumeralChar_of_numeral? hnumeral
  | none =>
    have hrefused : Double.nan.isNaN && token != "NaN".toList || (Text.trim token).isEmpty := by
      rw [Bool.or_eq_true, Bool.and_eq_true, bne_iff_ne]
      exact .inl ⟨rfl, hnan⟩
    rw [hnumeral] at h
    cases h.symm.trans (if_pos hrefused)

theorem between?_of_head? {first last : Char} (h : token.head? ≠ some first) :
    between? first last token = none := by
  cases token with
  | nil => rfl
  | cons c rest => exact if_neg fun hc => h (congrArg some hc.1)

theorem between?_append (first last : Char) (text : List Char) :
    between? first last (first :: (text ++ [last])) = some text := by
  simp [between?]

/-- A plain word that has a value has no comma, and its value is no string. -/
theorem readValue_word (hword : token.IsWord) (h : readValue token = .ok v) :
    ',' ∉ token ∧ v.blankCommas = v := by
  have hquote : ∀ quote, isQuote quote → between? quote quote token = none := fun quote hquote =>
    between?_of_head? fun hhead => by simp [(hword.head quote hhead).1] at hquote
  suffices hall : (∀ c ∈ token, isNumeralChar c) ∧ v.blankCommas = v from
    ⟨fun hcomma => absurd (hall.1 _ hcomma) (by decide), hall.2⟩
  rw [readValue, hquote '"' rfl, hquote '\'' rfl] at h
  cases hname : namedValue? token with
  | some value =>
    rw [hname] at h
    obtain rfl := Except.ok.inj h
    exact ⟨isNumeralChar_of_namedValue? hname, blankCommas_of_namedValue? hname⟩
  | none =>
    rw [hname] at h
    dsimp only [Option.or] at h
    cases hbigInt : bigIntLiteral? token with
    | some n =>
      rw [hbigInt] at h
      obtain rfl := Except.ok.inj h
      exact ⟨isNumeralChar_of_bigIntLiteral? hbigInt, rfl⟩
    | none =>
      rw [hbigInt] at h
      obtain ⟨x, hx, rfl⟩ := exists_of_map_eq_ok h
      exact ⟨isNumeralChar_of_readNumber hword hx, rfl⟩

/-- The value of a quoted text is what it has between its quotes. -/
theorem readValue_quoted {quote : Char} (hquote : isQuote quote) (text : List Char) :
    readValue (quote :: (text ++ [quote])) = .ok (.ofText text) := by
  have hquotes := isQuote_iff.mp hquote
  have hforeign : isNumeralChar quote = false := by obtain rfl | rfl := hquotes <;> rfl
  have hname : namedValue? (quote :: (text ++ [quote])) = none :=
    Option.eq_none_iff_forall_ne_some.mpr fun v hv => absurd
      (isNumeralChar_of_namedValue? hv quote List.mem_cons_self) (by simp [hforeign])
  rw [readValue, hname]
  obtain rfl | rfl := hquotes
  · rw [between?_append]
    rfl
  · rw [between?_append, between?_of_head? (by simp)]
    rfl

/-! ### Elements -/

/-- A plain word or a quoted text, with the value that it has. -/
inductive IsElement : Token → Value → Prop
  | word {token : Token} {v : Value} (hword : token.IsWord) (hvalue : readValue token = .ok v) :
      IsElement token v
  | quoted {quote : Char} {text : List Char} (hquote : isQuote quote) (htext : quote ∉ text) :
      IsElement (quote :: (text ++ [quote])) (.ofText text)

theorem isElement_of_readValue (htoken : token.IsWord ∨ token.IsQuoted)
    (hvalue : readValue token = .ok v) : IsElement token v := by
  obtain hword | ⟨quote, text, hquote, htext, rfl⟩ := htoken
  · exact .word hword hvalue
  · obtain rfl := Except.ok.inj ((readValue_quoted hquote text).symm.trans hvalue)
    exact .quoted hquote htext

namespace IsElement

theorem readValue_eq (h : IsElement token v) : readValue token = .ok v := by
  cases h with
  | word hword hvalue => exact hvalue
  | quoted hquote htext => exact readValue_quoted hquote _

theorem isToken (h : IsElement token v) : token.IsToken := by
  cases h with
  | word hword hvalue => exact .word hword
  | quoted hquote htext => exact .quoted ⟨_, _, hquote, htext, rfl⟩

theorem isList_eq_false (h : IsElement token v) : isList token = false := by
  rw [isList, beq_eq_false_iff_ne]
  cases h with
  | word hword hvalue => exact fun hhead => (hword.head '[' hhead).2 rfl
  | quoted hquote htext =>
    rintro ⟨rfl⟩
    cases hquote

/-- With blanks for its commas, an element is one still: a quote is neither of the two. -/
theorem replaceAll_comma (h : IsElement token v) :
    IsElement (replaceAll ',' ' ' token) v.blankCommas := by
  cases h with
  | word hword hvalue =>
    obtain ⟨hcomma, hv⟩ := readValue_word hword hvalue
    rw [replaceAll_of_not_mem hcomma, hv]
    exact .word hword hvalue
  | @quoted quote text hquote htext =>
    have hquotes := isQuote_iff.mp hquote
    have hreplaced : replaceAll ',' ' ' (quote :: (text ++ [quote]))
        = quote :: (replaceAll ',' ' ' text ++ [quote]) := by
      obtain rfl | rfl := hquotes <;> simp [replaceAll]
    have hcontent : quote ∉ replaceAll ',' ' ' text := by
      intro hmem
      obtain ⟨c, hc, hquote⟩ := List.mem_map.mp hmem
      split_ifs at hquote
      · subst hquote
        simp at hquotes
      · exact htext (hquote ▸ hc)
    rw [hreplaced, Value.blankCommas_ofText]
    exact .quoted hquote hcontent

/-- The value of an element is what it was if and only if there was no comma. -/
theorem blankCommas_eq_self_iff (h : IsElement token v) : v.blankCommas = v ↔ ',' ∉ token := by
  cases h with
  | word hword hvalue =>
    obtain ⟨hcomma, hv⟩ := readValue_word hword hvalue
    exact ⟨fun _ => hcomma, fun _ => hv⟩
  | @quoted quote text hquote htext =>
    have hquote : ',' ≠ quote := by
      rintro rfl
      cases hquote
    rw [Value.blankCommas_ofText_eq_self_iff]
    simp [hquote]

end IsElement

theorem bind_eq_ok_iff {α β : Type} {r : Except ReadError α} {f : α → Except ReadError β} {b : β} :
    r >>= f = .ok b ↔ ∃ a, r = .ok a ∧ f a = .ok b := by
  cases r <;> simp [bind, Except.bind]

theorem readValues_eq_ok_iff :
    readValues tokens = .ok values ↔
      List.Forall₂ (fun token v => readValue token = .ok v) tokens values := by
  induction tokens generalizing values with
  | nil =>
    rw [List.forall₂_nil_left_iff, readValues, List.mapM_nil]
    exact ⟨fun h => (Except.ok.inj h).symm, fun h => congrArg Except.ok h.symm⟩
  | cons token tokens ih =>
    rw [List.forall₂_cons_left_iff, readValues, List.mapM_cons]
    simp only [bind_eq_ok_iff]
    constructor
    · rintro ⟨v, hv, vs, hvs, hvalues⟩
      exact ⟨v, vs, hv, ih.mp hvs, (Except.ok.inj hvalues).symm⟩
    · rintro ⟨v, vs, hv, hvs, rfl⟩
      exact ⟨v, hv, vs, ih.mpr hvs, rfl⟩

/-! ### Lists -/

/-- A list with its elements as they are written. -/
def listLiteral (tokens : List Token) : Token := '[' :: ([',', ' '].intercalate tokens ++ [']'])

/-- A list has the values of the words that are found in it with blanks for its commas. -/
theorem readList_of_spells {text : List Char} (hspells : Spells (replaceAll ',' ' ' text) tokens)
    (hlists : ∀ token ∈ tokens, isList token = false) :
    readList ('[' :: (text ++ [']'])) = readValues tokens := by
  have hwords : tokenize (text.map fun c => if c = ',' then ' ' else c) = .ok tokens :=
    tokenize_eq_ok_iff.mpr hspells
  have hnested : tokens.any isList = false := List.any_eq_false.mpr fun token htoken => by
    simp [hlists token htoken]
  rw [readList, between?_append]
  dsimp only
  rw [hwords]
  exact if_neg (by simp [hnested])

/-- The values of a list, once the sort and the value of each of its elements are known. -/
theorem readList_eq (h : List.Forall₂ IsElement tokens values) :
    readList (listLiteral tokens) = .ok (values.map Value.blankCommas) := by
  have hreplaced : List.Forall₂ IsElement (tokens.map (replaceAll ',' ' '))
      (values.map Value.blankCommas) := by
    rw [List.forall₂_map_left_iff, List.forall₂_map_right_iff]
    exact h.imp fun _ _ helement => helement.replaceAll_comma
  have hwords : ∀ word ∈ tokens.map (replaceAll ',' ' '),
      Token.IsToken word ∧ isList word = false :=
    ((List.forall₂_and_left _ _).mp (hreplaced.imp fun _ _ helement =>
      ⟨⟨helement.isToken, helement.isList_eq_false⟩, helement⟩)).1
  have hspells : Spells (replaceAll ',' ' ' ([',', ' '].intercalate tokens))
      (tokens.map (replaceAll ',' ' ')) := by
    rw [replaceAll_intercalate]
    exact spells_intercalate (List.cons_ne_nil ' ' [' ']) (List.all_eq_true.mp rfl)
      fun word hword => (hwords word hword).1
  rw [listLiteral, readList_of_spells hspells fun word hword => (hwords word hword).2]
  exact readValues_eq_ok_iff.mpr (hreplaced.imp fun _ _ helement => helement.readValue_eq)

theorem map_blankCommas_eq_self_iff (h : List.Forall₂ IsElement tokens values) :
    values.map Value.blankCommas = values ↔ ∀ token ∈ tokens, ',' ∉ token := by
  induction h with
  | nil => simp
  | cons helement hrest ih =>
    rw [List.map_cons, List.cons.injEq, ih, helement.blankCommas_eq_self_iff,
      List.forall_mem_cons]

/-- **Lists of values.** The values of a list are those of its elements, with blanks for the commas
of strings. So they are exactly the values of its elements if and only if no element has a comma in
it, whatever else the quoted ones have in them. -/
theorem readList_listLiteral (htokens : ∀ token ∈ tokens, token.IsWord ∨ token.IsQuoted)
    (hvalues : readValues tokens = .ok values) :
    readList (listLiteral tokens) = .ok (values.map Value.blankCommas) ∧
      (readList (listLiteral tokens) = .ok values ↔ ∀ token ∈ tokens, ',' ∉ token) := by
  have helements : List.Forall₂ IsElement tokens values := by
    have hall := (List.forall₂_and_left _ _).mpr ⟨htokens, readValues_eq_ok_iff.mp hvalues⟩
    exact hall.imp fun _ _ h => isElement_of_readValue h.1 h.2
  have hlist := readList_eq helements
  refine ⟨hlist, ?_⟩
  rw [hlist, Except.ok.injEq]
  exact map_blankCommas_eq_self_iff helements

/-- Quoted texts with the brackets, blanks and quotes of the other kind that they may have. -/
theorem readList_listLiteral_of_brackets :
    let tokens : List Token :=
      ["\"it's [\"".toList, "null".toList, "' ]\"'".toList, "-12n".toList]
    let values : List Value :=
      [.ofText "it's [".toList, .null, .ofText " ]\"".toList, .bigInt (-12)]
    (∀ token ∈ tokens, token.IsWord ∨ token.IsQuoted) ∧ readValues tokens = .ok values ∧
      listLiteral tokens = "[\"it's [\", null, ' ]\"', -12n]".toList ∧
      readList (listLiteral tokens) = .ok values := by
  intro tokens values
  have htokens : ∀ token ∈ tokens, token.IsWord ∨ token.IsQuoted := by
    refine List.forall_mem_cons.mpr ⟨.inr ⟨'"', "it's [".toList, rfl, by decide, rfl⟩, ?_⟩
    refine List.forall_mem_cons.mpr ⟨.inl (by decide), ?_⟩
    refine List.forall_mem_cons.mpr ⟨.inr ⟨'\'', " ]\"".toList, rfl, by decide, rfl⟩, ?_⟩
    exact List.forall_mem_singleton.mpr (.inl (by decide))
  have hvalues : readValues tokens = .ok values := by rfl
  exact ⟨htokens, hvalues, rfl, (readList_listLiteral htokens hvalues).2.mpr (by decide)⟩

/-- A comma between quotes is lost. -/
theorem readList_ne_of_comma :
    let token : Token := "\"a,b\"".toList
    token.IsQuoted ∧ readValue token = .ok (.ofText "a,b".toList) ∧
      readList (listLiteral [token]) = .ok [.ofText "a b".toList] ∧
      Value.ofText "a b".toList ≠ Value.ofText "a,b".toList := by
  exact ⟨⟨'"', "a,b".toList, rfl, by decide, rfl⟩, rfl, rfl, by decide⟩

end Shell
end ArrayEngine
