import ArrayEngine.Proofs.Shell.Spelling
import ArrayEngine.Proofs.View.Trapping
import Mathlib.Logic.Function.Iterate

/-!
# The scan of a line as a machine

A line is scanned by a loop over its words, with a loop of its own for each sort of word. They all
take characters from the same input, and the number of open brackets is a machine word, which must
not go below zero. This file has the scan in that form, with one step for each time that one of the
loops goes round: nothing in the form of a machine keeps it from going round for ever, and a
closing bracket where none is open would trap it.

It does neither. A loop is entered where its word has a first character, so each word takes one
from the input. The loop over a list is entered before an opening bracket, and left with the bracket
that closes it, so in between some bracket is open.

## Main definitions

* `Nesting.trapStep`: quotes and brackets, with a number of open brackets that may trap
* `Scanner.step`: one step of the machine
* `Scanner.HaltsWithin`: the machine comes to an outcome within a number of steps

## Main results

* `Nesting.trapStep_eq_none_iff`: what would trap it
* `Scanner.haltsWithin_running`: from every loop, with the outcome of `tokensFrom`
* `tokenize_stable`: what is known of the words of lines
-/

namespace ArrayEngine.Shell

open Nesting (outside)

variable {line text rest : List Char} {tokens : List Token} {nesting : Nesting} {c : Char}

/-! ### Open brackets -/

/-- Where a scan stands after a character, if the number of open brackets stays a number. -/
def Nesting.trapStep (nesting : Nesting) (c : Char) : Option Nesting :=
  match nesting.quote with
  | some q => some (if c = q then { nesting with quote := none } else nesting)
  | none =>
    if isQuote c then some { nesting with quote := some c }
    else if c = '[' then some { nesting with depth := nesting.depth + 1 }
    else if c = ']' then (Word.sub? nesting.depth 1).map fun depth => { nesting with depth }
    else some nesting

/-- A closing bracket outside of quotes traps where none is open, and nothing else does. -/
theorem Nesting.trapStep_eq_none_iff :
    nesting.trapStep c = none ↔ nesting.quote = none ∧ c = ']' ∧ nesting.depth = 0 := by
  rw [trapStep]
  cases hquote : nesting.quote with
  | some q => simp
  | none =>
    dsimp only
    split_ifs with hopens hbracket hcloses
    · obtain rfl | rfl := isQuote_iff.mp hopens <;> simp
    · simp [hbracket]
    · simp [hcloses, Word.sub?]
    · simp [hcloses]

/-- The bracket is one that closes something. -/
def Nesting.closes (nesting : Nesting) (c : Char) : Bool := nesting.quote.isNone && c == ']'

/-- While a bracket is open, nothing traps. -/
theorem Nesting.trapStep_eq (h : nesting.depth ≠ 0) :
    nesting.trapStep c = some (nesting.step c) := by
  have hsub : Word.sub? nesting.depth 1 = some (nesting.depth - 1) :=
    if_pos (Nat.one_le_iff_ne_zero.mpr h)
  rw [trapStep, step, hsub]
  cases nesting.quote with
  | some q => rfl
  | none =>
    dsimp only
    split_ifs <;> rfl

/-- The last open bracket is closed by a closing bracket. -/
theorem Nesting.closes_of_depth_eq_zero (h : nesting.depth ≠ 0) (hc : (nesting.step c).depth = 0) :
    nesting.closes c := by
  rw [closes]
  rw [step] at hc
  cases hquote : nesting.quote with
  | some q =>
    rw [hquote] at hc
    dsimp only at hc
    split_ifs at hc <;> exact absurd hc h
  | none =>
    rw [hquote] at hc
    dsimp only at hc
    split_ifs at hc with hopens hbracket hcloses
    · exact absurd hc h
    · simp [hcloses]
    · exact absurd hc h

/-! ### The machine -/

/-- A state of the machine: in a loop, with the words so far and the rest of the line, or at its
end. In the loops over a word, `scan` has what has been read of it. -/
inductive Scanner where
  | running (tokens : List Token) (scan : TokenScan) (input : List Char)
  | halted (outcome : Except ReadError (List Token))
  | trapped

namespace Scanner

/-- One round of a loop. -/
def step (line : List Char) : Scanner → Scanner
  | running tokens .between [] => halted (.ok tokens)
  | running tokens .between (c :: rest) =>
    if Text.isBlank c then running tokens .between rest
    else if isQuote c then running tokens (.quoted c [c]) rest
    else if c = '[' then running tokens (.list outside []) (c :: rest)
    else running tokens (.word []) (c :: rest)
  | running tokens (.word read) [] => running (tokens ++ [read.reverse]) .between []
  | running tokens (.word read) (c :: rest) =>
    if Text.isBlank c then running (tokens ++ [read.reverse]) .between (c :: rest)
    else running tokens (.word (c :: read)) rest
  | running _ (.quoted _ _) [] => halted (.error (.unterminatedString line))
  | running tokens (.quoted quote read) (c :: rest) =>
    if c = quote then running (tokens ++ [(c :: read).reverse]) .between rest
    else running tokens (.quoted quote (c :: read)) rest
  | running tokens (.list nesting read) [] =>
    if nesting.depth ≠ 0 then halted (.error (.unterminatedList line))
    else running (tokens ++ [read.reverse]) .between []
  | running tokens (.list nesting read) (c :: rest) =>
    match nesting.trapStep c with
    | none => trapped
    | some next =>
      if nesting.closes c && next.depth == 0 then
        running (tokens ++ [(c :: read).reverse]) .between rest
      else running tokens (.list next (c :: read)) rest
  | halted outcome => halted outcome
  | trapped => trapped

/-- The machine before a line. -/
def start (line : List Char) : Scanner := running [] .between line

/-- The machine comes to the outcome within a number of steps. -/
def HaltsWithin (line : List Char) (n : ℕ) (scanner : Scanner)
    (outcome : Except ReadError (List Token)) : Prop :=
  (step line)^[n] scanner = halted outcome

namespace HaltsWithin

variable {m n : ℕ} {scanner next : Scanner} {outcome : Except ReadError (List Token)}

theorem zero : HaltsWithin line 0 (halted outcome) outcome := rfl

theorem step (h : HaltsWithin line n next outcome) (hstep : scanner.step line = next) :
    HaltsWithin line (n + 1) scanner outcome := by
  subst hstep
  exact h

theorem mono (h : HaltsWithin line n scanner outcome) (hmn : n ≤ m) :
    HaltsWithin line m scanner outcome := by
  obtain ⟨k, rfl⟩ := Nat.exists_eq_add_of_le' hmn
  rw [HaltsWithin, Function.iterate_add_apply, h]
  exact Function.iterate_fixed rfl k

/-- A machine that halts has not been trapped before, since there is no way out of a trap. -/
theorem ne_trapped (h : HaltsWithin line n scanner outcome) (m : ℕ) :
    (Scanner.step line)^[m] scanner ≠ trapped := by
  intro htrapped
  have hlater : (Scanner.step line)^[n + m] scanner = trapped := by
    rw [Function.iterate_add_apply, htrapped]
    exact Function.iterate_fixed rfl n
  have hhalted := h.mono (Nat.le_add_right n m)
  rw [HaltsWithin, hlater] at hhalted
  cases hhalted

end HaltsWithin

/-- Steps that the machine needs at most: three for each character, with two to spare in the loop
over a word and one between words. -/
def fuel : TokenScan → List Char → ℕ
  | .between, text => 3 * text.length + 1
  | .word _, text | .quoted _ _, text | .list _ _, text => 3 * text.length + 2

/-- In the loop over a list some bracket is open. -/
def HasOpen : TokenScan → Prop
  | .list nesting _ => nesting.depth ≠ 0
  | .between | .word _ | .quoted _ _ => True

theorem hasOpen_start (c : Char) : HasOpen (.start c) := by
  rw [TokenScan.start]
  split_ifs
  · trivial
  · exact one_ne_zero
  · trivial

theorem fuel_start (c : Char) (text : List Char) :
    fuel (.start c) text = 3 * text.length + 2 := by
  rw [TokenScan.start]
  split_ifs <;> rfl

theorem fuel_lt_fuel_cons (scan next : TokenScan) (c : Char) (rest : List Char) :
    fuel next rest < fuel scan (c :: rest) := by
  cases scan <;> cases next <;> simp only [fuel, List.length_cons] <;> omega

/-- A round that takes a character leaves enough steps for the rest. -/
theorem HaltsWithin.take {scan next : TokenScan} {found : List Token}
    {outcome : Except ReadError (List Token)}
    (h : HaltsWithin line (fuel next rest) (running found next rest) outcome)
    (hstep : Scanner.step line (running tokens scan (c :: rest)) = running found next rest) :
    HaltsWithin line (fuel scan (c :: rest)) (running tokens scan (c :: rest)) outcome :=
  (h.step hstep).mono (fuel_lt_fuel_cons scan next c rest)

/-- A loop is entered with the first character of its word, which two of the loops take
themselves. -/
theorem haltsWithin_start {n : ℕ} {outcome : Except ReadError (List Token)}
    (hc : Text.isBlank c = false)
    (h : HaltsWithin line n (running tokens (.start c) rest) outcome) :
    HaltsWithin line (n + 2) (running tokens .between (c :: rest)) outcome := by
  rw [TokenScan.start] at h
  split_ifs at h with hquote hbracket
  · have hstep : step line (running tokens .between (c :: rest))
        = running tokens (.quoted c [c]) rest := by simp [step, hc, hquote]
    exact (h.step hstep).mono (by omega)
  · subst hbracket
    have htake : step line (running tokens (.list outside []) ('[' :: rest))
        = running tokens (.list ⟨none, 1⟩ ['[']) rest := rfl
    have henter : step line (running tokens .between ('[' :: rest))
        = running tokens (.list outside []) ('[' :: rest) := rfl
    exact (h.step htake).step henter
  · have htake : step line (running tokens (.word []) (c :: rest))
        = running tokens (.word [c]) rest := by simp [step, hc]
    have henter : step line (running tokens .between (c :: rest))
        = running tokens (.word []) (c :: rest) := by simp [step, hc, hquote, hbracket]
    exact (h.step htake).step henter

theorem map_append_cons (r : Except ReadError (List Token)) (tokens : List Token) (token : Token) :
    (r.map (token :: ·)).map (tokens ++ ·) = r.map ((tokens ++ [token]) ++ ·) := by
  cases r <;> simp [Except.map]

/-- From any loop the machine halts, with the outcome of the scan. -/
theorem haltsWithin_running {scan : TokenScan} (hscan : HasOpen scan) (tokens : List Token) :
    HaltsWithin line (fuel scan text) (running tokens scan text)
      ((tokensFrom line scan text).map (tokens ++ ·)) := by
  fun_induction tokensFrom line scan text generalizing tokens with
  | case1 =>
    have hstep : step line (running tokens .between []) = halted (.ok (tokens ++ [])) := by
      rw [List.append_nil]
      rfl
    exact HaltsWithin.zero.step hstep
  | case2 read =>
    have hbetween : HaltsWithin line 1 (running (tokens ++ [read.reverse]) .between [])
        (.ok (tokens ++ [read.reverse])) := HaltsWithin.zero.step rfl
    exact hbetween.step rfl
  | case3 quote read =>
    have hstep : step line (running tokens (.quoted quote read) [])
        = halted (.error (.unterminatedString line)) := rfl
    exact (HaltsWithin.zero.step hstep).mono (Nat.le_succ 1)
  | case4 nesting read =>
    have hstep : step line (running tokens (.list nesting read) [])
        = halted (.error (.unterminatedList line)) := if_pos hscan
    exact (HaltsWithin.zero.step hstep).mono (Nat.le_succ 1)
  | case5 c rest hc ih => exact (ih trivial tokens).take (if_pos hc)
  | case6 c rest hc ih =>
    have hrest := ih (hasOpen_start c) tokens
    rw [fuel_start] at hrest
    exact haltsWithin_start (eq_false_of_ne_true hc) hrest
  | case7 read c rest hc ih =>
    -- The blank is seen here, but taken between the words.
    rw [map_append_cons]
    have hblank : step line (running (tokens ++ [read.reverse]) .between (c :: rest))
        = running (tokens ++ [read.reverse]) .between rest := if_pos hc
    have hleave : step line (running tokens (.word read) (c :: rest))
        = running (tokens ++ [read.reverse]) .between (c :: rest) := if_pos hc
    exact ((ih trivial _).take hblank).step hleave
  | case8 read c rest hc ih => exact (ih trivial tokens).take (if_neg hc)
  | case9 read c rest ih =>
    rw [map_append_cons]
    exact (ih trivial _).take (if_pos rfl)
  | case10 quote read c rest hc ih => exact (ih trivial tokens).take (if_neg hc)
  | case11 nesting read c rest next hc =>
    rename_i ih
    rw [map_append_cons]
    have hstep : step line (running tokens (.list nesting read) (c :: rest))
        = running (tokens ++ [(c :: read).reverse]) .between rest := by
      simp [step, Nesting.trapStep_eq hscan, Nesting.closes_of_depth_eq_zero hscan hc,
        show (nesting.step c).depth = 0 from hc]
    exact (ih trivial _).take hstep
  | case12 nesting read c rest next hc =>
    rename_i ih
    have hstep : step line (running tokens (.list nesting read) (c :: rest))
        = running tokens (.list next (c :: read)) rest := by
      simp [step, Nesting.trapStep_eq hscan, show (nesting.step c).depth ≠ 0 from hc, next]
    exact (ih hc tokens).take hstep

/-- The machine halts on every line, with the words that are found. -/
theorem haltsWithin_line (line : List Char) :
    HaltsWithin line (3 * line.length + 1) (start line) (tokenize line) := by
  have hopen : HasOpen .between := trivial
  have hmap : (tokenize line).map ([] ++ ·) = tokenize line := by
    cases tokenize line <;> rfl
  rw [← hmap]
  exact haltsWithin_running hopen []

end Scanner

/-- **Words are found again.** The words that are found on a line are found again if single blanks
are put between them, and have all its characters but the blanks. Any plain words, quoted texts and
lists with single blanks between them are found. On every line the machine halts, with the words of
the line or the error, and is never trapped. -/
theorem tokenize_stable :
    (∀ line tokens, tokenize line = .ok tokens →
      tokenize ([' '].intercalate tokens) = .ok tokens ∧
        withoutBlanks tokens.flatten = withoutBlanks line) ∧
    (∀ tokens : List Token, (∀ token ∈ tokens, token.IsToken) →
      tokenize ([' '].intercalate tokens) = .ok tokens) ∧
    ∀ line, Scanner.HaltsWithin line (3 * line.length + 1) (.start line) (tokenize line) ∧
      ∀ n, (Scanner.step line)^[n] (.start line) ≠ .trapped := by
  have hspelled : ∀ tokens : List Token, (∀ token ∈ tokens, token.IsToken) →
      tokenize ([' '].intercalate tokens) = .ok tokens := fun tokens htokens =>
    tokenize_eq_ok_iff.mpr (spells_intercalate (List.cons_ne_nil ' ' [])
      (List.forall_mem_singleton.mpr rfl) htokens)
  refine ⟨fun line tokens h => ?_, hspelled, fun line => ?_⟩
  · have hspells := tokenize_eq_ok_iff.mp h
    exact ⟨hspelled tokens hspells.isToken, hspells.withoutBlanks_eq⟩
  · have hhalts := Scanner.haltsWithin_line line
    exact ⟨hhalts, hhalts.ne_trapped⟩

/-- Words that nothing stands between, and a list with a bracket in quotes. -/
theorem tokenize_stable_of_adjacent :
    let tokens : List Token := ["\"a b\"".toList, "[1, ']', []]".toList, "'c'".toList, "d'".toList]
    (∀ token ∈ tokens, token.IsToken) ∧
      tokenize "\"a b\"[1, ']', []]'c'd'".toList = .ok tokens ∧
      tokenize "\"a b\" [1, ']', []] 'c' d'".toList = .ok tokens ∧
      withoutBlanks tokens.flatten = "\"ab\"[1,']',[]]'c'd'".toList := by
  intro tokens
  have hline : tokenize "\"a b\"[1, ']', []]'c'd'".toList = .ok tokens := by decide
  have htokens : ∀ token ∈ tokens, token.IsToken := by
    refine List.forall_mem_cons.mpr ⟨.quoted ⟨'"', "a b".toList, rfl, by decide, rfl⟩, ?_⟩
    refine List.forall_mem_cons.mpr
      ⟨.bracketed ⟨"[1, ']', []".toList, ']', rfl, rfl, by decide, rfl⟩, ?_⟩
    refine List.forall_mem_cons.mpr ⟨.quoted ⟨'\'', "c".toList, rfl, by decide, rfl⟩, ?_⟩
    exact List.forall_mem_singleton.mpr (.word (by decide))
  obtain ⟨hfound, hspelled, -⟩ := tokenize_stable
  exact ⟨htokens, hline, hspelled tokens htokens, (hfound _ tokens hline).2⟩

end ArrayEngine.Shell
