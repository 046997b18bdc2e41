import ArrayEngine.Proofs.Text.Blank
import ArrayEngine.Shell.Token

/-!
# How lines are spelled

There are three sorts of words: plain words, quoted texts and lists. A line spells words if it is
made of these words and of blanks, where only a plain word needs a blank behind it, since nothing
else tells where it ends. The scan of a line finds the words that the line spells, whatever they
are, and an error where it spells none.

It follows that every line of which the scan makes words can be spelled with single blanks between
them, and that nothing but blanks is left out of it.

## Main definitions

* `Token.IsToken`: plain words, quoted texts and lists
* `Spells`: the words of a line, declaratively

## Main results

* `tokensFrom_token`: the scan of a word
* `tokenize_eq_ok_iff`: the scan of a line finds what the line spells
* `Spells.withoutBlanks_eq`: only blanks are left out
* `spells_intercalate`: words with blanks between them
-/

namespace ArrayEngine.Shell

open Nesting (outside)

variable {line text rest : List Char} {token : Token} {tokens : List Token}

/-- Some bracket is open after each character of the text, if the scan stands at `nesting` before
it. -/
def Nesting.StaysOpen : Nesting → List Char → Prop
  | _, [] => True
  | nesting, c :: rest => (nesting.step c).depth ≠ 0 ∧ (nesting.step c).StaysOpen rest

instance Nesting.decidableStaysOpen :
    (nesting : Nesting) → (text : List Char) → Decidable (nesting.StaysOpen text)
  | _, [] => isTrue trivial
  | nesting, c :: rest =>
    have := decidableStaysOpen (nesting.step c) rest
    inferInstanceAs (Decidable ((nesting.step c).depth ≠ 0 ∧ (nesting.step c).StaysOpen rest))

theorem Nesting.staysOpen_append (nesting : Nesting) (text rest : List Char) :
    nesting.StaysOpen (text ++ rest) ↔
      nesting.StaysOpen text ∧ (nesting.after text).StaysOpen rest := by
  induction text generalizing nesting with
  | nil => simp [StaysOpen]
  | cons c text ih => simp [StaysOpen, ih, and_assoc]

/-! ### Sorts of words -/

namespace Token

/-- A plain word has no blanks, and begins neither with a quote nor with an opening bracket. -/
structure IsWord (token : Token) : Prop where
  ne_nil : token ≠ []
  no_blank : ∀ c ∈ token, Text.isBlank c = false
  head : ∀ c ∈ token.head?, isQuote c = false ∧ c ≠ '['

instance IsWord.decidable (token : Token) : Decidable token.IsWord :=
  decidable_of_iff (token ≠ [] ∧ token.all (Text.isBlank · == false) ∧
      token.head?.all fun c => isQuote c == false && c != '[')
    ⟨fun ⟨hne, hblank, hhead⟩ =>
        ⟨hne, by simpa using hblank, by simpa [Option.all_eq_true] using hhead⟩,
      fun h => ⟨h.ne_nil, by simpa using h.no_blank, by simpa [Option.all_eq_true] using h.head⟩⟩

/-- A quoted text stands between two quotes of one kind, none of which is in it. -/
def IsQuoted (token : Token) : Prop :=
  ∃ quote content, isQuote quote ∧ quote ∉ content ∧ token = quote :: (content ++ [quote])

/-- A list begins with an opening bracket. Its brackets outside of quotes are balanced at its last
character, and before that nowhere behind the first. -/
def IsBracketed (token : Token) : Prop :=
  ∃ start last, token = start ++ [last] ∧ start.head? = some '[' ∧ outside.StaysOpen start ∧
    (outside.after token).depth = 0

/-- A word of a line, of whichever sort. -/
inductive IsToken (token : Token) : Prop
  | word (h : token.IsWord)
  | quoted (h : token.IsQuoted)
  | bracketed (h : token.IsBracketed)

theorem IsWord.concat {c : Char} (h : token.IsWord) (hc : Text.isBlank c = false) :
    Token.IsWord (token ++ [c]) where
  ne_nil := by simp
  no_blank := List.forall_mem_append.mpr ⟨h.no_blank, by simpa using hc⟩
  head := by rw [List.head?_append_of_ne_nil _ h.ne_nil]; exact h.head

theorem IsQuoted.not_isWord (h : token.IsQuoted) : ¬ token.IsWord := by
  rintro hword
  obtain ⟨quote, content, hquote, -, rfl⟩ := h
  exact absurd hquote (by simp [(hword.head quote rfl).1])

theorem IsBracketed.head?_eq (h : token.IsBracketed) : token.head? = some '[' := by
  obtain ⟨start, last, rfl, hhead, -, -⟩ := h
  obtain ⟨inner, rfl⟩ := List.head?_eq_some_iff.mp hhead
  rfl

theorem IsBracketed.not_isWord (h : token.IsBracketed) : ¬ token.IsWord :=
  fun hword => (hword.head '[' h.head?_eq).2 rfl

end Token

/-- The line is made of the words and of blanks. A plain word ends at a blank or at the end of the
line. -/
inductive Spells : List Char → List Token → Prop
  | nil : Spells [] []
  | blank {c : Char} {rest : List Char} {tokens : List Token} (hc : Text.isBlank c)
      (hrest : Spells rest tokens) : Spells (c :: rest) tokens
  | token {token : Token} {rest : List Char} {tokens : List Token} (htoken : token.IsToken)
      (hend : token.IsWord → ∀ c ∈ rest.head?, Text.isBlank c) (hrest : Spells rest tokens) :
      Spells (token ++ rest) (token :: tokens)

/-! ### From words to the scan -/

theorem isQuote_iff {c : Char} : isQuote c ↔ c = '"' ∨ c = '\'' := by simp [isQuote]

theorem isBlank_of_isQuote {quote : Char} (h : isQuote quote) : Text.isBlank quote = false := by
  obtain rfl | rfl := isQuote_iff.mp h
  · rfl
  · rfl

theorem tokensFrom_word (read : List Char) (htext : ∀ c ∈ text, Text.isBlank c = false)
    (hend : ∀ c ∈ rest.head?, Text.isBlank c) :
    tokensFrom line (.word read) (text ++ rest)
      = (tokensFrom line .between rest).map ((read.reverse ++ text) :: ·) := by
  induction text generalizing read with
  | nil =>
    cases rest with
    | nil => simp [tokensFrom, Except.map]
    | cons c rest => simp [tokensFrom, hend c rfl]
  | cons c text ih =>
    obtain ⟨hc, htext⟩ := List.forall_mem_cons.mp htext
    rw [List.cons_append, tokensFrom, hc, if_neg Bool.false_ne_true, ih _ htext]
    simp

theorem tokensFrom_quoted {quote : Char} (read : List Char) (htext : quote ∉ text) :
    tokensFrom line (.quoted quote read) (text ++ quote :: rest)
      = (tokensFrom line .between rest).map ((read.reverse ++ text ++ [quote]) :: ·) := by
  induction text generalizing read with
  | nil => simp [tokensFrom]
  | cons c text ih =>
    obtain ⟨hc, htext⟩ := List.ne_and_not_mem_of_not_mem_cons htext
    rw [List.cons_append, tokensFrom, if_neg hc.symm, ih _ htext]
    simp

theorem tokensFrom_list {nesting : Nesting} {last : Char} (read : List Char)
    (hopen : nesting.StaysOpen text) (hclosed : (nesting.after (text ++ [last])).depth = 0) :
    tokensFrom line (.list nesting read) (text ++ last :: rest)
      = (tokensFrom line .between rest).map ((read.reverse ++ text ++ [last]) :: ·) := by
  induction text generalizing nesting read with
  | nil =>
    have hlast : (nesting.step last).depth = 0 := hclosed
    simp [tokensFrom, hlast]
  | cons c text ih =>
    rw [List.cons_append, tokensFrom, if_neg hopen.1, ih _ hopen.2 hclosed]
    simp

/-- The scan of a line finds the word that it begins with. -/
theorem tokensFrom_token (htoken : token.IsToken)
    (hend : token.IsWord → ∀ c ∈ rest.head?, Text.isBlank c) :
    tokensFrom line .between (token ++ rest)
      = (tokensFrom line .between rest).map (token :: ·) := by
  cases htoken with
  | word h =>
    obtain ⟨c, text, rfl⟩ := List.exists_cons_of_ne_nil h.ne_nil
    obtain ⟨hc, htext⟩ := List.forall_mem_cons.mp h.no_blank
    obtain ⟨hquote, hbracket⟩ := h.head c rfl
    have hstart : TokenScan.start c = .word [c] := by simp [TokenScan.start, hquote, hbracket]
    rw [List.cons_append, tokensFrom, hc, if_neg Bool.false_ne_true, hstart,
      tokensFrom_word [c] htext (hend h)]
    rfl
  | quoted h =>
    obtain ⟨quote, content, hquote, hcontent, rfl⟩ := h
    have hstart : TokenScan.start quote = .quoted quote [quote] := by
      simp [TokenScan.start, hquote]
    rw [List.cons_append, List.append_assoc, List.singleton_append, tokensFrom,
      isBlank_of_isQuote hquote, if_neg Bool.false_ne_true, hstart,
      tokensFrom_quoted [quote] hcontent]
    rfl
  | bracketed h =>
    obtain ⟨start, last, rfl, hhead, hopen, hclosed⟩ := h
    obtain ⟨inner, rfl⟩ := List.head?_eq_some_iff.mp hhead
    rw [List.append_assoc, List.cons_append, List.singleton_append, tokensFrom, if_neg (by decide)]
    exact tokensFrom_list ['['] hopen.2 hclosed

theorem Spells.tokensFrom_eq (h : Spells text tokens) :
    tokensFrom line .between text = .ok tokens := by
  induction h with
  | nil => rfl
  | blank hc hrest ih => rw [tokensFrom, if_pos hc, ih]
  | token htoken hend hrest ih => rw [tokensFrom_token htoken hend, ih]; rfl

/-! ### From the scan to words -/

namespace TokenScan

/-- What the scan has read of a word. -/
def read : TokenScan → List Char
  | between => []
  | word read | quoted _ read | list _ read => read.reverse

/-- What the scan has read is the beginning of a word of the sort that it takes it for. -/
def Valid : TokenScan → Prop
  | between => True
  | word read => Token.IsWord read.reverse
  | quoted quote read =>
    isQuote quote ∧ ∃ content, quote ∉ content ∧ read.reverse = quote :: content
  | list nesting read =>
    read.reverse.head? = some '[' ∧ nesting = outside.after read.reverse ∧
      outside.StaysOpen read.reverse

theorem read_start (c : Char) : (start c).read = [c] := by
  unfold start
  split
  · rfl
  · split <;> rfl

theorem valid_start {c : Char} (hc : Text.isBlank c = false) : (start c).Valid := by
  unfold start
  split
  · rename_i hquote
    exact ⟨hquote, [], List.not_mem_nil, rfl⟩
  · split
    · rename_i hbracket
      subst hbracket
      exact ⟨rfl, rfl, by decide, trivial⟩
    · rename_i hquote hbracket
      exact ⟨by simp, by simpa using hc, by simpa [hbracket] using hquote⟩

end TokenScan

theorem exists_of_map_eq_ok {α β : Type} {f : α → β} {r : Except ReadError α} {b : β}
    (h : r.map f = .ok b) : ∃ a, r = .ok a ∧ f a = b := by
  cases r with
  | ok a => exact ⟨a, rfl, Except.ok.inj h⟩
  | error e => cases h

/-- What has been read and what is still to come spell the words that the scan finds. -/
theorem spells_of_tokensFrom (scan : TokenScan) (hscan : scan.Valid)
    (h : tokensFrom line scan text = .ok tokens) : Spells (scan.read ++ text) tokens := by
  fun_induction tokensFrom line scan text generalizing tokens with
  | case1 =>
    obtain rfl := Except.ok.inj h
    exact .nil
  | case2 read =>
    obtain rfl := Except.ok.inj h
    exact .token (.word hscan) (by simp) .nil
  | case3 => cases h
  | case4 => cases h
  | case5 c rest hc ih => exact .blank hc (ih trivial h)
  | case6 c rest hc ih =>
    have hspells := ih (TokenScan.valid_start (eq_false_of_ne_true hc)) h
    rwa [TokenScan.read_start] at hspells
  | case7 read c rest hc ih =>
    obtain ⟨others, hothers, rfl⟩ := exists_of_map_eq_ok h
    exact .token (.word hscan) (fun _ => by simpa using hc) (.blank hc (ih trivial hothers))
  | case8 read c rest hc ih =>
    have hword : Token.IsWord (c :: read).reverse := by
      rw [List.reverse_cons]
      exact Token.IsWord.concat hscan (eq_false_of_ne_true hc)
    simpa [TokenScan.read] using ih hword h
  | case9 read c rest ih =>
    obtain ⟨hquote, content, hcontent, hread⟩ := hscan
    obtain ⟨others, hothers, rfl⟩ := exists_of_map_eq_ok h
    have hquoted : Token.IsQuoted (c :: read).reverse :=
      ⟨c, content, hquote, hcontent, by rw [List.reverse_cons, hread, List.cons_append]⟩
    have hspells := Spells.token (.quoted hquoted) (fun hword => absurd hword hquoted.not_isWord)
      (ih trivial hothers)
    simpa [TokenScan.read] using hspells
  | case10 quote read c rest hc ih =>
    obtain ⟨hquote, content, hcontent, hread⟩ := hscan
    have hscan : (TokenScan.quoted quote (c :: read)).Valid :=
      ⟨hquote, content ++ [c], by simp [hcontent, Ne.symm hc],
        by rw [List.reverse_cons, hread, List.cons_append]⟩
    simpa [TokenScan.read] using ih hscan h
  | case11 nesting read c rest next hc =>
    rename_i ih
    obtain ⟨hhead, hnesting, hopen⟩ := hscan
    obtain ⟨others, hothers, rfl⟩ := exists_of_map_eq_ok h
    have hbracketed : Token.IsBracketed (c :: read).reverse :=
      ⟨read.reverse, c, List.reverse_cons, hhead, hopen, by simpa [← hnesting] using hc⟩
    have hspells := Spells.token (.bracketed hbracketed)
      (fun hword => absurd hword hbracketed.not_isWord) (ih trivial hothers)
    simpa [TokenScan.read] using hspells
  | case12 nesting read c rest next hc =>
    rename_i ih
    obtain ⟨hhead, hnesting, hopen⟩ := hscan
    have hscan : (TokenScan.list (nesting.step c) (c :: read)).Valid := by
      refine ⟨?_, ?_, ?_⟩
      · rw [List.reverse_cons, List.head?_append, hhead]
        rfl
      · rw [List.reverse_cons, Nesting.after_append, ← hnesting]
        rfl
      · rw [List.reverse_cons, Nesting.staysOpen_append, ← hnesting]
        exact ⟨hopen, hc, trivial⟩
    simpa [TokenScan.read] using ih hscan h

/-! ### Lines -/

/-- The scan of a line makes words of it if and only if the line spells these words. -/
theorem tokenize_eq_ok_iff : tokenize line = .ok tokens ↔ Spells line tokens :=
  ⟨fun h => spells_of_tokensFrom .between trivial h, Spells.tokensFrom_eq⟩

theorem Spells.isToken (h : Spells line tokens) : ∀ token ∈ tokens, token.IsToken := by
  induction h with
  | nil => simp
  | blank hc hrest ih => exact ih
  | token htoken hend hrest ih => exact List.forall_mem_cons.mpr ⟨htoken, ih⟩

/-- A text without its blanks. -/
def withoutBlanks (text : List Char) : List Char := text.filter (!Text.isBlank ·)

theorem withoutBlanks_append (text rest : List Char) :
    withoutBlanks (text ++ rest) = withoutBlanks text ++ withoutBlanks rest := List.filter_append ..

/-- Nothing but blanks is left out, and nothing is moved. -/
theorem Spells.withoutBlanks_eq (h : Spells line tokens) :
    withoutBlanks tokens.flatten = withoutBlanks line := by
  induction h with
  | nil => rfl
  | blank hc hrest ih =>
    rw [ih]
    exact (List.filter_cons_of_neg (by simp [hc])).symm
  | token htoken hend hrest ih =>
    rw [List.flatten_cons, withoutBlanks_append, ih, withoutBlanks_append]

theorem Spells.blanks {blanks : List Char} (hblanks : ∀ c ∈ blanks, Text.isBlank c)
    (h : Spells line tokens) : Spells (blanks ++ line) tokens := by
  induction blanks with
  | nil => exact h
  | cons c blanks ih =>
    obtain ⟨hc, hblanks⟩ := List.forall_mem_cons.mp hblanks
    exact .blank hc (ih hblanks)

/-- Words with blanks between them spell themselves. -/
theorem spells_intercalate {separator : List Char} (hne : separator ≠ [])
    (hblanks : ∀ c ∈ separator, Text.isBlank c) (htokens : ∀ token ∈ tokens, token.IsToken) :
    Spells (separator.intercalate tokens) tokens := by
  induction tokens with
  | nil => exact .nil
  | cons token tokens ih =>
    obtain ⟨htoken, htokens⟩ := List.forall_mem_cons.mp htokens
    cases tokens with
    | nil =>
      have hspells : Spells (token ++ []) [token] := .token htoken (by simp) .nil
      simpa using hspells
    | cons next tokens =>
      obtain ⟨c, blanks, rfl⟩ := List.exists_cons_of_ne_nil hne
      rw [List.intercalate_cons_cons, List.append_assoc]
      exact .token htoken (fun _ => by simpa using hblanks c) ((ih htokens).blanks hblanks)

end ArrayEngine.Shell
