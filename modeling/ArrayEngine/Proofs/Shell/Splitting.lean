import ArrayEngine.CommandLine
import ArrayEngine.Proofs.Text.Blank

/-!
# Scripts and their parts

A script is cut where a separator stands outside of quotes and brackets. The cut leaves the scan
where it is, outside of everything, so what follows is cut as a script of its own. Two scripts
joined by a separator are therefore carried out one after the other, if the first leaves the scan
outside: if it leaves a quote or bracket open, the separator is part of a statement, and so may be
much of the second script. Brackets that are closed more often than opened do no harm.

A statement is a piece that no separator cuts any more. Trimming takes off blanks that the scan
passes outside of everything, or that it passes last, so a trimmed piece is still one piece, and a
statement is a script with itself as its only statement.

## Main definitions

* `Nesting.Unbroken`: texts that no separator cuts
* `StandsAlone`: texts that are a statement wherever they stand

## Main results

* `piecesFrom_append`, `statements_append`: two scripts joined by a separator
* `State.evalLines_append`: lines carried out one after the other
* `standsAlone_of_mem`: the statements of a script
* `splitting_compositional`: both, and what scripts print
-/

namespace ArrayEngine.Shell

variable {nesting : Nesting} {c sep : Char}

/-! ### The scan -/

namespace Nesting

theorem separates_iff : nesting.separates c ↔ nesting = outside ∧ (c = ';' ∨ c = '\n') := by
  simp [separates]

/-- A separator leaves the scan where it is. -/
theorem step_of_separates (h : nesting.separates c) : nesting.step c = nesting := by
  obtain ⟨rfl, rfl | rfl⟩ := separates_iff.mp h <;> rfl

/-- A blank neither opens nor closes anything. -/
theorem outside_step_of_isBlank (hc : Text.isBlank c) : outside.step c = outside := by
  have hne : ∀ d, Text.isBlank d = false → c ≠ d := fun d hd hcd => by simp_all
  have hquote : isQuote c = false := by
    simp [isQuote, hne '"' rfl, hne '\'' rfl]
  simp [step, outside, hquote, hne '[' rfl, hne ']' rfl]

theorem outside_after_of_isBlank {text : List Char} (h : ∀ c ∈ text, Text.isBlank c) :
    outside.after text = outside := by
  induction text with
  | nil => rfl
  | cons c rest ih =>
    obtain ⟨hc, hrest⟩ := List.forall_mem_cons.mp h
    rw [after_cons, outside_step_of_isBlank hc, ih hrest]

/-- No separator cuts the text, if the scan stands at `nesting` before it. -/
def Unbroken : Nesting → List Char → Prop
  | _, [] => True
  | nesting, c :: rest => nesting.separates c = false ∧ (nesting.step c).Unbroken rest

theorem unbroken_append (nesting : Nesting) (text rest : List Char) :
    nesting.Unbroken (text ++ rest) ↔
      nesting.Unbroken text ∧ (nesting.after text).Unbroken rest := by
  induction text generalizing nesting with
  | nil => simp [Unbroken]
  | cons c text ih => simp [Unbroken, ih, and_assoc]

end Nesting

open Nesting (outside)

/-! ### Pieces -/

/-- A separator behind a text that leaves the scan outside begins a script of its own. -/
theorem piecesFrom_append (piece a b : List Char) (ha : nesting.after a = outside)
    (hsep : sep = ';' ∨ sep = '\n') :
    piecesFrom nesting piece (a ++ sep :: b) = piecesFrom nesting piece a ++ pieces b := by
  induction a generalizing nesting piece with
  | nil =>
    obtain rfl : nesting = outside := ha
    simp [piecesFrom, Nesting.separates_iff.mpr ⟨rfl, hsep⟩, pieces]
  | cons c a ih =>
    rw [List.cons_append, piecesFrom, piecesFrom]
    split
    · rename_i hc
      have ha : nesting.after a = outside := by
        rwa [Nesting.after_cons, Nesting.step_of_separates hc] at ha
      rw [ih [] ha, List.cons_append]
    · exact ih (c :: piece) ha

/-- Scripts joined by a separator have the statements of one and of the other. -/
theorem statements_append (a b : List Char) (ha : outside.after a = outside)
    (hsep : sep = ';' ∨ sep = '\n') :
    statements (a ++ sep :: b) = statements a ++ statements b := by
  rw [statements, pieces, piecesFrom_append [] a b ha hsep, List.map_append, List.filter_append]
  rfl

/-- A text that no separator cuts is one piece. -/
theorem piecesFrom_of_unbroken (piece : List Char) {text : List Char}
    (h : nesting.Unbroken text) : piecesFrom nesting piece text = [piece.reverse ++ text] := by
  induction text generalizing nesting piece with
  | nil => simp [piecesFrom]
  | cons c rest ih =>
    rw [piecesFrom, h.1, if_neg Bool.false_ne_true, ih (c :: piece) h.2]
    simp

/-- No separator cuts a piece. What the scan has read of the first piece is what put it where it
stands. -/
theorem unbroken_of_mem_piecesFrom (read : List Char) {text piece : List Char}
    (hread : outside.Unbroken read.reverse)
    (hpiece : piece ∈ piecesFrom (outside.after read.reverse) read text) :
    outside.Unbroken piece := by
  induction text generalizing read with
  | nil =>
    obtain rfl : piece = read.reverse := by simpa [piecesFrom] using hpiece
    exact hread
  | cons c rest ih =>
    rw [piecesFrom] at hpiece
    split at hpiece
    · rename_i hc
      obtain rfl | hpiece := List.mem_cons.mp hpiece
      · exact hread
      · have houtside : outside.after read.reverse = outside := by
          rw [Nesting.separates, Bool.and_eq_true, decide_eq_true_eq] at hc
          exact hc.1
        exact ih [] trivial (by rwa [houtside] at hpiece)
    · rename_i hc
      refine ih (c :: read) ?_ ?_
      · rw [List.reverse_cons, Nesting.unbroken_append]
        exact ⟨hread, eq_false_of_ne_true hc, trivial⟩
      · simpa using hpiece

theorem unbroken_of_mem_pieces {source piece : List Char} (h : piece ∈ pieces source) :
    outside.Unbroken piece :=
  unbroken_of_mem_piecesFrom [] trivial h

/-- Trimming a piece does not expose a separator. -/
theorem unbroken_trim {piece : List Char} (h : outside.Unbroken piece) :
    outside.Unbroken (Text.trim piece) := by
  obtain ⟨before, after, hpiece, hbefore⟩ := Text.exists_append_trim piece
  rw [hpiece, Nesting.unbroken_append, Nesting.outside_after_of_isBlank hbefore,
    Nesting.unbroken_append] at h
  exact h.2.1

/-! ### Statements -/

/-- The text is not empty, has no blanks at its ends, is no comment, and as a script is its own only
statement. -/
structure StandsAlone (text : List Char) : Prop where
  ne_nil : text ≠ []
  trimmed : Text.IsTrimmed text
  no_comment : text.head? ≠ some '#'
  statements_eq : statements text = [text]

theorem isStatement_eq_true_iff {piece : List Char} :
    isStatement piece ↔ piece ≠ [] ∧ piece.head? ≠ some '#' := by
  cases piece <;> simp [isStatement]

/-- Each statement of a script would be one by itself. -/
theorem standsAlone_of_mem {source line : List Char} (h : line ∈ statements source) :
    StandsAlone line := by
  obtain ⟨hmem, hline⟩ := List.mem_filter.mp h
  obtain ⟨piece, hpiece, rfl⟩ := List.mem_map.mp hmem
  have htrimmed := Text.isTrimmed_trim piece
  have hpieces : pieces (Text.trim piece) = [Text.trim piece] :=
    piecesFrom_of_unbroken [] (unbroken_trim (unbroken_of_mem_pieces hpiece))
  obtain ⟨hne, hcomment⟩ := isStatement_eq_true_iff.mp hline
  refine ⟨hne, htrimmed, hcomment, ?_⟩
  rw [statements, hpieces, List.map_singleton, htrimmed.trim_eq, List.filter_cons_of_pos hline,
    List.filter_nil]

/-! ### Scripts -/

namespace State

/-- Lines are carried out one after the other. -/
theorem evalLines_append (state : State) (lines rest : List (List Char)) :
    state.evalLines (lines ++ rest) =
      ((state.evalLines lines).1 ++ ((state.evalLines lines).2.evalLines rest).1,
        ((state.evalLines lines).2.evalLines rest).2) := by
  induction lines generalizing state with
  | nil => rfl
  | cons line lines ih =>
    rw [List.cons_append, evalLines_cons, evalLines_cons, ih, List.cons_append]

/-- A script prints what its parts print, the second from the state that the first leaves. -/
theorem runScript_append {a b source : List Char}
    (h : statements source = statements a ++ statements b) (state : State) :
    state.runScript source =
      ((state.runScript a).1 ++ ((state.runScript a).2.runScript b).1,
        ((state.runScript a).2.runScript b).2) := by
  simp only [runScript]
  rw [h, evalLines_append, List.filterMap_append]

end State

/-- The same for what is printed on the two outputs. -/
theorem execute_append {a b source : List Char}
    (h : statements source = statements a ++ statements b) (report : CommandLine.Report)
    (state : State) :
    CommandLine.execute report state source =
      CommandLine.execute (CommandLine.execute report state a).1
        (CommandLine.execute report state a).2 b := by
  simp only [CommandLine.execute]
  rw [h, State.evalLines_append, List.foldl_append]

/-- **Scripts split where they are joined.** Two scripts are joined by a semicolon or a line break.
If the first leaves the scan outside of quotes and brackets, the statements are those of the first
and those of the second, in this order. So the joined script prints what the first prints, and then
what the second prints from the state that the first leaves. Each statement of any script is not
empty, has no blanks at its ends, does not begin with `#`, and is not cut again. -/
theorem splitting_compositional (a b : List Char) (sep : Char)
    (ha : outside.after a = outside) (hsep : sep = ';' ∨ sep = '\n') :
    statements (a ++ sep :: b) = statements a ++ statements b ∧
      (∀ state : State, state.runScript (a ++ sep :: b) =
        ((state.runScript a).1 ++ ((state.runScript a).2.runScript b).1,
          ((state.runScript a).2.runScript b).2)) ∧
      (∀ report state, CommandLine.execute report state (a ++ sep :: b) =
        CommandLine.execute (CommandLine.execute report state a).1
          (CommandLine.execute report state a).2 b) ∧
      ∀ source, ∀ line ∈ statements source, StandsAlone line := by
  have h := statements_append a b ha hsep
  exact ⟨h, State.runScript_append h, execute_append h, fun _ _ => standsAlone_of_mem⟩

/-- A separator between quotes, a bracket that none opened, and a second script that ends within a
list and a text. -/
theorem splitting_compositional_of_surplus_bracket :
    let a := "push 'a;[' ]; # 0".toList
    let b := "show\n concat [1; \"2 ".toList
    outside.after a = outside ∧
      statements (a ++ '\n' :: b)
        = ["push 'a;[' ]".toList, "show".toList, "concat [1; \"2".toList] ∧
      StandsAlone "concat [1; \"2".toList := by
  intro a b
  have ha : outside.after a = outside := by decide
  obtain ⟨hsplit, -, -, halone⟩ := splitting_compositional a b '\n' ha (.inr rfl)
  have hb : statements b = ["show".toList, "concat [1; \"2".toList] := by decide
  refine ⟨ha, ?_, halone b _ (by simp [hb])⟩
  rw [hsplit, hb]
  decide

end ArrayEngine.Shell
