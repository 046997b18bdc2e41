import ArrayEngine.Proofs.Shell.Splitting

/-!
# Comments

A statement that begins with `#` is a comment, and is dropped. But it is dropped only after the
script has been cut, and the scan that cuts it takes a comment for a statement like any other: it
heeds the quotes and brackets in it. So a comment does not end with its line but at the first
separator outside of quotes and brackets, and what stands before that is dropped with it.

A comment whose quotes and brackets are closed by the end of the line affects nothing but itself.
No other comment does: an apostrophe in it is enough to lose the statements of the next lines.

## Main definitions

* `Nesting.behindSeparator`: what stands behind the first separator of a text

## Main results

* `statements_of_comment`: a script that begins with a comment
* `statements_comment_iff`: the comments that affect only themselves
* `statements_lost_of_apostrophe`: one that does not
-/

namespace ArrayEngine.Shell

open Nesting (outside)

variable {nesting : Nesting}

/-- What stands behind the first separator of a text: nothing, if there is none. -/
def Nesting.behindSeparator : Nesting → List Char → List Char
  | _, [] => []
  | nesting, c :: rest =>
    if nesting.separates c then rest else (nesting.step c).behindSeparator rest

theorem statements_nil : statements [] = [] := rfl

/-- The first piece goes on from what has been read, and the others are those of the text behind
it. -/
theorem exists_piecesFrom (nesting : Nesting) (read text : List Char) :
    ∃ more others, piecesFrom nesting read text = (read.reverse ++ more) :: others ∧
      (others.map Text.trim).filter isStatement
        = statements (nesting.behindSeparator text) := by
  induction text generalizing nesting read with
  | nil => exact ⟨[], [], by simp [piecesFrom], rfl⟩
  | cons c rest ih =>
    rw [piecesFrom, Nesting.behindSeparator]
    split
    · rename_i hc
      obtain rfl := (Nesting.separates_iff.mp hc).1
      exact ⟨[], pieces rest, by simp [pieces], rfl⟩
    · obtain ⟨more, others, hpieces, hothers⟩ := ih (nesting.step c) (c :: read)
      exact ⟨c :: more, others, by simp [hpieces], hothers⟩

/-- A comment reaches to the first separator. -/
theorem statements_of_comment (text : List Char) :
    statements ('#' :: text) = statements (outside.behindSeparator text) := by
  obtain ⟨more, others, hpieces, hothers⟩ := exists_piecesFrom outside ['#'] text
  have hscan : pieces ('#' :: text) = ('#' :: more) :: others := hpieces
  obtain ⟨kept, hkept⟩ := Text.trim_cons more (show Text.isBlank '#' = false from rfl)
  have hcomment : isStatement (Text.trim ('#' :: more)) = false := by rw [hkept]; rfl
  rw [statements, hscan, List.map_cons, List.filter_cons_of_neg (by simp [hcomment]), hothers]

/-- Characters that separate nothing, wherever the scan stands, only move the scan. -/
theorem behindSeparator_append {text : List Char} (rest : List Char)
    (htext : ∀ c ∈ text, c ≠ '\n' ∧ c ≠ ';') :
    nesting.behindSeparator (text ++ rest) = (nesting.after text).behindSeparator rest := by
  induction text generalizing nesting with
  | nil => rfl
  | cons c text ih =>
    obtain ⟨⟨hline, hsemicolon⟩, htext⟩ := List.forall_mem_cons.mp htext
    have hc : ¬ nesting.separates c := by simp [Nesting.separates_iff, hline, hsemicolon]
    rw [List.cons_append, Nesting.behindSeparator, if_neg hc, ih htext, Nesting.after_cons]

/-- A line that leaves the scan inside of something takes the next one along, and a script of one
line is then lost. -/
theorem behindSeparator_line (h : nesting ≠ outside) :
    nesting.behindSeparator ['\n', 'x'] = [] := by
  have hline : ¬ nesting.separates '\n' := by simp [Nesting.separates_iff, h]
  have hx : ¬ (nesting.step '\n').separates 'x' := by simp [Nesting.separates_iff]
  rw [Nesting.behindSeparator, if_neg hline, Nesting.behindSeparator, if_neg hx,
    Nesting.behindSeparator]

/-- **Comments that affect only themselves.** Of a script that begins with a comment line, what is
carried out is what stands behind the first separator from the end of that line on, where the scan
stands as the comment has left it. If it stands outside of quotes and brackets, these are exactly
the statements that follow the line. Otherwise it is not so for every script. -/
theorem statements_comment_iff (comment : List Char)
    (hcomment : ∀ c ∈ comment, c ≠ '\n' ∧ c ≠ ';') :
    (∀ source, statements ('#' :: (comment ++ '\n' :: source))
      = statements ((outside.after comment).behindSeparator ('\n' :: source))) ∧
    ((∀ source, statements ('#' :: (comment ++ '\n' :: source)) = statements source) ↔
      outside.after comment = outside) := by
  have hbehind : ∀ source, statements ('#' :: (comment ++ '\n' :: source))
      = statements ((outside.after comment).behindSeparator ('\n' :: source)) := by
    intro source
    rw [statements_of_comment, behindSeparator_append _ hcomment]
  refine ⟨hbehind, ?_, ?_⟩
  · intro hsame
    by_contra hinside
    have hlost := (hbehind ['x']).symm.trans (hsame ['x'])
    rw [behindSeparator_line hinside, statements_nil] at hlost
    exact absurd hlost (by decide)
  · intro houtside source
    rw [hbehind, houtside]
    rfl

/-- A comment with a quoted bracket and a bracket that none opened. -/
theorem statements_comment_iff_of_quoted_bracket :
    let comment := " ] \"it's [\"".toList
    let source := "pop; # [\n show".toList
    (∀ c ∈ comment, c ≠ '\n' ∧ c ≠ ';') ∧ outside.after comment = outside ∧
      statements ('#' :: (comment ++ '\n' :: source)) = statements source := by
  intro comment source
  have hcomment : ∀ c ∈ comment, c ≠ '\n' ∧ c ≠ ';' := by simp [comment]
  have houtside : outside.after comment = outside := by decide
  exact ⟨hcomment, houtside, (statements_comment_iff comment hcomment).2.mpr houtside source⟩

/-- An apostrophe in a comment is taken for a quote, and so the statement of the next line is
lost. -/
theorem statements_lost_of_apostrophe :
    let comment := " it's".toList
    let source := "pop".toList
    (∀ c ∈ comment, c ≠ '\n' ∧ c ≠ ';') ∧
      statements ('#' :: (comment ++ '\n' :: source)) = [] ∧ statements source = [source] := by
  refine ⟨by simp, ?_, ?_⟩ <;> decide

end ArrayEngine.Shell
