import ArrayEngine.Shell.Error
import ArrayEngine.Shell.Nesting
import ArrayEngine.Text.Blank

/-!
# Words of a command line

A line is read as words between blanks. A word that begins with a quote goes to the next such
quote, and one that begins with a bracket to the bracket that closes it; both keep their
delimiters, and need no blank behind them.
-/

namespace ArrayEngine.Shell

/-- A word of a line, delimiters included. -/
abbrev Token := List Char

/-- What a scan of a line is in the middle of, with the characters read so far, last first. -/
inductive TokenScan where
  | between
  | word (read : List Char)
  | quoted (quote : Char) (read : List Char)
  | list (nesting : Nesting) (read : List Char)
deriving DecidableEq, Repr

/-- What a scan is in the middle of after the first character of a word. -/
def TokenScan.start (c : Char) : TokenScan :=
  if isQuote c then .quoted c [c]
  else if c = '[' then .list ⟨none, 1⟩ [c]
  else .word [c]

/-- Words of the rest of `line`. -/
def tokensFrom (line : List Char) : TokenScan → List Char → Except ReadError (List Token)
  | .between, [] => .ok []
  | .word read, [] => .ok [read.reverse]
  | .quoted _ _, [] => .error (.unterminatedString line)
  | .list _ _, [] => .error (.unterminatedList line)
  | .between, c :: rest =>
    if Text.isBlank c then tokensFrom line .between rest else tokensFrom line (.start c) rest
  | .word read, c :: rest =>
    if Text.isBlank c then (tokensFrom line .between rest).map (read.reverse :: ·)
    else tokensFrom line (.word (c :: read)) rest
  | .quoted quote read, c :: rest =>
    if c = quote then (tokensFrom line .between rest).map ((c :: read).reverse :: ·)
    else tokensFrom line (.quoted quote (c :: read)) rest
  | .list nesting read, c :: rest =>
    let nesting := nesting.step c
    if nesting.depth = 0 then (tokensFrom line .between rest).map ((c :: read).reverse :: ·)
    else tokensFrom line (.list nesting (c :: read)) rest

/-- Words of a line. -/
def tokenize (line : List Char) : Except ReadError (List Token) := tokensFrom line .between line

end ArrayEngine.Shell
