import ArrayEngine.Shell.Nesting
import ArrayEngine.Text.Blank

/-!
# Statements of a script

A semicolon or line break outside of quotes and brackets ends a statement. Statements are trimmed,
and those that are empty or begin with `#` are dropped.
-/

namespace ArrayEngine.Shell

/-- Whether a character ends a statement where it stands. -/
def Nesting.separates (nesting : Nesting) (c : Char) : Bool :=
  nesting = .outside && (c == ';' || c == '\n')

/-- Pieces of a text between separators, the first of which follows the characters `piece`, given
last first. -/
def piecesFrom (nesting : Nesting) (piece : List Char) : List Char → List (List Char)
  | [] => [piece.reverse]
  | c :: rest =>
    if nesting.separates c then piece.reverse :: piecesFrom nesting [] rest
    else piecesFrom (nesting.step c) (c :: piece) rest

/-- Pieces of a text between separators. -/
def pieces (source : List Char) : List (List Char) := piecesFrom .outside [] source

/-- Whether a trimmed piece is to be carried out. -/
def isStatement (piece : List Char) : Bool :=
  match piece with
  | [] => false
  | c :: _ => c != '#'

/-- Statements of a script, in order. -/
def statements (source : List Char) : List (List Char) :=
  ((pieces source).map Text.trim).filter isStatement

end ArrayEngine.Shell
