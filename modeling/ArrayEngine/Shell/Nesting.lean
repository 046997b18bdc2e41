/-!
# Quotes and brackets

Statements and lists are found by one scan that knows whether it stands inside a quoted text, and
inside how many brackets. Brackets inside quotes do not count, and neither does a closing bracket
that none opened.
-/

namespace ArrayEngine.Shell

/-- Whether a character opens a quoted text, which the same character closes. -/
def isQuote (c : Char) : Bool := c == '"' || c == '\''

/-- Where a scan stands. -/
structure Nesting where
  /-- The quote that is open. -/
  quote : Option Char
  /-- Number of brackets that are open. -/
  depth : Nat
deriving DecidableEq, Repr

namespace Nesting

/-- Outside of everything. -/
def outside : Nesting := ⟨none, 0⟩

/-- Where a scan stands after a character. -/
def step (nesting : Nesting) (c : Char) : Nesting :=
  match nesting.quote with
  | some q => if c = q then { nesting with quote := none } else nesting
  | none =>
    if isQuote c then { nesting with quote := some c }
    else if c = '[' then { nesting with depth := nesting.depth + 1 }
    else if c = ']' then { nesting with depth := nesting.depth - 1 }
    else nesting

/-- Where a scan stands after a text. -/
def after (nesting : Nesting) (text : List Char) : Nesting := text.foldl step nesting

@[simp] theorem after_nil (nesting : Nesting) : nesting.after [] = nesting := rfl

@[simp] theorem after_cons (nesting : Nesting) (c : Char) (rest : List Char) :
    nesting.after (c :: rest) = (nesting.step c).after rest := rfl

@[simp] theorem after_append (nesting : Nesting) (text rest : List Char) :
    nesting.after (text ++ rest) = (nesting.after text).after rest := List.foldl_append

end Nesting

end ArrayEngine.Shell
