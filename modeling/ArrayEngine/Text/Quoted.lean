import ArrayEngine.Text.Printable

/-!
# Quoted text

A quoted text stands between double quotes. A backslash before a letter stands for a line break, a
carriage return, a tab or a null character; the quote and the backslash themselves are written
after a backslash; and a character that does not show by itself is written as its code point in
hexadecimal between braces.
-/

namespace ArrayEngine.Text

/-- Escape of a character by its code point. -/
def codePointEscape (c : Char) : List Char :=
  "\\u\x7b".toList ++ Nat.toDigits 16 c.toNat ++ ['\x7d']

/-- A character inside quotes. -/
def quotedChar (c : Char) : List Char :=
  match c with
  | '"' => ['\\', '"']
  | '\\' => ['\\', '\\']
  | '\n' => ['\\', 'n']
  | '\r' => ['\\', 'r']
  | '\t' => ['\\', 't']
  | '\x00' => ['\\', '0']
  | c => if isPrintable c && !isExtending c then [c] else codePointEscape c

/-- A text between quotes. -/
def quoted (text : List Char) : List Char := '"' :: text.flatMap quotedChar ++ ['"']

end ArrayEngine.Text
