import ArrayEngine.Decimal.Notation
import ArrayEngine.Text.Quoted
import ArrayEngine.Text.Utf16
import ArrayEngine.Value.Basic

/-!
# Values as text

A value has a plain text, which is also what the default order of sorting compares, and a form in
which it is shown, where strings are quoted, big integers carry their suffix, and the sign of a
zero is seen.
-/

namespace ArrayEngine.Value

open Binary (Double)

/-- Plain text of a value. Lone surrogates of a string are replaced. -/
def text : Value → String
  | undefined => "undefined"
  | null => "null"
  | boolean b => if b then "true" else "false"
  | number x => x.text
  | string units => String.ofList (Text.decodeUtf16 units)
  | bigInt n => toString n
  | object _ => "[object Object]"

/-- A value as it is shown. -/
def display : Value → String
  | string units => String.ofList (Text.quoted (Text.decodeUtf16 units))
  | bigInt n => s!"{n}n"
  | number x => if x.isNegativeZero then "-0" else x.text
  | v => v.text

/-- String value of a text. -/
def ofText (text : List Char) : Value := string (Text.encodeUtf16 text)

/-- Code units of the plain text. -/
def textUnits (v : Value) : List UInt16 := Text.encodeUtf16 v.text.toList

/-- Default order of values: that of the code units of their texts. -/
def compareTexts (v w : Value) : Ordering := compare v.textUnits w.textUnits

end ArrayEngine.Value
