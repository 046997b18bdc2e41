import ArrayEngine.Binary.Double

/-!
# Reading numerals

Three kinds of numeral: digits of a radix after a prefix such as `0x`, decimal numbers with an
optional point and exponent, and whole numbers of any size. A reader takes the whole text or
answers `none`.

## Main definitions

* `digitsValue?`: the number that digits of a radix denote
* `radixPrefix?`, `unsigned?`: the radix that a prefix announces, and unsigned numbers of a width
* `decimal?`: decimal numerals, rounded once to the nearest number
* `integer?`: whole numbers, between whose digits underscores may stand
-/

namespace ArrayEngine.Decimal

open Binary

/-! ### Digits -/

/-- Value of a digit in a radix of up to sixteen. -/
def digitValue? (radix : Nat) (c : Char) : Option Nat :=
  let value? :=
    if c.isDigit then some (c.toNat - '0'.toNat)
    else if 'a' ≤ c ∧ c ≤ 'f' then some (c.toNat - 'a'.toNat + 10)
    else if 'A' ≤ c ∧ c ≤ 'F' then some (c.toNat - 'A'.toNat + 10)
    else none
  value?.filter (· < radix)

/-- Number denoted by digits that follow others of value `acc`. -/
def digitsFrom? (radix : Nat) : (acc : Nat) → List Char → Option Nat
  | acc, [] => some acc
  | acc, c :: rest =>
    match digitValue? radix c with
    | some d => digitsFrom? radix (acc * radix + d) rest
    | none => none

/-- Number denoted by one or more digits. -/
def digitsValue? (radix : Nat) (digits : List Char) : Option Nat :=
  if digits.isEmpty then none else digitsFrom? radix 0 digits

/-- An unsigned number of at most `2 ^ bits - 1`, before whose digits a plus sign may stand. -/
def unsigned? (radix bits : Nat) (text : List Char) : Option Nat :=
  let digits := match text with
    | '+' :: rest => rest
    | _ => text
  (digitsValue? radix digits).filter (· < Nat.pow 2 bits)

/-! ### Radix prefixes -/

/-- Radix announced by the letter after a leading zero. -/
def radix? : Char → Option Nat
  | 'x' | 'X' => some 16
  | 'o' | 'O' => some 8
  | 'b' | 'B' => some 2
  | _ => none

/-- Radix prefix of a text, and what follows it. -/
def radixPrefix? : List Char → Option (Nat × List Char)
  | '0' :: letter :: digits => (radix? letter).map (·, digits)
  | _ => none

/-! ### Decimal numbers -/

/-- Sign and the text after it. -/
def takeSign : List Char → Bool × List Char
  | '-' :: rest => (true, rest)
  | '+' :: rest => (false, rest)
  | text => (false, text)

/-- An exponent that has come this far takes no further digits. -/
def exponentLimit : Nat := 0x10000

/-- Exponent denoted by digits. Those that follow a value from the limit on are skipped. -/
def exponentValue (digits : List Char) : Nat :=
  digits.foldl (fun n c => if n < exponentLimit then 10 * n + (c.toNat - '0'.toNat) else n) 0

/-- Exponent part at the end of a decimal numeral, zero where it is missing. -/
def exponent? : List Char → Option Int
  | [] => some 0
  | e :: rest =>
    if e = 'e' ∨ e = 'E' then
      let (negative, digits) := takeSign rest
      if digits.isEmpty || !digits.all Char.isDigit then none
      else some (if negative then -exponentValue digits else exponentValue digits)
    else none

/-- Significand and power of ten of an unsigned decimal numeral. -/
def unsignedDecimal? (text : List Char) : Option (Nat × Int) :=
  let whole := text.takeWhile Char.isDigit
  let afterWhole := text.dropWhile Char.isDigit
  let (fraction, rest) := match afterWhole with
    | '.' :: more => (more.takeWhile Char.isDigit, more.dropWhile Char.isDigit)
    | _ => ([], afterWhole)
  match digitsValue? 10 (whole ++ fraction), exponent? rest with
  | some significand, some exponent => some (significand, exponent - fraction.length)
  | _, _ => none

/-- Number nearest to `significand * 10 ^ exponent`. Beyond the powers of ten on either side of
the range the exponent no longer matters, and is not computed with. -/
def scaleByTen (negative : Bool) (significand : Nat) (exponent : Int) : Double :=
  let size := (significand.log2 : Int) * 30103 / 100000 + exponent
  if significand = 0 ∨ size < -400 then Double.ofMagnitude negative 0
  else if 400 < size then Double.ofMagnitude negative binary64.infinity
  else
    Double.ofQuotient negative (significand * Nat.pow 10 exponent.toNat)
      (Nat.pow 10 (-exponent).toNat)

/-- A decimal numeral with an optional sign, fraction and exponent. -/
def decimal? (text : List Char) : Option Double :=
  let (negative, digits) := takeSign text
  (unsignedDecimal? digits).map fun (significand, exponent) =>
    scaleByTen negative significand exponent

/-! ### Whole numbers of any size -/

/-- Digits of a whole number. Underscores are skipped, but none stands first. -/
def natural? (text : List Char) : Option Nat :=
  if text.head? = some '_' then none
  else if text.isEmpty then none
  else digitsFrom? 10 0 (text.filter (· ≠ '_'))

/-- A whole number with at most one sign. -/
def integer? : List Char → Option Int
  | '-' :: rest => (natural? rest).map fun n => -n
  | '+' :: rest => (natural? rest).map Int.ofNat
  | text => (natural? text).map Int.ofNat

end ArrayEngine.Decimal
