import ArrayEngine.Decimal.Shortest

/-!
# Numbers as text

A number is written with its shortest digits. The point stands where the digits put it as long as
no more than twenty-one digits stand before it and no more than six zeros after `0.`; otherwise
one digit stands before the point and a signed exponent follows. The sign of a zero is not
written.
-/

namespace ArrayEngine.Decimal

open Binary

/-- Digits of a natural number in decimal. -/
def digitChars (n : Nat) : List Char := Nat.toDigits 10 n

/-- Greatest number of digits before the point in positional notation. -/
def maxWholeDigits : Int := 21

/-- Greatest number of zeros between the point and the first digit, and the digit before them. -/
def maxLeadingZeros : Int := 6

/-- `count` zeros. -/
def zeros (count : Int) : List Char := List.replicate count.toNat '0'

/-- Exponent part, always signed. -/
def exponentPart (n : Int) : List Char :=
  'e' :: (if n < 0 then '-' else '+') :: digitChars n.natAbs

/-- A positive decimal in the notation that its size asks for. -/
def layout (d : Scientific) : List Char :=
  let digits := digitChars d.digits
  let count : Int := digits.length
  let whole := count + d.exponent
  if count ≤ whole ∧ whole ≤ maxWholeDigits then digits ++ zeros (whole - count)
  else if 0 < whole ∧ whole ≤ maxWholeDigits then
    digits.take whole.toNat ++ '.' :: digits.drop whole.toNat
  else if -maxLeadingZeros < whole ∧ whole ≤ 0 then '0' :: '.' :: zeros (-whole) ++ digits
  else
    match digits with
    | [digit] => digit :: exponentPart (whole - 1)
    | digits => digits.take 1 ++ '.' :: digits.drop 1 ++ exponentPart (whole - 1)

end ArrayEngine.Decimal

namespace ArrayEngine.Binary.Double

open Decimal

/-- A number as text. -/
def text (x : Double) : String :=
  if x.isNaN then "NaN"
  else if x.isZero then "0"
  else
    let sign := if x.isNegative then "-" else ""
    if x.isInfinite then sign ++ "Infinity"
    else sign ++ String.ofList (layout (shortest x.magnitude))

end ArrayEngine.Binary.Double
