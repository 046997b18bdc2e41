/-!
# UTF-16 code units

A string value is a list of code units, which need not be well formed: a surrogate may stand
alone. Decoding to characters replaces each lone surrogate by U+FFFD; encoding is exact.
-/

namespace ArrayEngine.Text

/-- First half of a surrogate pair. -/
def isHighSurrogate (u : UInt16) : Bool := 0xd800 ≤ u && u < 0xdc00

/-- Second half of a surrogate pair. -/
def isLowSurrogate (u : UInt16) : Bool := 0xdc00 ≤ u && u < 0xe000

/-- The character that stands for a lone surrogate. -/
def replacement : Char := '\ufffd'

/-- Character of a code unit that stands alone. -/
def soloChar (u : UInt16) : Char :=
  if isHighSurrogate u || isLowSurrogate u then replacement else Char.ofNat u.toNat

/-- Character of a surrogate pair. -/
def pairChar (high low : UInt16) : Char :=
  Char.ofNat (0x10000 + (high.toNat - 0xd800) * 0x400 + (low.toNat - 0xdc00))

/-- Characters of a list of code units, lone surrogates replaced. -/
def decodeUtf16 : List UInt16 → List Char
  | [] => []
  | [u] => [soloChar u]
  | u :: v :: rest =>
    if isHighSurrogate u && isLowSurrogate v then pairChar u v :: decodeUtf16 rest
    else soloChar u :: decodeUtf16 (v :: rest)

/-- Code units of a character: one, or a surrogate pair. -/
def charUnits (c : Char) : List UInt16 :=
  let code := c.toNat
  if code < 0x10000 then [UInt16.ofNat code]
  else
    let above := code - 0x10000
    [UInt16.ofNat (0xd800 + above / 0x400), UInt16.ofNat (0xdc00 + above % 0x400)]

/-- Code units of a text. -/
def encodeUtf16 (text : List Char) : List UInt16 := text.flatMap charUnits

end ArrayEngine.Text
