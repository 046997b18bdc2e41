import ArrayEngine.Text.Utf16
import Mathlib.Data.List.Basic

/-!
# Code units that become text and code units again

A list of code units becomes a text and the text becomes code units again whenever a string is
compared or shown. On the way a surrogate without its other half is lost: it becomes U+FFFD, and is
no longer told from any other. All else comes back as it was.

Which surrogates are lost is said here of each code unit and its two neighbours, without reading the
list from the left.

## Main definitions

* `Text.isLone`, `Text.mended`: surrogates without their other half, replaced
* `Text.WellFormed`: code units of some text

## Main results

* `Text.encodeUtf16_decodeUtf16`: what comes back
* `Text.decodeUtf16_encodeUtf16`: a text comes back as it was
* `Text.mended_eq_self_iff`: nothing is lost exactly from code units of a text
-/

namespace ArrayEngine.Text

variable {u v : UInt16} {rest units : List UInt16} {before : Option UInt16}

/-! ### Surrogates without their other half -/

/-- A surrogate that is half of no pair: a first half before anything but a second one, or a second
half behind anything but a first one. -/
def isLone (before : Option UInt16) (u : UInt16) (behind : Option UInt16) : Bool :=
  isHighSurrogate u && !behind.any isLowSurrogate || isLowSurrogate u && !before.any isHighSurrogate

/-- Code units behind a given one, lone surrogates replaced. -/
def mendedBehind (before : Option UInt16) : List UInt16 → List UInt16
  | [] => []
  | u :: rest =>
    (if isLone before u rest.head? then 0xfffd else u) :: mendedBehind (some u) rest

theorem mendedBehind_cons (before : Option UInt16) (u : UInt16) (rest : List UInt16) :
    mendedBehind before (u :: rest)
      = (if isLone before u rest.head? then 0xfffd else u) :: mendedBehind (some u) rest := rfl

/-- Code units with every lone surrogate replaced. -/
def mended (units : List UInt16) : List UInt16 := mendedBehind none units

/-- Code units of some text. -/
def WellFormed (units : List UInt16) : Prop := ∃ text, encodeUtf16 text = units

/-! ### Surrogates and characters -/

theorem isHighSurrogate_iff : isHighSurrogate u ↔ 0xd800 ≤ u.toNat ∧ u.toNat < 0xdc00 := by
  simp [isHighSurrogate, UInt16.le_iff_toNat_le, UInt16.lt_iff_toNat_lt]

theorem isLowSurrogate_iff : isLowSurrogate u ↔ 0xdc00 ≤ u.toNat ∧ u.toNat < 0xe000 := by
  simp [isLowSurrogate, UInt16.le_iff_toNat_le, UInt16.lt_iff_toNat_lt]

/-- No code unit is both halves. -/
theorem isHighSurrogate_eq_false (h : isLowSurrogate u) : isHighSurrogate u = false := by
  rw [isLowSurrogate_iff] at h
  rw [← Bool.not_eq_true, isHighSurrogate_iff]
  omega

theorem toNat_ofNat {n : Nat} (h : n.isValidChar) : (Char.ofNat n).toNat = n := by
  rw [Char.ofNat, dif_pos h]
  rfl

theorem charUnits_of_lt {c : Char} (h : c.toNat < 0x10000) :
    charUnits c = [UInt16.ofNat c.toNat] := if_pos h

theorem charUnits_of_le {c : Char} (h : 0x10000 ≤ c.toNat) :
    charUnits c = [UInt16.ofNat (0xd800 + (c.toNat - 0x10000) / 0x400),
      UInt16.ofNat (0xdc00 + (c.toNat - 0x10000) % 0x400)] := if_neg (Nat.not_lt.mpr h)

theorem encodeUtf16_cons (c : Char) (text : List Char) :
    encodeUtf16 (c :: text) = charUnits c ++ encodeUtf16 text := List.flatMap_cons

/-- A code unit that stands alone comes back, unless it is a surrogate. -/
theorem charUnits_soloChar (u : UInt16) :
    charUnits (soloChar u)
      = [if isHighSurrogate u || isLowSurrogate u then 0xfffd else u] := by
  rw [soloChar]
  split
  case isTrue => rfl
  case isFalse h =>
    have hu := u.toNat_lt
    rw [Bool.or_eq_true, isHighSurrogate_iff, isLowSurrogate_iff] at h
    have hvalid : u.toNat.isValidChar := by
      rw [Nat.isValidChar]
      omega
    have hcode := toNat_ofNat hvalid
    rw [charUnits_of_lt (by omega), hcode, UInt16.ofNat_toNat]

theorem toNat_pairChar (hu : isHighSurrogate u) (hv : isLowSurrogate v) :
    (pairChar u v).toNat = 0x10000 + (u.toNat - 0xd800) * 0x400 + (v.toNat - 0xdc00) := by
  rw [isHighSurrogate_iff] at hu
  rw [isLowSurrogate_iff] at hv
  refine toNat_ofNat ?_
  rw [Nat.isValidChar]
  omega

/-- Both halves of a pair come back. -/
theorem charUnits_pairChar (hu : isHighSurrogate u) (hv : isLowSurrogate v) :
    charUnits (pairChar u v) = [u, v] := by
  have hcode := toNat_pairChar hu hv
  rw [isHighSurrogate_iff] at hu
  rw [isLowSurrogate_iff] at hv
  rw [charUnits_of_le (by omega),
    show 0xd800 + ((pairChar u v).toNat - 0x10000) / 0x400 = u.toNat by omega,
    show 0xdc00 + ((pairChar u v).toNat - 0x10000) % 0x400 = v.toNat by omega,
    UInt16.ofNat_toNat, UInt16.ofNat_toNat]

/-! ### From code units and back -/

/-- A surrogate is lone unless it makes a pair with one of its neighbours. -/
theorem isLone_eq {behind : Option UInt16}
    (hbefore : ¬(before.any isHighSurrogate ∧ isLowSurrogate u))
    (hbehind : ¬(isHighSurrogate u ∧ behind.any isLowSurrogate)) :
    isLone before u behind = (isHighSurrogate u || isLowSurrogate u) := by
  rw [isLone]
  cases hhigh : isHighSurrogate u <;> cases hlow : isLowSurrogate u <;> simp_all

/-- What comes back behind a code unit that makes no pair with the first of the list. -/
theorem encodeUtf16_decodeUtf16_behind
    (h : ¬(before.any isHighSurrogate ∧ units.head?.any isLowSurrogate)) :
    encodeUtf16 (decodeUtf16 units) = mendedBehind before units := by
  fun_induction decodeUtf16 units generalizing before with
  | case1 => rfl
  -- The last code unit, a pair, and a code unit that makes no pair with the next one.
  | case2 u =>
    rw [encodeUtf16, List.flatMap_singleton, charUnits_soloChar, mendedBehind, mendedBehind,
      isLone_eq (by simpa using h) (by simp)]
  | case3 u v rest hpair ih =>
    rw [Bool.and_eq_true] at hpair
    obtain ⟨hu, hv⟩ := hpair
    have hrest : encodeUtf16 (decodeUtf16 rest) = mendedBehind (some v) rest :=
      ih (by simp [isHighSurrogate_eq_false hv])
    have hlow : isLowSurrogate u = false := by
      by_contra hlow
      rw [isHighSurrogate_eq_false (by simpa using hlow)] at hu
      cases hu
    rw [encodeUtf16_cons, charUnits_pairChar hu hv, hrest, mendedBehind, mendedBehind]
    simp [isLone, hu, hv, hlow, isHighSurrogate_eq_false hv]
  | case4 u v rest hpair ih =>
    have hrest : encodeUtf16 (decodeUtf16 (v :: rest)) = mendedBehind (some u) (v :: rest) :=
      ih (by simpa using hpair)
    rw [encodeUtf16_cons, charUnits_soloChar, hrest, mendedBehind_cons before,
      isLone_eq (by simpa using h) (by simpa using hpair)]
    rfl

/-- What comes back of code units that become a text: all but the lone surrogates. -/
theorem encodeUtf16_decodeUtf16 (units : List UInt16) :
    encodeUtf16 (decodeUtf16 units) = mended units :=
  encodeUtf16_decodeUtf16_behind (by simp)

/-! ### From a text and back -/

theorem decodeUtf16_cons (hu : isHighSurrogate u = false) (rest : List UInt16) :
    decodeUtf16 (u :: rest) = soloChar u :: decodeUtf16 rest := by
  cases rest with
  | nil => rfl
  | cons v rest => rw [decodeUtf16, hu, Bool.false_and, if_neg Bool.false_ne_true]

theorem decodeUtf16_charUnits (c : Char) (rest : List UInt16) :
    decodeUtf16 (charUnits c ++ rest) = c :: decodeUtf16 rest := by
  have hvalid : c.toNat.isValidChar := c.valid
  have hchar : Char.ofNat c.toNat = c := Char.ofNat_toNat c
  rcases Nat.lt_or_ge c.toNat 0x10000 with hlt | hge
  case inl =>
    have hcode : (UInt16.ofNat c.toNat).toNat = c.toNat := by simpa using hlt
    rw [Nat.isValidChar] at hvalid
    have hhigh : isHighSurrogate (UInt16.ofNat c.toNat) = false := by
      rw [← Bool.not_eq_true, isHighSurrogate_iff, hcode]
      omega
    have hlow : isLowSurrogate (UInt16.ofNat c.toNat) = false := by
      rw [← Bool.not_eq_true, isLowSurrogate_iff, hcode]
      omega
    rw [charUnits_of_lt hlt, List.singleton_append, decodeUtf16_cons hhigh, soloChar, hhigh, hlow,
      Bool.or_false, if_neg Bool.false_ne_true, hcode, hchar]
  case inr =>
    rw [Nat.isValidChar] at hvalid
    have hhigh : (UInt16.ofNat (0xd800 + (c.toNat - 0x10000) / 0x400)).toNat
        = 0xd800 + (c.toNat - 0x10000) / 0x400 := by
      rw [UInt16.toNat_ofNat']
      omega
    have hlow : (UInt16.ofNat (0xdc00 + (c.toNat - 0x10000) % 0x400)).toNat
        = 0xdc00 + (c.toNat - 0x10000) % 0x400 := by
      rw [UInt16.toNat_ofNat']
      omega
    have hpair : isHighSurrogate (UInt16.ofNat (0xd800 + (c.toNat - 0x10000) / 0x400)) &&
        isLowSurrogate (UInt16.ofNat (0xdc00 + (c.toNat - 0x10000) % 0x400)) := by
      rw [Bool.and_eq_true, isHighSurrogate_iff, isLowSurrogate_iff, hhigh, hlow]
      omega
    have hcode : 0x10000 + (0xd800 + (c.toNat - 0x10000) / 0x400 - 0xd800) * 0x400
        + (0xdc00 + (c.toNat - 0x10000) % 0x400 - 0xdc00) = c.toNat := by omega
    rw [charUnits_of_le hge, List.cons_append, List.singleton_append, decodeUtf16, if_pos hpair,
      pairChar, hhigh, hlow, hcode, hchar]

theorem decodeUtf16_encodeUtf16_append (text : List Char) (rest : List UInt16) :
    decodeUtf16 (encodeUtf16 text ++ rest) = text ++ decodeUtf16 rest := by
  induction text with
  | nil => rfl
  | cons c text ih =>
    rw [encodeUtf16_cons, List.append_assoc, decodeUtf16_charUnits, ih, List.cons_append]

/-- A text comes back as it was. -/
theorem decodeUtf16_encodeUtf16 (text : List Char) : decodeUtf16 (encodeUtf16 text) = text := by
  simpa [decodeUtf16] using decodeUtf16_encodeUtf16_append text []

theorem mended_eq_self_iff : mended units = units ↔ WellFormed units := by
  rw [← encodeUtf16_decodeUtf16]
  constructor
  · exact fun h => ⟨_, h⟩
  · rintro ⟨text, rfl⟩
    rw [decodeUtf16_encodeUtf16]

end ArrayEngine.Text
