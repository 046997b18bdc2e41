import ArrayEngine.Proofs.Binary.Exact

/-!
# Widening and narrowing

Every number of a narrow format is a number of a wide one, so that a pattern which is widened and
then narrowed is the one it was. A NaN stays a NaN both ways, though perhaps not the same: it comes
back with its quiet bit set.

## Main definitions

* `Format.Embeds`: a format that has all numbers of another
* `Format.quieted`: a NaN with its quiet bit set

## Main results

* `Format.units_nearest`: few significant bits in range are kept exactly
* `Format.convert_convert`: widening loses nothing
* `Format.convert_convert_of_infinity_lt`: a NaN that is widened and narrowed becomes quiet
* `Format.infinity_lt_magnitude_convert`: a NaN is converted to a NaN, and nothing else is
-/

namespace ArrayEngine.Binary

theorem roundHalfEven_mul_right (num den : Nat) {c : Nat} (hc : 0 < c) :
    roundHalfEven (num * c) (den * c) = roundHalfEven num den := by
  have hlt (m n : Nat) : m * c < n * c ↔ m < n := Nat.mul_lt_mul_right hc
  simp only [roundHalfEven, Nat.mul_div_mul_right _ _ hc, Nat.mul_mod_mul_right, ← Nat.mul_assoc,
    hlt]

namespace Format

variable {f g : Format}

/-! ### Rounding quotients that are whole -/

/-- Rounding does not depend on the unit. -/
theorem nearest_mul_right (f : Format) (num den : Nat) {c : Nat} (hc : 0 < c) :
    f.nearest (num * c) (den * c) = f.nearest num den := by
  simp only [nearest, Nat.mul_div_mul_right _ _ hc, Nat.mul_right_comm den c,
    roundHalfEven_mul_right _ _ hc]

theorem nearest_mul (n : Nat) {den : Nat} (hden : 0 < den) :
    f.nearest (n * den) den = f.nearest n 1 := by
  have hcancel := f.nearest_mul_right n 1 hden
  rwa [Nat.one_mul] at hcancel

/-- A number of units with at most `fractionBits + 1` significant bits, below the power of two at
which the exponents end, is a finite number of the format. -/
theorem units_nearest {m k : Nat} (hm : m < 2 * f.implicitBit)
    (hexponent : 2 ≤ Nat.pow 2 f.exponentBits)
    (hrange : m * 2 ^ k < 2 ^ (f.fractionBits + (Nat.pow 2 f.exponentBits - 2))) :
    f.nearest (m * 2 ^ k) 1 < f.infinity ∧ f.units (f.nearest (m * 2 ^ k) 1) = m * 2 ^ k := by
  rcases Nat.lt_or_ge (m * 2 ^ k) f.implicitBit with hlt | hge
  · have hinfinity : f.implicitBit ≤ f.infinity :=
      Nat.le_mul_of_pos_left _ (Nat.sub_pos_of_lt (Nat.lt_of_lt_of_le Nat.one_lt_two hexponent))
    rw [nearest_of_lt (by omega), Nat.min_eq_left (by omega)]
    exact ⟨by omega, units_of_lt hlt⟩
  · have hm₀ : m ≠ 0 := by
      rintro rfl
      have := implicitBit_pos (f := f)
      omega
    obtain ⟨hle, hlt⟩ := significand_bounds hm hm₀
    have hk : f.fractionBits - m.log2 ≤ k := by
      have hpow : 2 ^ f.fractionBits < 2 ^ (m.log2 + 1 + k) := by
        calc 2 ^ f.fractionBits ≤ m * 2 ^ k := hge
          _ < 2 ^ (m.log2 + 1) * 2 ^ k :=
            Nat.mul_lt_mul_of_pos_right Nat.lt_log2_self (Nat.two_pow_pos _)
          _ = 2 ^ (m.log2 + 1 + k) := (pow_add ..).symm
      have := (Nat.pow_lt_pow_iff_right Nat.one_lt_two).mp hpow
      omega
    obtain ⟨shift, rfl⟩ := Nat.exists_eq_add_of_le hk
    have hshift : f.fractionBits + shift < f.fractionBits + (Nat.pow 2 f.exponentBits - 2) := by
      refine (Nat.pow_lt_pow_iff_right Nat.one_lt_two).mp ?_
      calc 2 ^ (f.fractionBits + shift) = f.implicitBit * 2 ^ shift := pow_add ..
        _ ≤ m * 2 ^ (f.fractionBits - m.log2) * 2 ^ shift := Nat.mul_le_mul_right _ hle
        _ = m * 2 ^ (f.fractionBits - m.log2 + shift) := by rw [Nat.mul_assoc, ← pow_add]
        _ < _ := hrange
    have hinfinity : shift * f.implicitBit + m * 2 ^ (f.fractionBits - m.log2) < f.infinity := by
      calc shift * f.implicitBit + m * 2 ^ (f.fractionBits - m.log2)
          < shift * f.implicitBit + 2 * f.implicitBit := Nat.add_lt_add_left hlt _
        _ = (shift + 2) * f.implicitBit := by ring
        _ ≤ f.infinity := Nat.mul_le_mul_right _ (by omega)
    have hnearest : f.nearest (m * 2 ^ (f.fractionBits - m.log2) * 2 ^ shift) 1
        = shift * f.implicitBit + m * 2 ^ (f.fractionBits - m.log2) :=
      (nearest_mul_pow hle hlt shift).trans (Nat.min_eq_left hinfinity.le)
    rw [pow_add, ← Nat.mul_assoc, hnearest]
    exact ⟨hinfinity, units_add hle hlt shift⟩

/-! ### Numbers of a narrow format -/

/-- Every magnitude stands for a number of units with few significant bits. -/
theorem exists_units_eq (m : Nat) : ∃ n k, n < 2 * f.implicitBit ∧ f.units m = n * 2 ^ k := by
  rcases Nat.lt_or_ge m f.implicitBit with hlt | hge
  · exact ⟨m, 0, by omega, by rw [units_of_lt hlt, pow_zero, Nat.mul_one]⟩
  · obtain ⟨shift, significand, hle, hlt, rfl⟩ := exists_significand hge
    exact ⟨significand, shift, hlt, units_add hle hlt shift⟩

theorem units_lt_of_lt_infinity {m : Nat} (h : m < f.infinity) :
    f.units m < 2 ^ (f.fractionBits + (Nat.pow 2 f.exponentBits - 2)) := by
  rcases Nat.lt_or_ge m f.implicitBit with hlt | hge
  · rw [units_of_lt hlt]
    exact hlt.trans_le (Nat.pow_le_pow_right Nat.two_pos (Nat.le_add_right ..))
  · obtain ⟨shift, significand, hle, hlt, rfl⟩ := exists_significand hge
    have hshift : shift + 1 < Nat.pow 2 f.exponentBits - 1 := by
      refine Nat.lt_of_mul_lt_mul_right (a := f.implicitBit) ?_
      calc (shift + 1) * f.implicitBit = shift * f.implicitBit + f.implicitBit := by ring
        _ ≤ shift * f.implicitBit + significand := Nat.add_le_add_left hle _
        _ < (Nat.pow 2 f.exponentBits - 1) * f.implicitBit := h
    rw [units_add hle hlt]
    calc significand * Nat.pow 2 shift < 2 * f.implicitBit * 2 ^ shift :=
          Nat.mul_lt_mul_of_pos_right hlt (Nat.two_pow_pos _)
      _ = 2 ^ (f.fractionBits + (shift + 1)) := by
          rw [implicitBit, Nat.pow_eq]
          ring
      _ ≤ _ := Nat.pow_le_pow_right Nat.two_pos (by omega)

/-- All numbers of `f` are numbers of `g`: its significands are as long, its unit is as small, and
its exponents go as far. -/
structure Embeds (f g : Format) : Prop where
  exponentBits_pos : 2 ≤ Nat.pow 2 f.exponentBits
  fractionBits_le : f.fractionBits ≤ g.fractionBits
  exponentBits_le : Nat.pow 2 f.exponentBits ≤ Nat.pow 2 g.exponentBits
  scale_le : f.scale ≤ g.scale
  range_le : f.fractionBits + (Nat.pow 2 f.exponentBits - 2) + (g.scale - f.scale)
    ≤ g.fractionBits + (Nat.pow 2 g.exponentBits - 2)

theorem embeds_binary16 : binary16.Embeds binary64 := by constructor <;> decide

theorem embeds_binary32 : binary32.Embeds binary64 := by constructor <;> decide

/-- The units of `f` in units of `g`. -/
theorem Embeds.one_eq (h : f.Embeds g) : g.one = 2 ^ (g.scale - f.scale) * f.one := by
  rw [one, one, Nat.pow_eq, Nat.pow_eq, ← pow_add, Nat.sub_add_cancel h.scale_le]

/-- A finite magnitude of `f` is widened to a finite one that stands for as much. -/
theorem Embeds.units_ofQuotient (h : f.Embeds g) {m : Nat} (hm : m < f.infinity) :
    g.ofQuotient (f.units m) f.one < g.infinity ∧
      g.units (g.ofQuotient (f.units m) f.one) = f.units m * 2 ^ (g.scale - f.scale) := by
  obtain ⟨n, k, hn, hunits⟩ := exists_units_eq (f := f) m
  have hwiden : g.ofQuotient (f.units m) f.one
      = g.nearest (f.units m * 2 ^ (g.scale - f.scale)) 1 := by
    rw [ofQuotient, h.one_eq, ← Nat.mul_assoc, nearest_mul _ one_pos]
  have hscaled : f.units m * 2 ^ (g.scale - f.scale) = n * 2 ^ (k + (g.scale - f.scale)) := by
    rw [hunits, Nat.mul_assoc, ← pow_add]
  have hlength : n < 2 * g.implicitBit :=
    hn.trans_le (Nat.mul_le_mul_left 2 (Nat.pow_le_pow_right Nat.two_pos h.fractionBits_le))
  have hrange : n * 2 ^ (k + (g.scale - f.scale))
      < 2 ^ (g.fractionBits + (Nat.pow 2 g.exponentBits - 2)) := by
    rw [← hscaled]
    calc f.units m * 2 ^ (g.scale - f.scale)
        < 2 ^ (f.fractionBits + (Nat.pow 2 f.exponentBits - 2)) * 2 ^ (g.scale - f.scale) :=
          Nat.mul_lt_mul_of_pos_right (units_lt_of_lt_infinity hm) (Nat.two_pow_pos _)
      _ = 2 ^ (f.fractionBits + (Nat.pow 2 f.exponentBits - 2) + (g.scale - f.scale)) :=
          (pow_add ..).symm
      _ ≤ _ := Nat.pow_le_pow_right Nat.two_pos h.range_le
  rw [hwiden, hscaled]
  exact units_nearest hlength (h.exponentBits_pos.trans h.exponentBits_le) hrange

/-- What was widened is narrowed to itself again. -/
theorem Embeds.ofQuotient_units (h : f.Embeds g) {m : Nat} (hm : m < f.infinity) :
    g.ofQuotient (f.units m) f.one < g.infinity ∧
      f.ofQuotient (g.units (g.ofQuotient (f.units m) f.one)) g.one = m := by
  obtain ⟨hfinite, hexact⟩ := h.units_ofQuotient hm
  refine ⟨hfinite, ?_⟩
  rw [hexact, ofQuotient, Nat.mul_assoc, ← h.one_eq, nearest_mul _ one_pos]
  exact nearest_units hm.le

/-! ### Patterns -/

theorem infinity_add_implicitBit (f : Format) : f.infinity + f.implicitBit = f.signBit := by
  have hpos : 1 ≤ Nat.pow 2 f.exponentBits := Nat.two_pow_pos _
  calc f.infinity + f.implicitBit = (Nat.pow 2 f.exponentBits - 1 + 1) * f.implicitBit := by
        rw [infinity, Nat.add_mul, Nat.one_mul]
    _ = Nat.pow 2 f.exponentBits * f.implicitBit := by rw [Nat.sub_add_cancel hpos]
    _ = f.signBit := (pow_add ..).symm

theorem infinity_lt_signBit (f : Format) : f.infinity < f.signBit := by
  have := f.infinity_add_implicitBit
  have := implicitBit_pos (f := f)
  omega

theorem two_mul_quietBit (hf : 0 < f.fractionBits) : 2 * f.quietBit = f.implicitBit := by
  rw [quietBit, implicitBit, Nat.pow_eq, Nat.pow_eq, ← pow_succ', Nat.sub_add_cancel hf]

/-- The payload of a NaN is not zero, and does not reach beyond the fraction field. -/
theorem quietPayload_bounds (hg : 0 < g.fractionBits) (m : Nat) :
    0 < f.quietPayload g m ∧ f.quietPayload g m < g.implicitBit := by
  have hpos : 0 < g.quietBit := Nat.two_pow_pos _
  have hdouble := two_mul_quietBit hg
  have hmod := Nat.mod_lt (m % f.implicitBit * g.implicitBit / f.implicitBit) hpos
  simp only [quietPayload]
  omega

theorem convert_of_lt {bits : Nat} (h : f.magnitude bits < f.infinity) :
    f.convert g bits
      = g.pattern (f.isNegative bits) (g.ofQuotient (f.units (f.magnitude bits)) f.one) := by
  rw [convert]
  simp only [if_pos h]

theorem convert_of_eq {bits : Nat} (h : f.magnitude bits = f.infinity) :
    f.convert g bits = g.pattern (f.isNegative bits) g.infinity := by
  rw [convert]
  simp only [h, Nat.lt_irrefl, if_false, if_true]

theorem convert_of_gt {bits : Nat} (h : f.infinity < f.magnitude bits) :
    f.convert g bits = g.pattern (f.isNegative bits)
      (g.infinity + f.quietPayload g (f.magnitude bits)) := by
  rw [convert]
  simp only [if_neg (Nat.lt_asymm h), if_neg h.ne']

/-- The magnitude to which a pattern is converted. -/
theorem exists_convert (hg : 0 < g.fractionBits) (bits : Nat) :
    ∃ m, f.convert g bits = g.pattern (f.isNegative bits) m ∧ m < g.signBit ∧
      (g.infinity < m ↔ f.infinity < f.magnitude bits) := by
  have hsign := g.infinity_lt_signBit
  rw [convert]
  split_ifs with hfinite hinfinite
  · have hle : g.ofQuotient (f.units (f.magnitude bits)) f.one ≤ g.infinity := Nat.min_le_right ..
    exact ⟨_, rfl, by omega, by omega⟩
  · exact ⟨_, rfl, hsign, by omega⟩
  · have hpayload := quietPayload_bounds (f := f) hg (f.magnitude bits)
    have htotal := g.infinity_add_implicitBit
    exact ⟨_, rfl, by omega, by omega⟩

theorem convert_lt (hg : 0 < g.fractionBits) (bits : Nat) : f.convert g bits < 2 * g.signBit := by
  obtain ⟨m, heq, hm, -⟩ := exists_convert (f := f) hg bits
  rw [heq, pattern]
  split <;> omega

/-- A NaN is converted to a NaN, and nothing else is. -/
theorem infinity_lt_magnitude_convert (hg : 0 < g.fractionBits) (bits : Nat) :
    g.infinity < g.magnitude (f.convert g bits) ↔ f.infinity < f.magnitude bits := by
  obtain ⟨m, heq, hm, hnan⟩ := exists_convert (f := f) hg bits
  rw [heq, magnitude_pattern _ hm, hnan]

/-- Widening loses nothing: what is not a NaN comes back as it was. -/
theorem convert_convert (h : f.Embeds g) {bits : Nat} (hbits : bits < 2 * f.signBit)
    (hnan : f.magnitude bits ≤ f.infinity) : g.convert f (f.convert g bits) = bits := by
  have hsign := g.infinity_lt_signBit
  rcases Nat.lt_or_eq_of_le hnan with hfinite | hinfinite
  · obtain ⟨hwide, hback⟩ := h.ofQuotient_units hfinite
    have hmagnitude := magnitude_pattern (f.isNegative bits) (hwide.trans hsign)
    rw [convert_of_lt hfinite, convert_of_lt (by rwa [hmagnitude]), hmagnitude, hback,
      isNegative_pattern _ (hwide.trans hsign)]
    exact pattern_isNegative_magnitude hbits
  · have hmagnitude := magnitude_pattern (f.isNegative bits) hsign
    rw [convert_of_eq hinfinite, convert_of_eq hmagnitude, isNegative_pattern _ hsign, ← hinfinite]
    exact pattern_isNegative_magnitude hbits

/-! ### Payloads -/

/-- Pattern of a NaN with its quiet bit set. -/
def quieted (f : Format) (bits : Nat) : Nat :=
  if bits % f.implicitBit < f.quietBit then bits + f.quietBit else bits

theorem implicitBit_dvd_infinity (f : Format) : f.implicitBit ∣ f.infinity := Dvd.intro_left _ rfl

theorem implicitBit_dvd_signBit (f : Format) : f.implicitBit ∣ f.signBit :=
  Nat.pow_dvd_pow 2 (Nat.le_add_left ..)

/-- Setting the quiet bit keeps the sign and all other bits of the fraction. -/
theorem quieted_eq (hf : 0 < f.fractionBits) {bits : Nat} (hbits : bits < 2 * f.signBit)
    (hnan : f.infinity < f.magnitude bits) :
    f.quieted bits = f.pattern (f.isNegative bits)
      (f.infinity + (f.quietBit + f.magnitude bits % f.quietBit)) := by
  have hdouble := two_mul_quietBit hf
  have hsign := f.infinity_add_implicitBit
  have hlt : f.magnitude bits < f.signBit := Nat.mod_lt bits (by omega)
  obtain ⟨fraction, hfraction⟩ := Nat.exists_eq_add_of_le hnan.le
  have hquiet : f.magnitude bits % f.quietBit = fraction % f.quietBit := by
    rw [hfraction, Nat.add_mod, Nat.mod_eq_zero_of_dvd
      (Nat.dvd_trans (Dvd.intro_left 2 hdouble) f.implicitBit_dvd_infinity), Nat.zero_add,
      Nat.mod_mod]
  have hlow : bits % f.implicitBit = fraction := by
    rw [← Nat.mod_mod_of_dvd bits f.implicitBit_dvd_signBit, ← magnitude, hfraction, Nat.add_mod,
      Nat.mod_eq_zero_of_dvd f.implicitBit_dvd_infinity, Nat.zero_add, Nat.mod_mod,
      Nat.mod_eq_of_lt (by omega)]
  have hpattern := pattern_isNegative_magnitude hbits
  rw [hfraction, pattern] at hpattern
  rw [quieted, hlow, hquiet, pattern]
  split
  case isTrue hsmall =>
    rw [Nat.mod_eq_of_lt hsmall]
    omega
  case isFalse hlarge =>
    rw [Nat.mod_eq_sub_mod (by omega), Nat.mod_eq_of_lt (by omega)]
    omega

/-- A payload that is widened and narrowed again loses its quiet bit only, which is then set. -/
theorem quietPayload_quietPayload (hf : 0 < f.fractionBits)
    (hle : f.fractionBits ≤ g.fractionBits) (m : Nat) :
    g.quietPayload f (g.infinity + f.quietPayload g m) = f.quietBit + m % f.quietBit := by
  obtain ⟨places, hplaces⟩ := Nat.exists_eq_add_of_le hle
  have hpos : 0 < 2 ^ places := Nat.two_pow_pos places
  have himplicit : g.implicitBit = f.implicitBit * 2 ^ places := by
    rw [implicitBit, implicitBit, hplaces]
    exact pow_add 2 _ _
  have hquiet : g.quietBit = f.quietBit * 2 ^ places := by
    rw [quietBit, quietBit, hplaces, Nat.sub_add_comm hf]
    exact pow_add 2 _ _
  have hdvd : f.quietBit ∣ f.implicitBit := Dvd.intro_left 2 (two_mul_quietBit hf)
  have hwide : f.quietPayload g m = (f.quietBit + m % f.quietBit) * 2 ^ places := by
    simp only [quietPayload]
    rw [himplicit, hquiet, Nat.mul_left_comm, Nat.mul_div_cancel_left _ implicitBit_pos,
      Nat.mul_mod_mul_right, Nat.mod_mod_of_dvd _ hdvd, Nat.add_mul]
  have hfraction : (g.infinity + f.quietPayload g m) % g.implicitBit = f.quietPayload g m := by
    rw [Nat.add_mod, Nat.mod_eq_zero_of_dvd g.implicitBit_dvd_infinity, Nat.zero_add, Nat.mod_mod,
      Nat.mod_eq_of_lt (quietPayload_bounds (by omega) m).2]
  have haligned : f.quietPayload g m * f.implicitBit / g.implicitBit
      = f.quietBit + m % f.quietBit := by
    rw [hwide, himplicit, Nat.mul_right_comm, Nat.mul_assoc, Nat.mul_div_cancel]
    exact Nat.mul_pos implicitBit_pos hpos
  rw [quietPayload, hfraction, haligned, Nat.add_mod_left, Nat.mod_mod]

/-- A NaN comes back with its quiet bit set, and is otherwise the one it was. -/
theorem convert_convert_of_infinity_lt (hf : 0 < f.fractionBits)
    (hle : f.fractionBits ≤ g.fractionBits) {bits : Nat} (hbits : bits < 2 * f.signBit)
    (hnan : f.infinity < f.magnitude bits) : g.convert f (f.convert g bits) = f.quieted bits := by
  have hpayload := quietPayload_bounds (f := f) (g := g) (by omega) (f.magnitude bits)
  have htotal := g.infinity_add_implicitBit
  have hwide : g.infinity + f.quietPayload g (f.magnitude bits) < g.signBit := by omega
  have hmagnitude := magnitude_pattern (f.isNegative bits) hwide
  rw [convert_of_gt hnan, convert_of_gt (by rw [hmagnitude]; omega), hmagnitude,
    isNegative_pattern _ hwide, quietPayload_quietPayload hf hle, quieted_eq hf hbits hnan]

end Format

end ArrayEngine.Binary
