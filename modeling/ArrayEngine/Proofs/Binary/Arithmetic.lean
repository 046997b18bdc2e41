import ArrayEngine.Proofs.Binary.Value

/-!
# Exact arithmetic of doubles

Sums, differences and remainders are computed exactly and rounded once. A result that is a number of
the format is not changed by the rounding. This is so for every remainder, for every number that is
cut off at a power of two, and for all integers below `2 ^ 53`.

`IsInt x n` says that a double is the integer `n`. Each operation has one lemma that says which
integer it yields, so that a computation with integers is followed without its rounding.

## Main definitions

* `Format.Representable`: numbers of units that need no rounding
* `Double.add`, `Double.sub`, `Double.rem`, `Double.floor`, `Double.saturated`
* `Double.lt`, `Double.le`
* `Double.IsInt`: a double is an integer

## Main results

* `Format.Representable.mod`: remainders are exact
* `Double.compare?_eq`: the order of doubles is that of their numbers
* `Double.IsInt.add`, `Double.IsInt.rem`, `Double.isInt_truncate`: computing with integers
* `Double.isInt_iff`: integers by the numbers that doubles stand for
-/

namespace ArrayEngine.Binary

namespace Format

variable {f : Format} {n : Nat}

/-! ### Numbers that need no rounding -/

/-- `n` units are a finite number of the format. -/
def Representable (f : Format) (n : Nat) : Prop := ∃ m < f.infinity, f.units m = n

theorem Representable.nearest (h : f.Representable n) :
    f.nearest n 1 < f.infinity ∧ f.units (f.nearest n 1) = n := by
  obtain ⟨m, hm, rfl⟩ := h
  rw [nearest_units hm.le]
  exact ⟨hm, rfl⟩

theorem Representable.exists_eq (h : f.Representable n) :
    ∃ m k, m < 2 * f.implicitBit ∧ n = m * 2 ^ k := by
  obtain ⟨m, -, rfl⟩ := h
  exact exists_units_eq m

/-- Below a number of the format only the length of the significand counts. -/
theorem Representable.of_le (h : f.Representable n) {m k : Nat} (hm : m < 2 * f.implicitBit)
    (hle : m * 2 ^ k ≤ n) : f.Representable (m * 2 ^ k) := by
  obtain ⟨top, htop, rfl⟩ := h
  have hexponent : 2 ≤ Nat.pow 2 f.exponentBits := by
    by_contra hlt
    have hzero : f.infinity = 0 := by
      rw [infinity, show Nat.pow 2 f.exponentBits - 1 = 0 by omega, Nat.zero_mul]
    omega
  have hrange := hle.trans_lt (units_lt_of_lt_infinity htop)
  obtain ⟨hfinite, hunits⟩ := units_nearest hm hexponent hrange
  exact ⟨_, hfinite, hunits⟩

/-- A remainder is exact: it has the last place of the one or of the other, and is not greater than
the one nor as great as the other. -/
theorem Representable.mod (h : f.Representable n) {d : Nat} (hd : f.Representable d)
    (hpos : 0 < d) : f.Representable (n % d) := by
  obtain ⟨p, i, hp, rfl⟩ := h.exists_eq
  obtain ⟨q, j, hq, rfl⟩ := hd.exists_eq
  have hle := Nat.mod_le (p * 2 ^ i) (q * 2 ^ j)
  -- The remainder has the lower of the two last places. At its own it is bounded by `p`, at the
  -- other by `q`.
  rcases Nat.le_total i j with hij | hij
  · obtain ⟨k, rfl⟩ := Nat.exists_eq_add_of_le hij
    have hmod : p * 2 ^ i % (q * 2 ^ (i + k)) = p % (q * 2 ^ k) * 2 ^ i := by
      rw [pow_add, Nat.mul_comm (2 ^ i), ← Nat.mul_assoc, Nat.mul_mod_mul_right]
    rw [hmod] at hle ⊢
    exact h.of_le ((Nat.mod_le ..).trans_lt hp) hle
  · obtain ⟨k, rfl⟩ := Nat.exists_eq_add_of_le hij
    have hmod : p * 2 ^ (j + k) % (q * 2 ^ j) = p * 2 ^ k % q * 2 ^ j := by
      rw [pow_add, Nat.mul_comm (2 ^ j), ← Nat.mul_assoc, Nat.mul_mod_mul_right]
    have hq₀ : 0 < q := Nat.pos_of_mul_pos_right hpos
    rw [hmod] at hle ⊢
    exact h.of_le ((Nat.mod_lt _ hq₀).trans hq) hle

/-- A number of the format that is cut off at a power of two is one. -/
theorem Representable.div_mul (h : f.Representable n) (k : Nat) :
    f.Representable (n / 2 ^ k * 2 ^ k) := by
  obtain ⟨p, i, hp, rfl⟩ := h.exists_eq
  rcases Nat.le_total k i with hki | hki
  · obtain ⟨j, rfl⟩ := Nat.exists_eq_add_of_le hki
    have hcut : p * 2 ^ (k + j) / 2 ^ k * 2 ^ k = p * 2 ^ (k + j) :=
      Nat.div_mul_cancel ⟨p * 2 ^ j, by ring⟩
    rwa [hcut]
  · have hle : p * 2 ^ i / 2 ^ k ≤ p := by
      refine Nat.div_le_of_le_mul ?_
      rw [Nat.mul_comm]
      exact Nat.mul_le_mul_right p (Nat.pow_le_pow_right Nat.two_pos hki)
    exact h.of_le (hle.trans_lt hp) (Nat.div_mul_le_self ..)

/-- Greater magnitudes stand for greater numbers. -/
theorem strictMono_units : StrictMono f.units := by
  refine strictMono_nat_of_lt_succ fun m => ?_
  -- The successor of a magnitude has the same exponent, or is the power of two that ends it.
  rcases Nat.lt_or_ge m f.implicitBit with hlt | hge
  · have hsucc : f.units (0 * f.implicitBit + (m + 1)) = (m + 1) * 2 ^ 0 :=
      units_shift_add (by omega) (.inl rfl)
    rw [Nat.zero_mul, Nat.zero_add, pow_zero, Nat.mul_one] at hsucc
    rw [hsucc, units_of_lt hlt]
    exact Nat.lt_succ_self m
  · obtain ⟨shift, significand, hle, hlt, rfl⟩ := exists_significand hge
    rw [units_add hle hlt, Nat.add_assoc, units_shift_add hlt (.inr (by omega))]
    exact Nat.mul_lt_mul_of_pos_right (Nat.lt_succ_self _) (Nat.two_pow_pos _)

end Format

namespace Double

variable {x y : Double} {m n : ℤ}

/-! ### Operations -/

/-- Number of units of a double, with its sign. -/
def signedUnits (x : Double) : ℤ := x.withSign x.units

/-- Double of the given sign nearest to a number of units. -/
def ofUnits (negative : Bool) (n : Nat) : Double := ofMagnitude negative (binary64.nearest n 1)

/-- The number with the other sign. -/
def neg (x : Double) : Double := ofMagnitude (!x.isNegative) x.magnitude

/-- Sum of two finite numbers. A zero is negative only as the sum of negative zeros. -/
def add (x y : Double) : Double :=
  let sum := x.signedUnits + y.signedUnits
  if sum = 0 then ofMagnitude (x.isNegative && y.isNegative) 0
  else ofUnits (decide (sum < 0)) sum.natAbs

/-- Difference of two finite numbers. -/
def sub (x y : Double) : Double := x.add y.neg

/-- Remainder of two finite numbers, the second not zero, that has the sign of the first. -/
def rem (x y : Double) : Double := ofUnits x.isNegative (x.units % y.units)

/-- The greatest integer that is not above a number. Infinities and NaNs stay. -/
def floor (x : Double) : Double :=
  if x.isFinite then
    ofQuotient x.isNegative
      (if x.isNegative then (x.units + (one - 1)) / one else x.units / one) 1
  else x

/-- A number as an unsigned integer of the given width: the nearest one to what is left of it
without a fractional part, and zero for a NaN. -/
def saturated (width : Nat) (x : Double) : Nat := min (2 ^ width - 1) x.toInt.toNat

/-- `x` is less than `y`. A NaN is not. -/
def lt (x y : Double) : Bool := x.compare? y == some .lt

/-- `x` is at most `y`. A NaN is not. -/
def le (x y : Double) : Bool := x.lt y || x.numericEq y

/-! ### The order of numbers -/

theorem units_eq_zero_iff : x.units = 0 ↔ x.magnitude = 0 := by
  have hinjective := Format.strictMono_units.injective.eq_iff (f := binary64.units)
    (a := x.magnitude) (b := 0)
  rwa [Format.units_zero] at hinjective

/-- The order of doubles is that of their numbers. -/
theorem rank_lt_rank_iff : x.rank < y.rank ↔ x.signedUnits < y.signedUnits := by
  have hlt (a b : Double) : a.units < b.units ↔ a.magnitude < b.magnitude :=
    Format.strictMono_units.lt_iff_lt
  have hx := units_eq_zero_iff (x := x)
  have hy := units_eq_zero_iff (x := y)
  have hxy := hlt x y
  have hyx := hlt y x
  rw [rank, rank, signedUnits, signedUnits, withSign, withSign, withSign, withSign]
  split <;> split <;> omega

theorem compare?_eq (hx : x.isNaN = false) (hy : y.isNaN = false) :
    x.compare? y = some (compare x.signedUnits y.signedUnits) := by
  rw [compare?, hx, hy]
  refine congrArg some ?_
  rcases lt_trichotomy x.rank y.rank with hlt | heq | hgt
  · rw [compare_lt_iff_lt.mpr hlt, compare_lt_iff_lt.mpr (rank_lt_rank_iff.mp hlt)]
  · have heq' : x.signedUnits = y.signedUnits := by
      refine le_antisymm (not_lt.mp fun h => ?_) (not_lt.mp fun h => ?_)
      · exact (rank_lt_rank_iff.mpr h).ne' heq
      · exact (rank_lt_rank_iff.mpr h).ne heq
    rw [compare_eq_iff_eq.mpr heq, compare_eq_iff_eq.mpr heq']
  · rw [compare_gt_iff_gt.mpr hgt, compare_gt_iff_gt.mpr (rank_lt_rank_iff.mp hgt)]

theorem lt_iff (hx : x.isNaN = false) (hy : y.isNaN = false) :
    x.lt y ↔ x.signedUnits < y.signedUnits := by
  rw [lt, compare?_eq hx hy, beq_iff_eq, Option.some_inj, compare_lt_iff_lt]

theorem numericEq_iff (hx : x.isNaN = false) (hy : y.isNaN = false) :
    x.numericEq y ↔ x.signedUnits = y.signedUnits := by
  rw [numericEq, compare?_eq hx hy, beq_iff_eq, Option.some_inj, compare_eq_iff_eq]

theorem le_iff (hx : x.isNaN = false) (hy : y.isNaN = false) :
    x.le y ↔ x.signedUnits ≤ y.signedUnits := by
  rw [le, Bool.or_eq_true, lt_iff hx hy, numericEq_iff hx hy, le_iff_lt_or_eq]

theorem isFinite_of_units_lt (h : x.units < binary64.units binary64.infinity) : x.isFinite :=
  decide_eq_true (Format.strictMono_units.lt_iff_lt.mp h)

/-! ### Exact results -/

theorem representable_units (hx : x.isFinite) : binary64.Representable x.units :=
  ⟨x.magnitude, of_decide_eq_true hx, rfl⟩

theorem representable_of_lt {k : Nat} (h : k < 2 ^ 53) : binary64.Representable (k * one) := by
  have hscale : binary64.fractionBits ≤ binary64.scale := by decide
  have hrange : binary64.scale + 2 < Nat.pow 2 binary64.exponentBits := by decide
  exact ⟨_, Format.ofQuotient_lt_infinity h hscale hrange,
    Format.units_ofQuotient h hscale hrange⟩

section OfUnits

variable {negative : Bool} {k : Nat}

theorem isNegative_ofUnits (h : binary64.Representable k) :
    (ofUnits negative k).isNegative = negative :=
  isNegative_ofMagnitude (h.nearest.1.trans infinity_lt_signBit)

theorem isFinite_ofUnits (h : binary64.Representable k) : (ofUnits negative k).isFinite := by
  rw [isFinite, ofUnits, magnitude_ofMagnitude (h.nearest.1.trans infinity_lt_signBit)]
  exact decide_eq_true h.nearest.1

theorem units_ofUnits (h : binary64.Representable k) : (ofUnits negative k).units = k := by
  rw [units, ofUnits, magnitude_ofMagnitude (h.nearest.1.trans infinity_lt_signBit)]
  exact h.nearest.2

theorem signedUnits_ofUnits (h : binary64.Representable k) :
    (ofUnits negative k).signedUnits = if negative then -(k : ℤ) else k := by
  rw [signedUnits, withSign, isNegative_ofUnits h, units_ofUnits h]

end OfUnits

/-- A sum that is a number of the format is exact. -/
theorem signedUnits_add (h : binary64.Representable (x.signedUnits + y.signedUnits).natAbs) :
    (x.add y).isFinite ∧ (x.add y).signedUnits = x.signedUnits + y.signedUnits := by
  simp only [add]
  generalize x.signedUnits + y.signedUnits = sum at h
  split
  · rename_i hzero
    rw [hzero]
    generalize (x.isNegative && y.isNegative) = negative
    cases negative <;> decide +kernel
  · refine ⟨isFinite_ofUnits h, ?_⟩
    rw [signedUnits_ofUnits h]
    rcases Int.lt_or_le sum 0 with hneg | hpos
    · rw [decide_eq_true hneg, if_pos rfl]
      omega
    · rw [decide_eq_false (by omega), if_neg Bool.false_ne_true]
      omega

theorem signedUnits_neg (x : Double) : x.neg.signedUnits = -x.signedUnits := by
  have hlt : x.magnitude < binary64.signBit := Nat.mod_lt _ (Nat.two_pow_pos 63)
  rw [signedUnits, signedUnits, withSign, withSign, units, units, neg, magnitude_ofMagnitude hlt,
    isNegative_ofMagnitude hlt]
  cases x.isNegative with
  | false => rfl
  | true => exact (neg_neg _).symm

/-! ### Integers -/

/-- `x` is the integer `n`. Of the zeros both are. -/
def IsInt (x : Double) (n : ℤ) : Prop := x.isFinite ∧ x.signedUnits = n * one

theorem isInt_ofUnits {negative : Bool} {k : Nat} (h : binary64.Representable (k * one))
    (hsign : n = if negative then -(k : ℤ) else k) : (ofUnits negative (k * one)).IsInt n := by
  refine ⟨isFinite_ofUnits h, ?_⟩
  rw [signedUnits_ofUnits h, hsign, Nat.cast_mul]
  split
  · rw [neg_mul]
  · rfl

theorem isInt_ofInt (h : n.natAbs < 2 ^ 53) : (ofInt n).IsInt n := by
  refine isInt_ofUnits (representable_of_lt h) ?_
  rcases Int.lt_or_le n 0 with hneg | hpos
  · rw [decide_eq_true hneg, if_pos rfl]
    omega
  · rw [decide_eq_false (by omega), if_neg Bool.false_ne_true]
    omega

theorem isInt_ofNat {k : Nat} (h : k < 2 ^ 53) : (ofNat k).IsInt k :=
  isInt_ofUnits (representable_of_lt h) rfl

/-- Truncation is exact. -/
theorem isInt_truncate (hx : x.isFinite) : x.truncate.IsInt x.toInt := by
  obtain ⟨scale, hone, -⟩ := exists_one_eq
  have hcut : binary64.Representable (x.units / one * one) := by
    rw [one, hone]
    exact (representable_units hx).div_mul scale
  rw [truncate, if_pos hx]
  exact isInt_ofUnits hcut (toInt_of_not_isNaN (not_isNaN_of_isFinite hx))

namespace IsInt

variable (hx : x.IsInt m) (hy : y.IsInt n)

include hx

theorem units_eq : x.units = m.natAbs * one := by
  have habs := congrArg Int.natAbs hx.2
  rwa [signedUnits, natAbs_withSign, Int.natAbs_mul, Int.natAbs_natCast] at habs

theorem withSign_natAbs : x.withSign m.natAbs = m := by
  have hone : (one : ℤ) ≠ 0 := Int.natCast_ne_zero.mpr one_pos.ne'
  refine mul_right_cancel₀ hone ?_
  rw [← hx.2, signedUnits, hx.units_eq, withSign, withSign, Nat.cast_mul]
  split
  · rw [neg_mul]
  · rfl

theorem toInt_eq : x.toInt = m := by
  rw [toInt_of_not_isNaN (not_isNaN_of_isFinite hx.1), hx.units_eq, Nat.mul_div_cancel _ one_pos,
    hx.withSign_natAbs]

theorem value_eq : x.value = m := by
  have hone : (one : ℚ) ≠ 0 := Nat.cast_ne_zero.mpr one_pos.ne'
  rw [Double.value_eq, hx.units_eq, Nat.cast_mul, mul_div_cancel_right₀ _ hone]
  conv_rhs => rw [← hx.withSign_natAbs, withSign]
  split
  · rw [neg_one_mul, Int.cast_neg, Int.cast_natCast]
  · rw [one_mul, Int.cast_natCast]

include hy

theorem add (h : (m + n).natAbs < 2 ^ 53) : (x.add y).IsInt (m + n) := by
  have hsum : x.signedUnits + y.signedUnits = (m + n) * one := by rw [hx.2, hy.2, Int.add_mul]
  have hexact : binary64.Representable (x.signedUnits + y.signedUnits).natAbs := by
    rw [hsum, Int.natAbs_mul, Int.natAbs_natCast]
    exact representable_of_lt h
  obtain ⟨hfinite, hsigned⟩ := signedUnits_add hexact
  exact ⟨hfinite, hsigned.trans hsum⟩

theorem rem (hne : n ≠ 0) : (x.rem y).IsInt (m.tmod n) := by
  have hpos : 0 < y.units := by
    rw [hy.units_eq]
    exact Nat.mul_pos (Int.natAbs_pos.mpr hne) one_pos
  have hunits : x.units % y.units = m.natAbs % n.natAbs * one := by
    rw [hx.units_eq, hy.units_eq, Nat.mul_mod_mul_right]
  have hexact := (representable_units hx.1).mod (representable_units hy.1) hpos
  rw [hunits] at hexact
  rw [Double.rem, hunits]
  have hmod : (m.natAbs : ℤ).tmod n = (m.natAbs % n.natAbs : ℕ) := by
    have hnonneg := Int.tmod_nonneg n (Int.natCast_nonneg m.natAbs)
    have habs := Int.natAbs_tmod m.natAbs n
    rw [Int.natAbs_natCast] at habs
    rw [← habs, Int.natAbs_of_nonneg hnonneg]
  refine isInt_ofUnits hexact ?_
  conv_lhs => rw [← hx.withSign_natAbs, withSign]
  split
  · rw [Int.neg_tmod, hmod]
  · exact hmod

theorem lt_iff : x.lt y ↔ m < n := by
  rw [Double.lt_iff (not_isNaN_of_isFinite hx.1) (not_isNaN_of_isFinite hy.1), hx.2, hy.2]
  exact mul_lt_mul_iff_of_pos_right (Int.natCast_pos.mpr one_pos)

theorem numericEq_iff : x.numericEq y ↔ m = n := by
  rw [Double.numericEq_iff (not_isNaN_of_isFinite hx.1) (not_isNaN_of_isFinite hy.1), hx.2, hy.2]
  exact mul_left_inj' (Int.natCast_pos.mpr one_pos).ne'

end IsInt

/-- The number of a double, counted in units. -/
theorem cast_signedUnits (x : Double) : (x.signedUnits : ℚ) = x.value * one := by
  have hone : (one : ℚ) ≠ 0 := Nat.cast_ne_zero.mpr one_pos.ne'
  rw [Double.value_eq, mul_assoc, div_mul_cancel₀ _ hone, signedUnits, withSign]
  split
  · rw [Int.cast_neg, Int.cast_natCast, neg_one_mul]
  · rw [Int.cast_natCast, one_mul]

/-- A finite double is an integer if its number is. -/
theorem isInt_iff : x.IsInt n ↔ x.isFinite ∧ x.value = n := by
  refine ⟨fun hx => ⟨hx.1, hx.value_eq⟩, fun ⟨hfinite, hvalue⟩ => ⟨hfinite, ?_⟩⟩
  have hunits := cast_signedUnits x
  rw [hvalue] at hunits
  exact_mod_cast hunits

/-- What equals an integer is that integer: no NaN and no infinity does. -/
theorem IsInt.of_numericEq (hx : x.IsInt n) (h : x.numericEq y) : y.IsInt n := by
  have hnan : y.isNaN = false := by
    by_contra hy
    rw [Bool.not_eq_false] at hy
    simp [numericEq, compare?, hy] at h
  have hsigned := (Double.numericEq_iff (not_isNaN_of_isFinite hx.1) hnan).mp h
  have hunits : x.units = y.units := by
    have habs := congrArg Int.natAbs hsigned
    rwa [signedUnits, signedUnits, natAbs_withSign, natAbs_withSign] at habs
  refine ⟨isFinite_of_units_lt ?_, hsigned ▸ hx.2⟩
  rw [← hunits]
  exact Format.strictMono_units (of_decide_eq_true hx.1)

theorem isInt_zero : zero.IsInt 0 := by
  constructor <;> decide +kernel

theorem IsInt.saturated_eq {n : ℤ} (hx : x.IsInt n) {width : Nat} (hnonneg : 0 ≤ n)
    (hlt : n < 2 ^ width) : x.saturated width = n.toNat := by
  have hpos := Nat.two_pow_pos width
  have hcast : ((2 ^ width : ℕ) : ℤ) = 2 ^ width := by push_cast; rfl
  rw [saturated, hx.toInt_eq]
  omega

theorem floor_of_not_isNegative (hx : x.isNegative = false) : x.floor = x.truncate := by
  rw [floor, truncate, hx]
  rfl

end Double

end ArrayEngine.Binary
