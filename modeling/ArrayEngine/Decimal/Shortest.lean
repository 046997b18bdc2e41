import ArrayEngine.Binary.Double

/-!
# Shortest decimals

Among the decimals that read back as a given number, the shortest one is `digits * 10 ^ exponent`
with the largest exponent; of two on that grid the one nearer to the number is taken, and of two
equally near the even one.

The reals that read back as a number are those between the midpoints to its two neighbours, the
midpoints included exactly when the number's own significand is even. On each power of ten the
two grid points around the number are tried, from a grid that is coarser than the number down to
the first that has a point in the interval. Seventeen digits always suffice.

All comparisons are between natural numbers, in half units.
-/

namespace ArrayEngine.Decimal

open Binary

/-- The decimal number `digits * 10 ^ exponent`. -/
structure Scientific where
  digits : Nat
  exponent : Int
deriving DecidableEq, Repr

/-- The reals that read back as one number, in half units: from `low` to `high` around `value`. -/
structure Interval where
  low : Nat
  value : Nat
  high : Nat
  /-- Whether the ends belong to the interval. -/
  closed : Bool
deriving Repr

namespace Interval

/-- Interval around the number with a positive finite magnitude. -/
def ofMagnitude (magnitude : Nat) : Interval where
  low := binary64.units (magnitude - 1) + binary64.units magnitude
  value := 2 * binary64.units magnitude
  high := binary64.units magnitude + binary64.units (magnitude + 1)
  closed := magnitude % 2 == 0

/-- The interval with all its points multiplied by `k`. -/
def scaled (r : Interval) (k : Nat) : Interval :=
  { r with low := r.low * k, value := r.value * k, high := r.high * k }

/-- Whether the interval contains the point `p`. -/
def contains (r : Interval) (p : Nat) : Bool :=
  if r.closed then r.low ≤ p && p ≤ r.high else r.low < p && p < r.high

/-- The multiple of `step` to write for the interval, as a number of steps: the nearer of the two
around its value, if only one of them lies in the interval that one. -/
def hit? (r : Interval) (step : Nat) : Option Nat :=
  let below := r.value / step
  let toBelow := r.value - below * step
  let toAbove := (below + 1) * step - r.value
  match r.contains (below * step), r.contains ((below + 1) * step) with
  | false, false => none
  | true, false => some below
  | false, true => some (below + 1)
  | true, true =>
    if toBelow < toAbove || toBelow == toAbove && below % 2 == 0 then some below
    else some (below + 1)

/-- Number of half units in one. -/
def one : Nat := 2 * Double.one

/-- The decimal on the grid of multiples of `10 ^ exponent`. -/
def onGrid? (r : Interval) (exponent : Int) : Option Scientific :=
  let finer := Nat.pow 10 (-exponent).toNat
  let step := Nat.pow 10 exponent.toNat * one
  ((r.scaled finer).hit? step).map (⟨·, exponent⟩)

/-- First decimal found on the `grids` grids from `exponent` down. -/
def search (r : Interval) : (grids : Nat) → (exponent : Int) → Option Scientific
  | 0, _ => none
  | grids + 1, exponent =>
    match r.onGrid? exponent with
    | some d => some d
    | none => search r grids (exponent - 1)

/-- An exponent whose power of ten exceeds the interval's value: more than the binary logarithm
times `log 2`. -/
def coarseExponent (r : Interval) : Int :=
  ((r.value.log2 : Int) - one.log2 + 1) * 30103 / 100000 + 2

end Interval

/-- Shortest decimal of the number with a positive finite magnitude. -/
def shortest (magnitude : Nat) : Scientific :=
  let interval := Interval.ofMagnitude magnitude
  (interval.search 21 interval.coarseExponent).getD ⟨0, 0⟩

end ArrayEngine.Decimal
