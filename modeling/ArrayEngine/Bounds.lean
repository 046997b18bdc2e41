import ArrayEngine.Config
import ArrayEngine.Value.Coercion

/-!
# Relative positions

A position in something of a given length may be given by any number. It is truncated, counts from
the end if it is negative, and is clamped to the length; a NaN counts as zero and an infinity as
lying beyond either end.

The length takes part as a number. Up to `2 ^ 53` it is represented exactly; a greater length is
rounded first, and so is its sum with a negative position.
-/

namespace ArrayEngine

open Binary (Double)

/-- Position `x` in something of the given length. -/
def adjustIndex (x : Double) (length : Nat) : Nat :=
  let size := Double.ofNat length
  let position :=
    if x.toInt < 0 then max (Double.ofInt (size.toInt + x.toInt)).toInt 0
    else min x.toInt size.toInt
  min position.toNat maxWord

/-- End of a range in something of the given length: the position `x`, or the very end. -/
def adjustEnd (x : Option Double) (length : Nat) : Nat :=
  match x with
  | some x => adjustIndex x length
  | none => length

/-- Start of a splice and the number of elements that it removes. Nothing is removed without a
start; all that follows the start is removed without a count. -/
def spliceBounds (length : Nat) (start count : Option Double) : Nat × Nat :=
  match start, count with
  | none, _ => (0, 0)
  | some start, none =>
    let first := adjustIndex start length
    (first, length - first)
  | some start, some count =>
    let first := adjustIndex start length
    (first, min count.toInt.toNat (length - first))

end ArrayEngine
