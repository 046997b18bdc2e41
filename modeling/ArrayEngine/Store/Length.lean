import ArrayEngine.Error
import ArrayEngine.Store.Basic

/-!
# Changing the length

A greater length appends holes. A smaller one removes elements from the top down, and stops above
the first one that the host does not let go; what was removed until then stays removed.

## Main definitions

* `Store.lastPinned?`: where a truncation stops
* `Store.truncate`, `Store.setLength`: the new store, and how a truncation stopped, if it did
* `lengthOf?`: the lengths among the values
-/

namespace ArrayEngine.Store

/-- Greatest index from `start` on whose element the host does not let go. -/
def lastPinned? (s : Store) (start : Nat) (host : Host) : Option Nat :=
  ((s.layout.indicesFrom start).filter fun i => !host.deletable i).getLast?

/-- The store without its elements from `length` on, and of that length. -/
def cut (s : Store) (length : Nat) : Store :=
  match s with
  | ⟨config, _, layout⟩ => ⟨config, length, (layout.cut length).pack length⟩

/-- Removes all elements from `length` on, as far as the host lets them go. -/
def truncate (s : Store) (length : Nat) (host : Host) : Option Truncation × Store :=
  if s.length ≤ length then (none, s)
  else
    match s.lastPinned? length host with
    | some index => (some ⟨length, index + 1⟩, s.cut (index + 1))
    | none => (none, s.cut length)

/-- Makes `length` the length, as far as the host lets elements go. -/
def setLength (s : Store) (length : Nat) (host : Host) : Option Truncation × Store :=
  if s.length ≤ length then (none, { s with length }) else s.truncate length host

/-- Length that a value denotes: its number, if that is whole and at most the greatest length. -/
def lengthOf? (value : Value) : Option Nat :=
  let number := value.toNumber
  let length := number.toUnsigned 32
  if (Binary.Double.ofNat length).numericEq number then some length else none

end ArrayEngine.Store
