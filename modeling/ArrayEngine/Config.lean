/-!
# Tuning

The numbers that every store and call site of an engine is created with, and the rule by which
allocated room grows.
-/

namespace ArrayEngine

/-- Greatest machine word. -/
def maxWord : Nat := 0xffffffffffffffff

/-- Tuning of stores and call sites. -/
structure Config where
  /-- How far behind the recorded slots a packed store is written to before it becomes a
  dictionary. -/
  sparseGap : Nat := 1024
  /-- Least room that a packed store allocates. -/
  minCapacity : Nat := 4
  /-- Number of relinks after which a call site no longer speculates. -/
  maxRelinks : Nat := 8
deriving DecidableEq, Repr, Inhabited

/-- Doubles `capacity` until it reaches `needed`, at most `doublings` times, within a word. -/
def doubledCapacity : (doublings capacity needed : Nat) → Nat
  | 0, capacity, _ => capacity
  | doublings + 1, capacity, needed =>
    if needed ≤ capacity then capacity
    else doubledCapacity doublings (min (2 * capacity) maxWord) needed

/-- Room to reserve for `needed` elements: the room at hand, the least room and one, doubled as
often as it takes. From one on, sixty-four doublings reach every word. -/
def Config.grownCapacity (config : Config) (current needed : Nat) : Nat :=
  doubledCapacity 64 (max (max current config.minCapacity) 1) needed

end ArrayEngine
