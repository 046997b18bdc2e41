import ArrayEngine.Store.Continuous

/-!
# Reversing and sorting

Both operations keep the length. Reversing exchanges what is seen at opposite indices. Sorting
collects all that is seen, and writes it back in order from the front: first the sorted values,
then as many `undefined` as there were, then holes.
-/

namespace ArrayEngine.Store

/-- Makes element `index` the given value, or a hole. -/
def place (host : Host) (index : Nat) (value : Option Value) : Edit Store Unit :=
  match value with
  | some value => assign index value
  | none => discard host index

/-- Exchanges what is seen at two indices. -/
def exchange (host : Host) (lower upper : Nat) : Edit Store Unit := do
  let atLower := (← get).visible host lower
  let atUpper := (← get).visible host upper
  place host lower atUpper
  place host upper atLower

/-- Exchanges what is seen at indices equally far from the two ends of any store. -/
def genericReverse (host : Host) : Edit Store Unit := do
  let length := (← get).length
  (List.range (length / 2)).forM fun lower => exchange host lower (length - lower - 1)

/-- Reverses the order of the elements. -/
def reverse (host : Host) : Edit Store Unit :=
  Edit.orElse (fun s => (s.fastReverse host).map fun s => ((), s)) (genericReverse host)

/-- Everything that is seen below the length, in the order of indices. -/
def visibleValues (s : Store) (host : Host) : List Value :=
  (List.range s.length).filterMap (s.visible host)

/-- Values in the order of a comparison, equal ones in the order they had, and all `undefined`
behind them.

By a total preorder there is one such order, whichever way it is come to
(`Store.SortedBy.unique`). By any other comparison there may be several or none, and a sort is free
to take any order or to fail; this one takes the order that merging comes to. -/
def sortedValues (order : Value → Value → Ordering) (values : List Value) : List Value :=
  (values.filter (!·.isUndefined)).mergeSort (fun v w => order v w != .gt)
    ++ values.filter (·.isUndefined)

/-- Sorts all that is seen by a comparison. -/
def sort (host : Host) (order : Value → Value → Ordering) : Edit Store Unit := do
  let length := (← get).length
  let sorted := sortedValues order ((← get).visibleValues host)
  assignAll 0 sorted
  (List.range' sorted.length (length - sorted.length)).reverse.forM (discard host)

/-- Order of values by their numbers; values without a number count as equal to all. So this is a
total preorder only of values that have numbers: among `3`, a value without a number and `1`, the
second is equal to both others, which are not equal to each other. -/
def numericOrder (v w : Value) : Ordering := (v.toNumber.compare? w.toNumber).getD .eq

end ArrayEngine.Store
