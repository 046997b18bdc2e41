import ArrayEngine.Store.Continuous

/-!
# Elements at the ends

Appending and removing at either end of an array. Each operation moves the elements of a
continuous store as one block; the generic form goes index by index on any store, where a hole
that is moved becomes a hole or, if something is inherited there, an element.
-/

namespace ArrayEngine.Store

/-! ### At the end -/

/-- Appends values one by one, and answers the new length. -/
def genericPush (values : List Value) (host : Host) : Edit Store Nat := do
  let length := (← get).length
  checkLength (length + values.length)
  assignAll length values
  assignLength host (length + values.length)
  return length + values.length

/-- Appends values, and answers the new length. -/
def push (values : List Value) (host : Host) : Edit Store Nat :=
  Edit.orElse (·.fastPush values host) (genericPush values host)

/-- Removes the last element of any store, and answers what was seen there. -/
def genericPop (host : Host) : Edit Store Value := do
  let length := (← get).length
  if length = 0 then return .undefined
  let last := (← get).visible host (length - 1)
  discard host (length - 1)
  assignLength host (length - 1)
  return last.getD .undefined

/-- Removes the last element, and answers it. -/
def pop (host : Host) : Edit Store Value :=
  Edit.orElse (·.fastPop host) (genericPop host)

/-! ### At the front -/

/-- Moves all elements of any store one index down, and answers what was seen at the first. -/
def genericShift (host : Host) : Edit Store Value := do
  let length := (← get).length
  if length = 0 then return .undefined
  let first := (← get).visible host 0
  (List.range (length - 1)).forM fun k => transfer host (k + 1) k
  discard host (length - 1)
  assignLength host (length - 1)
  return first.getD .undefined

/-- First element removed from a continuous store that has one. -/
def fastShift (s : Store) (host : Host) : Option (Value × Store) :=
  if s.length = 0 then none
  else (s.shiftLeft 1 host).map fun (removed, s) => ((removed.get? 0).getD .undefined, s)

/-- Removes the first element, and answers it. -/
def shift (host : Host) : Edit Store Value :=
  Edit.orElse (·.fastShift host) (genericShift host)

/-- Moves all elements of any store up and writes values before them, from the top down so that
nothing is overwritten before it has moved. Answers the new length. -/
def genericUnshift (values : List Value) (host : Host) : Edit Store Nat := do
  let length := (← get).length
  let count := values.length
  checkLength (length + count)
  if 0 < count then
    (List.range length).reverse.forM fun k => transfer host k (k + count)
    assignAll 0 values
  assignLength host (length + count)
  return length + count

/-- Writes values before all elements, and answers the new length. -/
def unshift (values : List Value) (host : Host) : Edit Store Nat := fun s =>
  match s.shiftRight values.length host with
  | some s => (do assignAll 0 values; return (← get).length : Edit Store Nat) s
  | none => genericUnshift values host s

end ArrayEngine.Store
