import ArrayEngine.Store.Step

/-!
# Continuous stores

Operations that move packed elements as one block. Each answers `none`, and changes nothing, where
it does not apply: on a store with holes, one through which something inherited shows, or one that
would grow too long.

`fastSplice` and its special cases open holes for what is to be inserted, and leave writing it to
the caller.
-/

namespace ArrayEngine

/-- What is appended in a concatenation: the elements of an array, or one value. -/
inductive Operand where
  | array (store : Store)
  | value (element : Value)

namespace Store

/-- Slots and holes of a continuous store. -/
def continuousParts? (s : Store) (host : Host) : Option (Elements × HoleSet) :=
  if s.isContinuous host then
    match s.layout with
    | .packed elements holes => some (elements, holes)
    | _ => none
  else none

/-- Appends values to a continuous store, and answers the new length. -/
def fastPush (s : Store) (values : List Value) (host : Host) : Option (Nat × Store) :=
  let length := s.length + values.length
  if maxLength < length then none
  else
    (s.continuousParts? host).map fun (elements, holes) =>
      let elements :=
        values.foldlM (fun elements value => (elements.fit value).push? value) elements
      (length, { s with length, layout := .written elements holes })

/-- Removes the last element of a continuous store, and answers it. -/
def fastPop (s : Store) (host : Host) : Option (Value × Store) := do
  if s.length = 0 then none
  else
    let (elements, holes) ← s.continuousParts? host
    let last ← elements.get? (elements.size - 1)
    return (last, { s with length := s.length - 1, layout := .packed elements.pop holes })

/-- Copies the elements from `start` up to `stop`. Without any the copy is of the least kind. -/
def fastSlice (s : Store) (start stop : Nat) (host : Host) : Option Store :=
  if stop < start || s.length < stop then none
  else
    (s.continuousParts? host).map fun (elements, _) =>
      let part := if start = stop then .empty else elements.extract start stop
      { config := s.config, length := stop - start, layout := .full part }

/-- Removes `count` elements from `start` on and opens `inserted` holes in their place. Answers
the removed elements as a store of the same kind. Holes behind the last element are not
recorded. -/
def fastSplice (s : Store) (start count inserted : Nat) (host : Host) : Option (Store × Store) :=
  let length := s.length - count + inserted
  if s.length < start || s.length - start < count || maxLength < length then none
  else
    (s.continuousParts? host).map fun (elements, holes) =>
      let removed := elements.extract start (start + count)
      let rest := elements.drain start (start + count)
      let layout :=
        if start < rest.size then
          .packed (rest.insertGap start inserted) (holes.insertMany (List.range' start inserted))
        else .packed rest holes
      ({ config := s.config, length := count, layout := .full removed }, { s with length, layout })

/-- Removes the first `n` elements, and answers them. -/
def shiftLeft (s : Store) (n : Nat) (host : Host) : Option (Store × Store) :=
  if s.length < n then none else s.fastSplice 0 n 0 host

/-- Opens `n` holes at the front. -/
def shiftRight (s : Store) (n : Nat) (host : Host) : Option Store :=
  (s.fastSplice 0 0 n host).map Prod.snd

/-- Reverses the order of the elements. -/
def fastReverse (s : Store) (host : Host) : Option Store :=
  (s.continuousParts? host).map fun (elements, holes) =>
    { s with layout := .packed elements.reverse holes }

/-- Kind that a store contributes to a concatenation: an emptied store none. -/
def operandKind (s : Store) : ElementKind := if s.length = 0 then .empty else s.kind

end Store

namespace Operand

/-- Whether the operand can be copied as one block. -/
def isContinuous (host : Host) : Operand → Bool
  | .array store => store.isContinuous host
  | .value _ => true

/-- Number of elements that the operand contributes. -/
def length : Operand → Nat
  | .array store => store.length
  | .value _ => 1

/-- Kind that the operand contributes. -/
def kind : Operand → ElementKind
  | .array store => store.operandKind
  | .value element => .of element

/-- The slots of a new store with those of the operand behind them. -/
def appendTo? (elements : Elements) : Operand → Option Elements
  | .array store =>
    match store.layout with
    | .packed elements' _ => some (elements.append elements')
    | _ => some elements
  | .value element => elements.push? element

end Operand

namespace Store

/-- The elements of a store and of all operands, as one new store. -/
def fastConcat (s : Store) (operands : List Operand) (host : Host) : Option Store :=
  let all := .array s :: operands
  let length := all.foldl (fun length operand => length + operand.length) 0
  if all.all (Operand.isContinuous host) && length ≤ maxLength then
    let kind := all.foldl (fun kind operand => kind.join operand.kind) .empty
    let elements := all.foldlM Operand.appendTo? (Elements.ofKind kind)
    some { config := s.config, length, layout := .written elements ∅ }
  else none

/-- Element of a packed slot. -/
def fastGet (s : Store) (index : Nat) : Option Value :=
  match s.layout with
  | .packed elements holes => if index ∈ holes then none else elements.get? index
  | _ => none

/-- Overwrites a packed slot that is no hole, or appends one right at the length. -/
def fastSet (s : Store) (index : Nat) (value : Value) : Option Store :=
  match s.layout with
  | .packed elements holes =>
    let appends := index = elements.size && index = s.length && index < maxLength
    if appends || (index < elements.size && index ∉ holes) then
      some { s with
        length := if appends then index + 1 else s.length
        layout := .written ((elements.fit value).put? index value) holes }
    else none
  | _ => none

end Store

end ArrayEngine
