import ArrayEngine.Bulk.Concat
import ArrayEngine.Bulk.Ends
import ArrayEngine.Proofs.View.Trapping

/-!
# Growing arrays on indices of 32 bits

Lengths and indices of an array have 32 bits, and the sums by which a new length is checked are
machine words. This file has the operations that make an array longer with each of these numbers
computed where it is used: a sum that does not fit, a difference that is negative and a number that
loses bits are `none`, and so is a write to the index that no element can have.

What moves elements is not written out again. A step here is its arithmetic, followed by the step
that it belongs to.

## Main definitions

* `Index.narrow?`, `Index.add?`: indices that trap
* `Store.TrapEdit`: edits of a store that may trap
* `Store.trapAssign`, `Store.trapAssignAll`, `Store.trapAssignLength`: steps
* `Store.trapPush`, `Store.trapUnshift`, `Store.trapSplice`, `Store.trapConcat` and their generic
  forms: the operations
-/

namespace ArrayEngine

open Binary (Double)

/-! ### Arithmetic -/

namespace Index

/-- A number as an index, if no bits are lost. -/
def narrow? (n : Nat) : Option Nat := if n ≤ maxLength then some n else none

/-- A sum of indices, if it is an index. -/
def add? (m n : Nat) : Option Nat := narrow? (m + n)

end Index

namespace Store

/-! ### Edits -/

/-- An edit of a store that may trap, and then has no outcome at all. -/
abbrev TrapEdit (α : Type) := ExceptT EngineError (StateT Store Option) α

namespace TrapEdit

variable {α : Type}

/-- Performs an edit. -/
def perform (edit : TrapEdit α) (s : Store) : Option (Except EngineError α × Store) :=
  edit.run.run s

/-- An edit that does not trap. -/
def lift (edit : Edit Store α) : TrapEdit α := fun s => some (edit.perform s)

/-- Performs a block operation where it applies, and otherwise an edit of the unchanged store. -/
def orElse (block : Store → Option (Option (α × Store))) (edit : TrapEdit α) : TrapEdit α := do
  match ← show Option _ from block (← get) with
  | some (a, s) => set s; return a
  | none => edit

end TrapEdit

/-! ### Steps -/

/-- Writes an element. The index that no element can have is the one without a successor. -/
def trapAssign (index : Nat) (value : Value) : TrapEdit Unit := do
  let _ ← Index.add? index 1
  .lift (assign index value)

/-- Writes values one after another from `start` on. -/
def trapAssignAll (start : Nat) (values : List Value) : TrapEdit Unit :=
  values.zipIdx.forM fun (value, k) => do
    trapAssign (← Index.add? start (← Index.narrow? k)) value

/-- Makes `length` the length. Where the host stops it, the length is one more than an index. -/
def trapAssignLength (host : Host) (length : Nat) : TrapEdit Unit := do
  if length < (← get).length then
    if let some index := (← get).lastPinned? length host then
      let _ ← Index.add? index 1
  .lift (assignLength host length)

/-- Makes element `target` what is seen at `source`. -/
def trapTransfer (host : Host) (source target : Nat) : TrapEdit Unit := do
  match (← get).visible host source with
  | some value => trapAssign target value
  | none => .lift (discard host target)

/-- Writes what is seen of `source` at `index` to the index `target`. -/
def trapCopyElement (source : Store) (host : Host) (index target : Nat) : TrapEdit Unit :=
  match source.visible host index with
  | some value => trapAssign target value
  | none => pure ()

/-- Writes what is seen of `source` at `count` indices to as many indices from `target` on. -/
def trapCopyVisible (source : Store) (host : Host) (start count target : Nat) : TrapEdit Unit :=
  (List.range count).forM fun k => do
    trapCopyElement source host (← Index.add? start k) (← Index.add? target k)

/-- Makes an edit of an empty store the making of a new one. -/
def trapBuild (config : Config) (edit : TrapEdit Unit) : Option (Except EngineError Store) := do
  match ← edit.perform (empty config) with
  | (.ok (), s) => return .ok s
  | (.error e, _) => return .error e

/-- What is seen at the `count` indices from `start` on, as a new store. -/
def trapVisiblePart (s : Store) (host : Host) (start count : Nat) :
    Option (Except EngineError Store) :=
  trapBuild s.config do
    trapCopyVisible s host start count 0
    trapAssignLength .plain count

/-! ### At the ends -/

/-- Appends values one by one, and answers the new length. -/
def trapGenericPush (values : List Value) (host : Host) : TrapEdit Nat := do
  let length := (← get).length
  let total ← Word.add? length values.length
  .lift (checkLength total)
  trapAssignAll length values
  trapAssignLength host total
  return total

/-- Appends values to a continuous store, and answers the new length. -/
def trapFastPush (s : Store) (values : List Value) (host : Host) :
    Option (Option (Nat × Store)) := do
  let total ← Word.add? s.length values.length
  if maxLength < total then return none
  let _ ← Index.narrow? total
  return s.fastPush values host

/-- Appends values, and answers the new length. -/
def trapPush (values : List Value) (host : Host) : TrapEdit Nat :=
  .orElse (trapFastPush · values host) (trapGenericPush values host)

/-- Moves all elements of any store up and writes values before them. The loop counts down to one,
and each index in it is one less than what is counted. -/
def trapGenericUnshift (values : List Value) (host : Host) : TrapEdit Nat := do
  let length := (← get).length
  let total ← Word.add? length values.length
  .lift (checkLength total)
  let count ← Word.sub? total length
  if 0 < count then
    (List.range' 1 length).reverse.forM fun k => do
      trapTransfer host (← Word.sub? k 1) (← Word.sub? (← Index.add? k count) 1)
    trapAssignAll 0 values
  trapAssignLength host total
  return total

/-- Removes `count` elements of a continuous store from `start` on, and opens holes in their place.
The number of holes has to be an index. -/
def trapFastSplice (s : Store) (start count inserted : Nat) (host : Host) :
    Option (Option (Store × Store)) := do
  if maxLength < inserted then return none
  if s.length < start then return none
  if (← Word.sub? s.length start) < count then return none
  let length ← Word.add? (← Word.sub? s.length count) inserted
  if maxLength < length then return none
  match s.continuousParts? host with
  | none => return none
  | some (elements, _) =>
    let stop ← Word.add? start count
    if start < (elements.drain start stop).size then
      let _ ← Index.add? start inserted
    let _ ← Index.narrow? length
    return s.fastSplice start count inserted host

/-- Writes values before all elements, and answers the new length. -/
def trapUnshift (values : List Value) (host : Host) : TrapEdit Nat := do
  match ← show Option _ from trapFastSplice (← get) 0 0 values.length host with
  | some (_, s) =>
    set s
    trapAssignAll 0 values
    return (← get).length
  | none => trapGenericUnshift values host

/-! ### Splices -/

/-- Makes room for `inserted` elements where `count` were. -/
def trapMoveTail (host : Host) (length start count inserted total : Nat) : TrapEdit Unit := do
  let move := fun k => do
    trapTransfer host (← Index.add? k count) (← Index.add? k inserted)
  let stop ← Word.sub? length count
  if inserted < count then
    (List.range' start (stop - start)).forM move
    (List.range' total (length - total)).reverse.forM fun k => .lift (discard host k)
  else if count < inserted then
    (List.range' start (stop - start)).reverse.forM move

/-- Replaces the `count` elements from `start` on by values, and answers what was seen there. -/
def trapGenericSplice (start count : Nat) (values : List Value) (host : Host) :
    TrapEdit Store := do
  let length := (← get).length
  let start := min start length
  let count := min count (← Word.sub? length start)
  let total ← Word.add? (← Word.sub? length count) values.length
  .lift (checkLength total)
  let inserted ← Index.narrow? values.length
  let removed ← MonadExcept.ofExcept (← trapVisiblePart (← get) host start count)
  trapMoveTail host length start count inserted total
  trapAssignAll start values
  trapAssignLength host total
  return removed

/-- Start of a splice and the number of elements that it removes. -/
def trapSpliceBounds (length : Nat) (start count : Option Double) : Option (Nat × Nat) := do
  let first ← Index.narrow? (start.elim 0 (adjustIndex · length))
  let available ← Word.sub? length first
  match start, count with
  | none, _ => return (first, 0)
  | some _, none => return (first, available)
  | some _, some count => return (first, min count.toInt.toNat available)

/-- Replaces a window by values, and answers its elements as a new store. -/
def trapSplice (start count : Option Double) (values : List Value) (host : Host) :
    TrapEdit Store := do
  let (first, n) ← trapSpliceBounds (← get).length start count
  match ← show Option _ from trapFastSplice (← get) first n values.length host with
  | some (removed, s) =>
    set s
    trapAssignAll first values
    return removed
  | none => trapGenericSplice first n values host

/-! ### Concatenation -/

/-- What is made of a store, as an edit that leaves it as it is. -/
def make (f : Store → Except EngineError Store) : Edit Store Store := do
  MonadExcept.ofExcept (f (← get))

/-- Appends an operand to a result of which `length` positions are taken. -/
def trapAppendOperand (host : Host) (length : Nat) (operand : Operand) : TrapEdit Nat := do
  let total ← Word.add? length operand.length
  .lift (checkLength total)
  match operand with
  | .array source =>
    .lift (modify (·.widenTo source.operandKind))
    trapCopyVisible source host 0 source.length (← Index.narrow? length)
  | .value element => trapAssign (← Index.narrow? length) element
  return total

/-- The elements of a store and of all operands as they are seen, as one new store. -/
def trapGenericConcat (operands : List Operand) (host : Host) : TrapEdit Store := do
  let s ← get
  MonadExcept.ofExcept <| ← trapBuild s.config do
    let length ← (Operand.array s :: operands).foldlM (trapAppendOperand host) 0
    trapAssignLength .plain (← Index.narrow? length)

/-- Length of all operands up to the first that is not continuous, if there is none. -/
def trapTotal? (host : Host) (total : Nat) : List Operand → Option (Option Nat)
  | [] => some (some total)
  | operand :: operands => do
    if !operand.isContinuous host then return none
    trapTotal? host (← Word.add? total operand.length) operands

/-- The elements of a continuous store and of continuous operands, as one new store. -/
def trapFastConcat (s : Store) (operands : List Operand) (host : Host) :
    Option (Option Store) := do
  match ← trapTotal? host 0 (.array s :: operands) with
  | none => return none
  | some total =>
    if maxLength < total then return none
    let _ ← Index.narrow? total
    return s.fastConcat operands host

/-- The elements of a store and of all operands, as one new store. -/
def trapConcat (operands : List Operand) (host : Host) : TrapEdit Store := do
  match ← show Option _ from trapFastConcat (← get) operands host with
  | some result => return result
  | none => trapGenericConcat operands host

end Store

end ArrayEngine
