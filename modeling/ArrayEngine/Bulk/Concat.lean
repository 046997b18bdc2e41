import ArrayEngine.Bulk.Window

/-!
# Concatenation

The elements of an array followed by those of further arrays and by single values. The generic
form copies what is seen of each array; its result has the kind of every operand that contributes
an element, as the block copy of continuous operands has.
-/

namespace ArrayEngine.Store

/-- Appends an operand to a result of which `length` positions are taken. -/
def appendOperand (host : Host) (length : Nat) (operand : Operand) : Edit Store Nat := do
  checkLength (length + operand.length)
  match operand with
  | .array source =>
    modify (·.widenTo source.operandKind)
    copyVisible source host 0 source.length length
  | .value element => assign length element
  return length + operand.length

/-- Makes an empty store what is seen of all operands, one after another. -/
def copyOperands (operands : List Operand) (host : Host) : Edit Store Unit := do
  let length ← operands.foldlM (appendOperand host) 0
  assignLength .plain length

/-- The elements of a store and of all operands as they are seen, as one new store. -/
def genericConcat (s : Store) (operands : List Operand) (host : Host) : Except EngineError Store :=
  build s.config (copyOperands (.array s :: operands) host)

/-- The elements of a store and of all operands, as one new store. -/
def concat (s : Store) (operands : List Operand) (host : Host) : Except EngineError Store :=
  match s.fastConcat operands host with
  | some result => .ok result
  | none => s.genericConcat operands host

end ArrayEngine.Store
