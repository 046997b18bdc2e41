import ArrayEngine.Edit
import ArrayEngine.Store.Length

/-!
# Steps on a store

The single steps of which the index-by-index algorithms on arrays are made. Each step looks
elements up through the store's holes into what the array inherits.
-/

namespace ArrayEngine.Store

/-- Writes `value` at `index`, which must not be the one that no element can have. -/
def assign (index : Nat) (value : Value) : Edit Store Unit := fun s =>
  if index = maxLength then (.error .invalidIndex, s) else (.ok (), s.put index value)

/-- Removes the element at `index`, if there is one and the host lets it go. -/
def discard (host : Host) (index : Nat) : Edit Store Unit := fun s =>
  if s.has index && !host.deletable index then (.error (.pinned index), s)
  else (.ok (), s.remove index)

/-- Makes element `target` what is seen at `source`: a copy, or a hole where nothing is seen. -/
def transfer (host : Host) (source target : Nat) : Edit Store Unit := do
  match (← get).visible host source with
  | some value => assign target value
  | none => discard host target

/-- Makes `length` the length. -/
def assignLength (host : Host) (length : Nat) : Edit Store Unit := fun s =>
  match s.setLength length host with
  | (none, s) => (.ok (), s)
  | (some truncation, s) => (.error (.stopped truncation), s)

/-- Makes what `value` denotes the length. -/
def assignLengthValue (host : Host) (value : Value) : Edit Store Unit :=
  (lengthOf? value).elim (throw .invalidLength) (assignLength host)

/-- Writes values one after another from `start` on. -/
def assignAll (start : Nat) (values : List Value) : Edit Store Unit :=
  (values.zipIdx start).forM fun (value, index) => assign index value

/-- A length, which must not be too great. -/
def checkLength (length : Nat) : Edit Store Unit :=
  if length ≤ maxLength then pure () else throw .invalidLength

end ArrayEngine.Store
