import ArrayEngine.Store.Continuous

/-!
# Single elements

Reading and writing one element through the packed slots where there is one, and through the
general operations of the store otherwise.
-/

namespace ArrayEngine.Store

/-- Element at an index, or else the inherited one. -/
def getIndex (s : Store) (host : Host) (index : Nat) : Option Value :=
  match s.fastGet index with
  | some value => some value
  | none => s.visible host index

/-- Writes an element. -/
def setIndex (index : Nat) (value : Value) : Edit Store Unit :=
  Edit.orElse (fun s => (s.fastSet index value).map fun s => ((), s)) (assign index value)

end ArrayEngine.Store
