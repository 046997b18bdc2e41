import ArrayEngine.Value.Basic

/-!
# The host of an array

What an array's storage has to know of the object around it: the elements that it inherits, which
show through its holes, and the elements of its own that may not be removed.
-/

namespace ArrayEngine

/-- The object around an array's elements. -/
structure Host where
  /-- Inherited element at an index. -/
  inherited : Nat → Option Value
  /-- Whether an element of the array's own may be removed. -/
  deletable : Nat → Bool
  /-- Whether anything is inherited at all; `false` saves asking index by index. -/
  indexed : Bool
  inherited_of_not_indexed : indexed = false → ∀ i, inherited i = none

namespace Host

/-- A host that inherits nothing and lets everything be removed. -/
def plain : Host where
  inherited _ := none
  deletable _ := true
  indexed := false
  inherited_of_not_indexed _ _ := rfl

instance : Inhabited Host := ⟨plain⟩

/-- The host with `value` inherited at `index`. -/
def inherit (host : Host) (index : Nat) (value : Value) : Host where
  inherited i := if i = index then some value else host.inherited i
  deletable := host.deletable
  indexed := true
  inherited_of_not_indexed h := nomatch h

/-- The host that no longer lets the element at `index` be removed. -/
def pin (host : Host) (index : Nat) : Host :=
  { host with deletable := fun i => i != index && host.deletable i }

/-- Whether an element is inherited at `index`. -/
def shadows (host : Host) (index : Nat) : Bool := (host.inherited index).isSome

end Host

end ArrayEngine
