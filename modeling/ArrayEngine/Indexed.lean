import ArrayEngine.Store.Step
import ArrayEngine.View.Typed

/-!
# Access by index

What an object model asks of anything that has indexed elements: to write at an index and say
whether the write took effect, to remove an index and say whether it is gone, and how long it is.
An array's elements can always be removed; a view keeps its lanes.
-/

namespace ArrayEngine

namespace Store

/-- Writes at an index, which takes effect wherever it does not fail. -/
def writeIndex (index : Nat) (value : Value) : Edit Store Bool := do
  assign index value
  return true

/-- The store without the element at an index, which is then gone. -/
def removeIndex (s : Store) (index : Nat) : Bool × Store := (true, s.remove index)

end Store

namespace View

/-- Writes at an index, which takes effect in the view only. -/
def writeIndex (view : View) (index : Nat) (value : Value) : Edit Memory Bool := do
  view.set index value
  return decide (index < view.length)

/-- Whether the view has a lane at an index. -/
def hasIndex (view : View) (index : Nat) : Bool := index < view.length

/-- Whether an index is gone after it was removed: the lanes of a view stay. -/
def removeIndex (view : View) (index : Nat) : Bool := !view.hasIndex index

/-- Length of the view as the length of an array. -/
def indexLength (view : View) : Nat := min view.length maxLength

end View

end ArrayEngine
