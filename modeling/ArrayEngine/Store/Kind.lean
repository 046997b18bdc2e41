import ArrayEngine.Value.Coercion

/-!
# Kinds of elements

A store is classified by what its elements need: nothing, 32-bit integers, numbers, or any values.
The kinds form a chain, each holding all that the one before it holds, and a store moves up the
chain only.
-/

namespace ArrayEngine

/-- What the elements of a store are, from the least to the most general. -/
inductive ElementKind where
  | empty
  | int32
  | float64
  | object
deriving DecidableEq, Repr, Inhabited

namespace ElementKind

/-- Every kind. -/
def all : List ElementKind := [empty, int32, float64, object]

/-- Name of a kind. -/
def name : ElementKind → String
  | empty => "Empty"
  | int32 => "Int32"
  | float64 => "Float64"
  | object => "Object"

/-- Place of a kind in the chain. -/
def rank : ElementKind → Nat
  | empty => 0
  | int32 => 1
  | float64 => 2
  | object => 3

instance : LE ElementKind := ⟨fun a b => a.rank ≤ b.rank⟩

instance (a b : ElementKind) : Decidable (a ≤ b) := inferInstanceAs (Decidable (a.rank ≤ b.rank))

/-- The more general of two kinds. -/
def join (a b : ElementKind) : ElementKind := if a ≤ b then b else a

/-- The least general kind that holds `value` exactly. -/
def of : Value → ElementKind
  | .number x => if x.exactInt32?.isSome then int32 else float64
  | _ => object

/-- Whether elements of the kind can be `value`. -/
def holds (kind : ElementKind) (value : Value) : Bool := of value ≤ kind

/-- The least general kind that holds all `values`. -/
def ofAll (values : List Value) : ElementKind :=
  values.foldl (fun kind value => kind.join (of value)) empty

end ElementKind

end ArrayEngine
