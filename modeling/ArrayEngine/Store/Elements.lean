import ArrayEngine.Store.Kind

/-!
# Packed elements

The slots of a packed store lie side by side and are all of one kind. A slot keeps no more than
its kind needs: 32 bits for an integer, a number for a number, and a value only where the kind is
`object`. Reading a slot makes a value of it again.

A value is written to slots that hold it: `fit` widens the slots first, copying every one of them.
Slots of kind `empty` do not exist, so nothing can be written to elements of that kind, and `put?`
has no answer there.

## Main definitions

* `Elements`, and `Elements.get?`: the value of a slot
* `Elements.widenTo`, `Elements.fit`: the same values in slots of a wider kind
* `Elements.put?`, `Elements.push?`: one slot written, one appended
* `Elements.rearrange`, and what is made of it: operations that move slots without reading them
-/

namespace ArrayEngine

open Binary (Double)

/-- Slots of one kind. -/
inductive Elements where
  | empty
  | int32 (slots : Array Int32)
  | float64 (slots : Array Double)
  | object (slots : Array Value)

/-- Overwrites the slot at `index`, or appends one if there is none. -/
def writeSlot {α : Type} (slots : Array α) (index : Nat) (slot : α) : Array α :=
  if index < slots.size then slots.setIfInBounds index slot else slots.push slot

namespace Elements

/-- Elements of a kind, without slots. -/
def ofKind : ElementKind → Elements
  | .empty => empty
  | .int32 => int32 #[]
  | .float64 => float64 #[]
  | .object => object #[]

/-- Kind of all slots. -/
def kind : Elements → ElementKind
  | empty => .empty
  | int32 _ => .int32
  | float64 _ => .float64
  | object _ => .object

/-- Number of slots. -/
def size : Elements → Nat
  | empty => 0
  | int32 slots => slots.size
  | float64 slots => slots.size
  | object slots => slots.size

/-! ### Slots and values -/

/-- Number that an integer slot stands for. -/
def numberOfInt32 (n : Int32) : Double := Double.ofInt n.toInt

/-- Value of an integer slot. -/
def valueOfInt32 (n : Int32) : Value := .number (numberOfInt32 n)

/-- What an integer slot keeps of a value: the nearest integer of its width. -/
def int32OfValue : Value → Int32
  | .number x => Int32.ofIntClamp x.toInt
  | _ => 0

/-- What a number slot keeps of a value. -/
def float64OfValue : Value → Double
  | .number x => x
  | _ => Double.nan

/-- Value of a slot. -/
def get? (elements : Elements) (index : Nat) : Option Value :=
  match elements with
  | empty => none
  | int32 slots => slots[index]?.map valueOfInt32
  | float64 slots => slots[index]?.map .number
  | object slots => slots[index]?

/-- Values of all slots. -/
def values : Elements → Array Value
  | empty => #[]
  | int32 slots => slots.map valueOfInt32
  | float64 slots => slots.map .number
  | object slots => slots

/-! ### Wider slots -/

/-- The same values in slots of `kind`, if that is the wider one. -/
def widenTo (elements : Elements) (kind : ElementKind) : Elements :=
  if kind ≤ elements.kind then elements
  else
    match elements, kind with
    | empty, kind => ofKind kind
    | int32 slots, .float64 => float64 (slots.map numberOfInt32)
    | int32 slots, _ => object (slots.map valueOfInt32)
    | float64 slots, _ => object (slots.map .number)
    | object slots, _ => object slots

/-- The same values in slots that hold `value`, too. -/
def fit (elements : Elements) (value : Value) : Elements := elements.widenTo (.of value)

/-! ### Writing -/

/-- Writes a value at an index up to the number of slots, which must hold it. -/
def put? (elements : Elements) (index : Nat) (value : Value) : Option Elements :=
  match elements with
  | empty => none
  | int32 slots => some (int32 (writeSlot slots index (int32OfValue value)))
  | float64 slots => some (float64 (writeSlot slots index (float64OfValue value)))
  | object slots => some (object (writeSlot slots index value))

/-- Appends a value, which the slots must hold. -/
def push? (elements : Elements) (value : Value) : Option Elements :=
  elements.put? elements.size value

/-- Elements of a kind that holds all of `values`. -/
def ofValues? (kind : ElementKind) (values : List Value) : Option Elements :=
  values.foldlM push? (ofKind kind)

/-- Appends all slots of `other`, whose kind must not be wider. -/
def append (elements other : Elements) : Elements :=
  match elements, other with
  | int32 slots, int32 slots' => int32 (slots ++ slots')
  | float64 slots, float64 slots' => float64 (slots ++ slots')
  | float64 slots, int32 slots' => float64 (slots ++ slots'.map numberOfInt32)
  | object slots, other => object (slots ++ other.values)
  | elements, _ => elements

/-! ### Moving slots -/

/-- Applies an operation on slots that does not read them. It gets a filler for what it opens. -/
def rearrange (f : {α : Type} → (filler : α) → Array α → Array α) : Elements → Elements
  | empty => empty
  | int32 slots => int32 (f 0 slots)
  | float64 slots => float64 (f Double.nan slots)
  | object slots => object (f .undefined slots)

/-- Appends fillers until there are `length` slots. -/
def padTo (elements : Elements) (length : Nat) : Elements :=
  elements.rearrange fun filler slots => slots ++ Array.replicate (length - slots.size) filler

/-- The first `length` slots. -/
def truncate (elements : Elements) (length : Nat) : Elements :=
  elements.rearrange fun _ slots => slots.shrink length

/-- All slots but the last. -/
def pop (elements : Elements) : Elements := elements.rearrange fun _ slots => slots.pop

/-- The slots from `start` up to `stop`. -/
def extract (elements : Elements) (start stop : Nat) : Elements :=
  elements.rearrange fun _ slots => slots.extract start stop

/-- All slots but those from `start` up to `stop`. -/
def drain (elements : Elements) (start stop : Nat) : Elements :=
  elements.rearrange fun _ slots => slots.take start ++ slots.drop stop

/-- Inserts `count` fillers before the slot at `index`. -/
def insertGap (elements : Elements) (index count : Nat) : Elements :=
  elements.rearrange fun filler slots =>
    slots.take index ++ Array.replicate count filler ++ slots.drop index

/-- The slots in reverse order. -/
def reverse (elements : Elements) : Elements := elements.rearrange fun _ slots => slots.reverse

end Elements

end ArrayEngine
