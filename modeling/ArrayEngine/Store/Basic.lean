import ArrayEngine.Host
import ArrayEngine.Config
import ArrayEngine.Store.Elements
import Std.Data.ExtHashSet
import Std.Data.ExtTreeMap

/-!
# Element stores

A store holds the elements of one array together with its length. An index below the length whose
element is absent is a *hole*.

## Two layouts

A packed store has a slot for every index up to its last element. A slot between two elements may
be a recorded hole, in which case it keeps a filler; all indices from the slots' end up to the
length are holes too. The last slot is never a recorded hole, so that a packed store has one form
for its elements. A store that is written to far behind its slots becomes a dictionary, and a
dictionary without holes becomes packed again.

The layout decides how the elements are kept, never which they are: `get?` is the whole of what a
layout means.

A write to slots that do not exist would end the program. A store that gets there is stuck, and
nothing that is done to it afterwards helps.

## Main definitions

* `Layout`, `Store`
* `Store.get?`, `Store.entries`, `Store.toList`: the elements of a store
* `Store.isSparse`, `Store.isContinuous`: whether there are holes, and whether they would show
* `Store.put`, `Store.delete`, `Store.widenTo`: one element written, one removed, a wider kind
-/

namespace ArrayEngine

/-- Greatest length, and the one index below `2 ^ 32` that no element can have. -/
def maxLength : Nat := 0xffffffff

/-- Elements by index, in ascending order. -/
abbrev Dictionary := Std.ExtTreeMap Nat Value

/-- Slots that are holes. -/
abbrev HoleSet := Std.ExtHashSet Nat

-- The laws that membership in a hash set rests on, by name: the same wherever it is written.
instance equivBEqNat : EquivBEq Nat := inferInstance
instance lawfulHashableNat : LawfulHashable Nat := inferInstance

/-- How the elements of a store are kept. -/
inductive Layout where
  /-- Slots from index zero on, some of them holes. -/
  | packed (elements : Elements) (holes : HoleSet)
  /-- Elements by index, and the kind that their slots would have. -/
  | dictionary (elements : Dictionary) (kind : ElementKind)
  /-- Nothing, since a value was written to slots that do not exist. -/
  | stuck

/-- Drops the holes at the end of `size` slots: how many slots are left, and the holes among
them. -/
def dropTrailingHoles : (size : Nat) → (holes : HoleSet) → Nat × HoleSet
  | 0, holes => (0, holes)
  | last + 1, holes =>
    if last ∈ holes then dropTrailingHoles last (holes.erase last) else (last + 1, holes)

namespace Layout

/-- Slots without holes. -/
def full (elements : Elements) : Layout := packed elements ∅

/-- Slots with holes, of which those at the end are dropped. -/
def trimmed (elements : Elements) (holes : HoleSet) : Layout :=
  match dropTrailingHoles elements.size holes with
  | (size, holes) => packed (elements.truncate size) holes

/-- Slots as a write leaves them. -/
def written : (elements : Option Elements) → (holes : HoleSet) → Layout
  | some elements, holes => packed elements holes
  | none, _ => stuck

/-! ### Elements -/

/-- Kind of the elements. -/
def kind : Layout → ElementKind
  | packed elements _ => elements.kind
  | dictionary _ kind => kind
  | stuck => .empty

/-- Element at an index. -/
def get? (layout : Layout) (index : Nat) : Option Value :=
  match layout with
  | packed elements holes => if index ∈ holes then none else elements.get? index
  | dictionary elements _ => elements[index]?
  | stuck => none

/-- Whether there is an element at an index. -/
def has (layout : Layout) (index : Nat) : Bool :=
  match layout with
  | packed elements holes => index < elements.size && index ∉ holes
  | dictionary elements _ => elements.contains index
  | stuck => false

/-- Indices of the elements from `start` on, ascending. -/
def indicesFrom (layout : Layout) (start : Nat) : List Nat :=
  match layout with
  | packed elements holes =>
    (List.range' start (elements.size - start)).filter fun i => i ∉ holes
  | dictionary elements _ => elements.keys.filter fun i => start ≤ i
  | stuck => []

/-- Elements with their indices, ascending. -/
def entries (layout : Layout) : List (Nat × Value) :=
  match layout with
  | packed elements holes =>
    ((List.range elements.size).filter fun i => i ∉ holes).filterMap fun i =>
      (elements.get? i).map fun value => (i, value)
  | dictionary elements _ => elements.toList
  | stuck => []

/-! ### Changes -/

/-- All elements as a dictionary. -/
def toDictionary (layout : Layout) : Dictionary := .ofList layout.entries

/-- Slots with `value` written at `index`. Slots that are opened on the way are holes. -/
def putSlot (elements : Elements) (holes : HoleSet) (index : Nat) (value : Value) : Layout :=
  let size := elements.size
  if size < index then
    written (((elements.fit value).padTo index).put? index value)
      (holes.insertMany (List.range' size (index - size)))
  else if index = size then written ((elements.fit value).put? index value) holes
  else written ((elements.fit value).put? index value) (holes.erase index)

/-- Dictionary with `value` written at `index`. -/
def putEntry (elements : Dictionary) (kind : ElementKind) (index : Nat) (value : Value) :
    Layout :=
  dictionary (elements.insert index value) (kind.join (.of value))

/-- The layout with `value` written at `index`. A dictionary takes over when `index` lies more than
`gap` behind the slots' end. -/
def put (layout : Layout) (gap index : Nat) (value : Value) : Layout :=
  match layout with
  | packed elements holes =>
    if elements.size + gap < index then
      putEntry (packed elements holes).toDictionary elements.kind index value
    else putSlot elements holes index value
  | dictionary elements kind => putEntry elements kind index value
  | stuck => stuck

/-- The layout without the element at `index`, and whether there was one. -/
def delete (layout : Layout) (index : Nat) : Bool × Layout :=
  match layout with
  | packed elements holes =>
    if elements.size ≤ index || index ∈ holes then (false, packed elements holes)
    else if index + 1 = elements.size then (true, trimmed elements.pop holes)
    else (true, packed elements (holes.insert index))
  | dictionary elements kind =>
    (elements.contains index, dictionary (elements.erase index) kind)
  | stuck => (false, stuck)

/-- The layout without the elements from `length` on. -/
def cut (layout : Layout) (length : Nat) : Layout :=
  match layout with
  | packed elements holes =>
    trimmed (elements.truncate length) (holes.filter fun i => i < length)
  | dictionary elements kind => dictionary (elements.filter fun i _ => i < length) kind
  | stuck => stuck

/-- The layout with a kind that holds the elements of `kind`, too. -/
def widenTo (layout : Layout) (kind : ElementKind) : Layout :=
  match layout with
  | packed elements holes => packed (elements.widenTo kind) holes
  | dictionary elements kind' => dictionary elements (kind'.join kind)
  | stuck => stuck

/-- A dictionary without holes below `length` as slots. -/
def pack (layout : Layout) (length : Nat) : Layout :=
  match layout with
  | packed elements holes => packed elements holes
  | dictionary elements kind =>
    if elements.size = length then
      written (Elements.ofValues? kind (elements.toList.map Prod.snd)) ∅
    else dictionary elements kind
  | stuck => stuck

end Layout

/-- The elements of an array, and its length. -/
structure Store where
  config : Config
  length : Nat
  layout : Layout

namespace Store

/-! ### Construction -/

/-- The store of an array with `length` holes. -/
def holes (config : Config) (length : Nat) : Store where
  config
  length
  layout := .full .empty

/-- The store of an empty array. -/
def empty (config : Config) : Store := holes config 0

instance : Inhabited Store := ⟨empty {}⟩

/-- The store of an array with the given elements and no holes. -/
def ofValues (config : Config) (values : List Value) : Store where
  config
  length := values.length
  layout := .written (Elements.ofValues? (.ofAll values) values) ∅

/-! ### Elements -/

/-- Kind of the elements. -/
def kind (s : Store) : ElementKind := s.layout.kind

/-- Element at an index, `none` for a hole and from the length on. -/
def get? (s : Store) (index : Nat) : Option Value :=
  if index < s.length then s.layout.get? index else none

/-- Whether there is an element at an index. -/
def has (s : Store) (index : Nat) : Bool := s.layout.has index

/-- Elements with their indices, ascending. -/
def entries (s : Store) : List (Nat × Value) := s.layout.entries

/-- Everything below the length, holes as `none`. -/
def toList (s : Store) : List (Option Value) := (List.range s.length).map s.get?

/-- Element at an index, or else the inherited one. -/
def visible (s : Store) (host : Host) (index : Nat) : Option Value :=
  (s.get? index).or (host.inherited index)

/-! ### Classification -/

/-- Whether the elements are kept in a dictionary. -/
def isDictionary (s : Store) : Bool :=
  match s.layout with
  | .dictionary .. => true
  | _ => false

/-- Whether there is a hole below the length. -/
def isSparse (s : Store) : Bool :=
  match s.layout with
  | .packed elements holes => !holes.isEmpty || elements.size < s.length
  | .dictionary elements _ => elements.size < s.length
  | .stuck => true

/-- Whether the elements are packed without holes, and nothing is inherited below the length. Only
then may elements be moved as one block. -/
def isContinuous (s : Store) (host : Host) : Bool :=
  !s.isSparse && !s.isDictionary
    && (!host.indexed || (List.range s.length).all fun i => !host.shadows i)

/-- Whether the store is packed, without holes, and of exactly this kind. -/
def isPackedKind (s : Store) (kind : ElementKind) : Bool :=
  !s.isSparse && !s.isDictionary && s.kind == kind

/-- The kind that holds the elements of both stores. -/
def widest (s t : Store) : ElementKind := s.kind.join t.kind

/-! ### Writing and removing -/

/-- The store with `value` at `index`, longer if need be. -/
def put (s : Store) (index : Nat) (value : Value) : Store :=
  match s with
  | ⟨config, length, layout⟩ =>
    let length := max length (index + 1)
    ⟨config, length, (layout.put config.sparseGap index value).pack length⟩

/-- The store with a hole at `index`, and whether there was an element. -/
def delete (s : Store) (index : Nat) : Bool × Store :=
  match s with
  | ⟨config, length, layout⟩ =>
    match layout.delete index with
    | (removed, layout) => (removed, ⟨config, length, layout⟩)

/-- The store with a hole at `index`. -/
def remove (s : Store) (index : Nat) : Store := (s.delete index).2

/-- Room for elements up to an index, made ahead of need. The room at hand decides how much is
reserved next (`Config.grownCapacity`) and nothing else, so that it is no part of what a store is,
and the store stays as it is. A reservation that is not granted ends the program and leaves no store
at all. -/
def reserve (s : Store) (_index : Nat) : Store := s

/-- The store with a kind that holds the elements of `kind`, too. -/
def widenTo (s : Store) (kind : ElementKind) : Store :=
  { s with layout := s.layout.widenTo kind }

end Store

end ArrayEngine
