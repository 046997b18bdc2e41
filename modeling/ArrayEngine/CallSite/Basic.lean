import ArrayEngine.Bulk.Concat
import ArrayEngine.Bulk.Ends
import ArrayEngine.CallSite.Guard

/-!
# Call sites

A call site of one operation remembers a guard. While the guard holds, calls take the specialised
path; when it does not, the site is linked anew to the receiver at hand and the call is completed
on the generic path. A site that was linked anew too often gives up and always takes the generic
path.

Speculation never changes an answer: `CallSite.speculate` runs the generic path whenever the
specialised one does not apply.
-/

namespace ArrayEngine

/-- What a call site knows. -/
inductive SiteState where
  /-- Nothing yet. -/
  | uninitialized
  /-- The guard of its next call. -/
  | monomorphic (guard : Guard)
  /-- That guards do not last here. -/
  | megamorphic
deriving DecidableEq, Repr

/-- A call site with its history. -/
structure CallSite where
  op : ArrayOp
  state : SiteState
  maxRelinks : Nat
  /-- Calls answered on the specialised path. -/
  hits : Nat
  /-- Calls answered on the generic path. -/
  misses : Nat
  /-- Guards that no longer held. -/
  relinks : Nat
deriving DecidableEq, Repr

namespace CallSite

/-- A site without a history. -/
def fresh (op : ArrayOp) (config : Config) : CallSite where
  op
  state := .uninitialized
  maxRelinks := config.maxRelinks
  hits := 0
  misses := 0
  relinks := 0

/-- Guard to speculate on, if any: the one at hand, or for a site that knows nothing the one
derived from its receiver. -/
def guard? (site : CallSite) (derived : Option Guard) : Option Guard :=
  match site.state with
  | .monomorphic guard => some guard
  | .megamorphic => none
  | .uninitialized => derived

/-- The site after a call on the specialised path. -/
def hit (site : CallSite) (guard : Guard) : CallSite :=
  { site with state := .monomorphic guard, hits := site.hits + 1 }

/-- The site after a call without a guard. -/
def miss (site : CallSite) : CallSite := { site with misses := site.misses + 1 }

/-- What a site knows after its guard failed for the `relinks`-th time. -/
def relinked (maxRelinks relinks : Nat) (derived : Option Guard) : SiteState :=
  if maxRelinks ≤ relinks then .megamorphic
  else
    match derived with
    | some guard => .monomorphic guard
    | none => .uninitialized

/-- The site after a call whose guard failed. -/
def relink (site : CallSite) (derived : Option Guard) : CallSite :=
  { site with
    state := relinked site.maxRelinks (site.relinks + 1) derived
    misses := site.misses + 1
    relinks := site.relinks + 1 }

/-- One call: the specialised path if there is a guard and it applies, or else the generic one.
`derived` is the guard of the receiver at hand. -/
def speculate {α : Type} (site : CallSite) (derived : Option Guard)
    (specialised : Guard → Option α) (generic : Unit → α) : α × CallSite :=
  match site.guard? derived with
  | none => (generic (), site.miss)
  | some guard =>
    match specialised guard with
    | some answer => (answer, site.hit guard)
    | none => (generic (), site.relink derived)

/-! ### Calls on stores -/

/-- Result of an edit of a store, and the store it leaves. -/
abbrev Outcome (σ α : Type) := Except EngineError α × σ

/-- Appends values. -/
def push (site : CallSite) (s : Store) (values : List Value) (host : Host) :
    Outcome Store Nat × CallSite :=
  site.speculate (Guard.ofStore? .push s host)
    (fun guard =>
      if guard.admits s host then
        (s.fastPush values host).map fun (length, s) => (.ok length, s)
      else none)
    (fun _ => (Store.genericPush values host).perform s)

/-- Removes the last element. -/
def pop (site : CallSite) (s : Store) (host : Host) : Outcome Store Value × CallSite :=
  site.speculate (Guard.ofStore? .pop s host)
    (fun guard =>
      if guard.admits s host then (s.fastPop host).map fun (value, s) => (.ok value, s)
      else none)
    (fun _ => (Store.genericPop host).perform s)

/-- Concatenates a store and operands. -/
def concat (site : CallSite) (s : Store) (operands : List Operand) (host : Host) :
    Except EngineError Store × CallSite :=
  site.speculate (Guard.ofConcat? s operands host)
    (fun guard =>
      if guard.admits s host && guard.admitsOperands operands host then
        (s.fastConcat operands host).map .ok
      else none)
    (fun _ => s.genericConcat operands host)

/-- Reads an element, or else the inherited one. -/
def getIndex (site : CallSite) (s : Store) (index : Nat) (host : Host) :
    Option Value × CallSite :=
  site.speculate (Guard.ofStore? .get s host)
    (fun guard =>
      if guard.admits s host && (!guard.inBounds || index < s.length) then
        (s.fastGet index).map some
      else none)
    (fun _ => s.visible host index)

/-- Writes an element. -/
def setIndex (site : CallSite) (s : Store) (index : Nat) (value : Value) (host : Host) :
    Outcome Store Unit × CallSite :=
  site.speculate (Guard.ofStore? .set s host)
    (fun guard =>
      if guard.admits s host && (!guard.inBounds || index ≤ s.length) then
        (s.fastSet index value).map fun s => (.ok (), s)
      else none)
    (fun _ => (Store.assign index value).perform s)

/-! ### Calls on views -/

/-- Reads a lane. -/
def getViewIndex (site : CallSite) (view : View) (memory : Memory) (index : Nat) :
    Option Value × CallSite :=
  site.speculate (some (.ofView view))
    (fun guard => if guard.admitsView view then (view.get? memory index).map some else none)
    (fun _ => view.get? memory index)

/-- Writes a lane. A value that does not convert is an answer like any other. -/
def setViewIndex (site : CallSite) (view : View) (memory : Memory) (index : Nat) (value : Value) :
    Outcome Memory Unit × CallSite :=
  site.speculate (some (.ofView view))
    (fun guard =>
      if guard.admitsView view && (!guard.inBounds || index < view.length) then
        some ((view.set index value).perform memory)
      else none)
    (fun _ => (view.set index value).perform memory)

end CallSite

end ArrayEngine
