import ArrayEngine.Bounds
import ArrayEngine.Store.Continuous

/-!
# Windows of an array

A window is a range of positions, given relative to the length. Slicing copies what is seen in
it, splicing replaces its elements, and filling overwrites them.
-/

namespace ArrayEngine.Store

/-! ### Copies of what is seen -/

/-- Writes what is seen of `source` at `index` to the index `target`. Where nothing is seen nothing
is written. -/
def copyElement (source : Store) (host : Host) (index target : Nat) : Edit Store Unit :=
  match source.visible host index with
  | some value => assign target value
  | none => pure ()

/-- Writes what is seen of `source` at the `count` indices from `start` on to the indices from
`target` on. -/
def copyVisible (source : Store) (host : Host) (start count target : Nat) : Edit Store Unit :=
  (List.range count).forM fun k => copyElement source host (start + k) (target + k)

/-- Makes an edit of an empty store the making of a new one. -/
def build (config : Config) (edit : Edit Store Unit) : Except EngineError Store :=
  match edit.perform (empty config) with
  | (.ok (), s) => .ok s
  | (.error e, _) => .error e

/-- Makes an empty store what is seen of `source` at the `count` indices from `start` on. -/
def copyPart (source : Store) (host : Host) (start count : Nat) : Edit Store Unit := do
  copyVisible source host start count 0
  assignLength .plain count

/-- What is seen at the `count` indices from `start` on, as a new store. -/
def visiblePart (s : Store) (host : Host) (start count : Nat) : Except EngineError Store :=
  build s.config (copyPart s host start count)

/-! ### Slices -/

/-- What is seen from `start` up to `stop`, as a new store. -/
def genericSlice (s : Store) (start stop : Nat) (host : Host) : Except EngineError Store :=
  s.visiblePart host start (stop - start)

/-- What is seen between two relative positions, as a new store. -/
def slice (s : Store) (start : Binary.Double) (stop : Option Binary.Double) (host : Host) :
    Except EngineError Store :=
  let first := adjustIndex start s.length
  let last := adjustEnd stop s.length
  match s.fastSlice first (max last first) host with
  | some part => .ok part
  | none => s.genericSlice first last host

/-! ### Splices -/

/-- Makes room for `inserted` elements where `count` were, from `start` on, in a store of length
`length`. Elements move down from the bottom up, and up from the top down, so that each is read
before it is overwritten. -/
def moveTail (host : Host) (length start count inserted : Nat) : Edit Store Unit := do
  let tail := List.range' start (length - count - start)
  if inserted < count then
    tail.forM fun k => transfer host (k + count) (k + inserted)
    (List.range' (length - count + inserted) (count - inserted)).reverse.forM (discard host)
  else if count < inserted then
    tail.reverse.forM fun k => transfer host (k + count) (k + inserted)

/-- Replaces the `count` elements from `start` on by values, and answers what was seen there as a
new store. Start and count are cut down to what the store has. -/
def genericSplice (start count : Nat) (values : List Value) (host : Host) : Edit Store Store := do
  let length := (← get).length
  let start := min start length
  let count := min count (length - start)
  let newLength := length - count + values.length
  checkLength newLength
  let removed ← MonadExcept.ofExcept ((← get).visiblePart host start count)
  moveTail host length start count values.length
  assignAll start values
  assignLength host newLength
  return removed

/-- Replaces a window by values, and answers its elements as a new store. -/
def splice (start count : Option Binary.Double) (values : List Value) (host : Host) :
    Edit Store Store := fun s =>
  let (start, count) := spliceBounds s.length start count
  match s.fastSplice start count values.length host with
  | some (removed, s) => (do assignAll start values; return removed : Edit Store Store) s
  | none => genericSplice start count values host s

/-! ### Filling -/

/-- Writes `value` at every index between two relative positions. -/
def fill (value : Value) (start : Binary.Double) (stop : Option Binary.Double) :
    Edit Store Unit := do
  let length := (← get).length
  let first := adjustIndex start length
  let last := adjustEnd stop length
  (List.range' first (last - first)).forM fun i => assign i value

end ArrayEngine.Store
