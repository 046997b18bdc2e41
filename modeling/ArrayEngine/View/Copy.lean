import ArrayEngine.View.Typed

/-!
# Copying and filling lanes

Copies between views behave as if all lanes were read before any is written, however the views
overlap. Between views of one kind the bytes themselves are copied; between others each value is
converted. A copy from a list of values writes all values before the first that does not convert.
-/

namespace ArrayEngine.View

/-- Copies `count` lanes of `source` from `sourceStart` on to the lanes from `start` on. -/
def copyView (view : View) (start : Nat) (source : View) (sourceStart count : Nat) :
    Edit Memory Unit := do
  if view.length < start + count then throw .targetExceeded
  if source.kind.isBigInt != view.kind.isBigInt then throw .mixedLanes
  if source.length < sourceStart + count then throw .sourceExceeded
  let memory ← get
  if source.kind = view.kind then
    let bytes := (memory.bytes source.buffer).window (source.laneOffset sourceStart)
      (count * view.kind.size)
    modify (·.modify view.buffer (·.write (view.laneOffset start) bytes))
  else
    view.setAll start ((List.range' sourceStart count).filterMap (source.get? memory))

/-- Copies `count` values from `sourceStart` on to the lanes from `start` on. -/
def copyValues (view : View) (start : Nat) (values : List Value) (sourceStart count : Nat) :
    Edit Memory Unit := do
  if view.length < start + count then throw .targetExceeded
  if values.length < sourceStart + count then throw .sourceExceeded
  view.setAll start ((values.drop sourceStart).take count)

/-- View of a new buffer with the given values. -/
def ofValues (kind : LaneKind) (values : List Value) : Edit Memory View := do
  let view ← zeroed kind values.length
  view.copyValues 0 values 0 values.length
  return view

/-- Writes a value to all lanes between two relative positions. -/
def fill (view : View) (value : Value) (start : Binary.Double) (stop : Option Binary.Double) :
    Edit Memory Unit := fun memory =>
  match view.kind.encode value with
  | .error e => (.error e, memory)
  | .ok bits =>
    let first := adjustIndex start view.length
    let last := adjustEnd stop view.length
    (.ok (), (List.range' first (last - first)).foldl
      (fun memory index => view.writeBits memory index bits) memory)

/-- Copies the lanes between two relative positions to those from `target` on, as far as there is
room. -/
def copyWithin (view : View) (target start : Binary.Double) (stop : Option Binary.Double)
    (memory : Memory) : Memory :=
  let destination := adjustIndex target view.length
  let first := adjustIndex start view.length
  let last := adjustEnd stop view.length
  let count := min (last - first) (view.length - destination)
  memory.modify view.buffer
    (·.copyWithin (view.laneOffset first) (view.laneOffset destination)
      (count * view.kind.size))

end ArrayEngine.View
