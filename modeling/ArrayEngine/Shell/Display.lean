import ArrayEngine.CallSite.Basic
import ArrayEngine.Value.Text

/-!
# Output of the shell

Arrays are shown as lists in which holes are marked. An array longer than sixty-four is shown by
its length and its first elements with their indices.
-/

namespace ArrayEngine.Shell

/-- Greatest length that is shown as a list, and number of elements shown of a longer array. -/
def displayLimit : Nat := 64

/-- Values and holes as a list. -/
def displayList (elements : List (Option Value)) : String :=
  let parts := elements.map fun element =>
    match element with
    | some value => value.display
    | none => "<hole>"
  "[" ++ ", ".intercalate parts ++ "]"

/-- An element with its index. -/
def displayEntry (entry : Nat × Value) : String := s!"{entry.1}: {entry.2.display}"

/-- The elements of a store. -/
def displayStore (s : Store) : String :=
  if displayLimit < s.length then
    let shown := (s.entries.take displayLimit).map displayEntry
    s!"length {s.length} " ++ "\x7b" ++ ", ".intercalate shown ++ "\x7d"
  else displayList s.toList

/-- The kind of a store and how it is kept. -/
def displayKind (s : Store) : String :=
  s.kind.name ++
    if s.isDictionary then " (dictionary)" else if s.isSparse then " (holey)" else ""

/-- A value that may be absent. -/
def displayOrUndefined (value : Option Value) : String := (value.getD .undefined).display

/-- What a call site knows. -/
def displayState : SiteState → String
  | .uninitialized => "uninitialized"
  | .monomorphic guard => s!"monomorphic({guard.shape.name})"
  | .megamorphic => "megamorphic"

/-- A text filled up with spaces to a width. -/
def padded (width : Nat) (text : String) : String :=
  text ++ String.ofList (List.replicate (width - text.length) ' ')

/-- A call site and its history, under the name of its command. -/
def displaySite (command : String) (site : CallSite) : String :=
  padded 6 command ++ " " ++ padded 32 (displayState site.state)
    ++ s!" hits={site.hits} misses={site.misses} relinks={site.relinks}"

end ArrayEngine.Shell
