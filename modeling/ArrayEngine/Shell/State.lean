import ArrayEngine.CallSite.Basic
import ArrayEngine.Shell.Error
import ArrayEngine.Shell.Token

/-!
# State of a shell

A shell owns one array with its host, a memory of buffers, a list of views, and a call site for
each command that has one. Buffers and views are known by handles, a name with a number: the
number is that of the buffer in the memory, or of the view in the list, so that a handle keeps its
meaning as both grow.
-/

namespace ArrayEngine.Shell

/-- The call sites of a shell, named for the commands that drive them. -/
structure Sites where
  push : CallSite
  pop : CallSite
  concat : CallSite
  get : CallSite
  set : CallSite
  vget : CallSite
  vset : CallSite
deriving DecidableEq, Repr

namespace Sites

/-- Sites without a history. -/
def fresh (config : Config) : Sites where
  push := .fresh .push config
  pop := .fresh .pop config
  concat := .fresh .concat config
  get := .fresh .get config
  set := .fresh .set config
  vget := .fresh .get config
  vset := .fresh .set config

/-- Every site with the command that drives it. -/
def toList (sites : Sites) : List (String × CallSite) :=
  [("push", sites.push), ("pop", sites.pop), ("concat", sites.concat), ("get", sites.get),
    ("set", sites.set), ("vget", sites.vget), ("vset", sites.vset)]

end Sites

/-- All that a shell knows. -/
structure State where
  config : Config
  array : Store
  host : Host
  memory : Memory
  views : Array View
  sites : Sites

namespace State

/-- A shell with an empty array. -/
def fresh (config : Config) : State where
  config
  array := .empty config
  host := .plain
  memory := .empty
  views := #[]
  sites := .fresh config

/-! ### Handles -/

/-- Number behind the name of a handle. -/
def handleNumber? (name word : List Char) : Option Nat :=
  if name.isPrefixOf word then Decimal.unsigned? 10 64 (word.drop name.length) else none

/-- First part of the name of every buffer. -/
def bufferPart : List Char := "buf".toList

/-- First part of the name of every view. -/
def viewPart : List Char := "v".toList

/-- Name of a buffer. -/
def bufferName (buffer : BufferId) : String := s!"buf{buffer}"

/-- Name of a view. -/
def viewName (number : Nat) : String := s!"v{number}"

/-- Buffer of a handle. -/
def findBuffer (state : State) (word : Token) : Except ShellError BufferId :=
  match (handleNumber? bufferPart word).filter (· < state.memory.buffers.size) with
  | some buffer => .ok buffer
  | none => .error (.unknownHandle .buffer word)

/-- View of a handle. -/
def findView (state : State) (word : Token) : Except ShellError View :=
  match (handleNumber? viewPart word).bind (state.views[·]?) with
  | some view => .ok view
  | none => .error (.unknownHandle .view word)

end State

end ArrayEngine.Shell
