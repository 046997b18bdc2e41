import ArrayEngine.Error

/-!
# What a command line can do wrong

A line is rejected when it cannot be read as a command; what a command itself may fail with is
taken over from the engine. Only the latter can have changed anything.
-/

namespace ArrayEngine.Shell

/-- Why a line or one of its words cannot be read. -/
inductive ReadError where
  | unterminatedString (line : List Char)
  | unterminatedList (line : List Char)
  | notList (word : List Char)
  | nestedList
  | notValue (word : List Char)
  | notIndex (word : List Char)
  | notCount (word : List Char)
  | notLaneKind (word : List Char)
  | notByteOrder
deriving DecidableEq, Repr

/-- What is reported of a text that cannot be read. -/
def ReadError.message : ReadError → String
  | unterminatedString line => s!"unterminated string in `{String.ofList line}`"
  | unterminatedList line => s!"unterminated list in `{String.ofList line}`"
  | notList word => s!"expected a list, got `{String.ofList word}`"
  | nestedList => "nested lists are not supported"
  | notValue word => s!"not a value: `{String.ofList word}`"
  | notIndex word => s!"not an array index: `{String.ofList word}`"
  | notCount word => s!"not a non-negative integer: `{String.ofList word}`"
  | notLaneKind word => s!"unknown element type `{String.ofList word}`"
  | notByteOrder => "expected `le` or `be`"

/-- What a handle stands for. -/
inductive HandleKind where
  | buffer
  | view
deriving DecidableEq, Repr

/-- What a handle is called. -/
def HandleKind.name : HandleKind → String
  | buffer => "buffer"
  | view => "view"

/-- Command that can be given the wrong number of operands. -/
inductive Form where
  | get
  | set
  | delete
  | length
  | slice
  | sort
  | fill
  | inherit
  | pin
  | buffer
  | view
  | subview
  | vget
  | vset
  | vshow
  | vcopy
  | dvget
  | dvset
deriving DecidableEq, Repr

/-- The operands that a command takes. -/
def Form.text : Form → String
  | get => "get INDEX"
  | set => "set INDEX VALUE"
  | delete => "delete INDEX"
  | length => "length [N]"
  | slice => "slice START [END]"
  | sort => "sort [numeric]"
  | fill => "fill VALUE [START [END]]"
  | inherit => "inherit INDEX VALUE"
  | pin => "seal INDEX"
  | buffer => "buffer BYTE_LENGTH"
  | view => "view KIND (BUFFER [OFFSET [LENGTH]] | LENGTH)"
  | subview => "subview VIEW START [END]"
  | vget => "vget VIEW INDEX"
  | vset => "vset VIEW INDEX VALUE"
  | vshow => "vshow VIEW"
  | vcopy => "vcopy VIEW OFFSET (VIEW | [VALUES])"
  | dvget => "dvget BUFFER KIND OFFSET [le]"
  | dvset => "dvset BUFFER KIND OFFSET VALUE [le]"

/-- Why a line has no output. -/
inductive ShellError where
  /-- The command failed. -/
  | engine (cause : EngineError)
  /-- A word of the line cannot be read. -/
  | unreadable (cause : ReadError)
  | unknownCommand (name : List Char)
  | unknownHandle (kind : HandleKind) (name : List Char)
  /-- The command takes other operands. -/
  | usage (form : Form)
deriving DecidableEq, Repr

/-- What is reported of a line. -/
def ShellError.message : ShellError → String
  | engine cause => cause.message
  | unreadable cause => s!"parse error: {cause.message}"
  | unknownCommand name => s!"unknown command `{String.ofList name}` (try `help`)"
  | unknownHandle kind name => s!"no such {kind.name} `{String.ofList name}`"
  | usage form => s!"usage: {form.text}"

end ArrayEngine.Shell
