import ArrayEngine.Store.Continuous
import ArrayEngine.View.Data
import ArrayEngine.View.Typed

/-!
# Commands

A command is what a line asks for, with all its operands read: numbers and values are values, and
handles are the buffers and views that they stand for.
-/

namespace ArrayEngine.Shell

open Binary (Double)

/-- What is to be done. -/
inductive Command where
  | push (values : List Value)
  | pop
  | shift
  | unshift (values : List Value)
  | get (index : Nat)
  | set (index : Nat) (value : Value)
  | delete (index : Nat)
  | length
  | assignLength (value : Value)
  | kind
  | showArray
  | concat (operands : List Operand)
  | slice (start : Double) (stop : Option Double)
  | splice (start count : Option Double) (values : List Value)
  /-- Sorts by numbers, or else by texts. -/
  | sort (numeric : Bool)
  | reverse
  | fill (value : Value) (start : Double) (stop : Option Double)
  | inherit (index : Nat) (value : Value)
  | pin (index : Nat)
  | newBuffer (size : Nat)
  /-- A view of a new buffer. -/
  | newView (kind : LaneKind) (length : Nat)
  | viewOver (kind : LaneKind) (buffer : BufferId) (offset : Nat) (length : Option Nat)
  | subview (view : View) (start : Double) (stop : Option Double)
  | getLane (view : View) (index : Nat)
  | setLane (view : View) (index : Nat) (value : Value)
  | showView (view : View)
  | copyValues (view : View) (start : Nat) (values : List Value)
  | copyView (view : View) (start : Nat) (source : View)
  | getBytes (view : DataView) (kind : LaneKind) (position : Nat) (order : ByteOrder)
  | setBytes (view : DataView) (kind : LaneKind) (position : Nat) (value : Value)
      (order : ByteOrder)
  | sites
  | help

end ArrayEngine.Shell
