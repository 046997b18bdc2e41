import ArrayEngine.Binary.Double
import ArrayEngine.Binary.Format
import ArrayEngine.Bounds
import ArrayEngine.Bulk.Access
import ArrayEngine.Bulk.Concat
import ArrayEngine.Bulk.Ends
import ArrayEngine.Bulk.Order
import ArrayEngine.Bulk.Window
import ArrayEngine.CallSite.Basic
import ArrayEngine.CallSite.Guard
import ArrayEngine.CommandLine
import ArrayEngine.Config
import ArrayEngine.Decimal.Notation
import ArrayEngine.Decimal.Numeral
import ArrayEngine.Decimal.Shortest
import ArrayEngine.Directory
import ArrayEngine.Edit
import ArrayEngine.Error
import ArrayEngine.Host
import ArrayEngine.Indexed
import ArrayEngine.Lane.Bytes
import ArrayEngine.Lane.Codec
import ArrayEngine.Lane.Kind
import ArrayEngine.Main
import ArrayEngine.Proofs.AssignedLength
import ArrayEngine.Proofs.Binary.Arithmetic
import ArrayEngine.Proofs.Binary.Coercion
import ArrayEngine.Proofs.Binary.Convert
import ArrayEngine.Proofs.Binary.Exact
import ArrayEngine.Proofs.Binary.Half
import ArrayEngine.Proofs.Binary.Integer
import ArrayEngine.Proofs.Binary.Nearest
import ArrayEngine.Proofs.Binary.Value
import ArrayEngine.Proofs.Bounds
import ArrayEngine.Proofs.Bulk.Agreement
import ArrayEngine.Proofs.Bulk.Concat
import ArrayEngine.Proofs.Bulk.Ends
import ArrayEngine.Proofs.Bulk.InStep
import ArrayEngine.Proofs.Bulk.Invariant
import ArrayEngine.Proofs.Bulk.Order
import ArrayEngine.Proofs.Bulk.Overflow
import ArrayEngine.Proofs.Bulk.Stepwise
import ArrayEngine.Proofs.Bulk.Trapping
import ArrayEngine.Proofs.Bulk.Window
import ArrayEngine.Proofs.Call
import ArrayEngine.Proofs.CallSite
import ArrayEngine.Proofs.CallSite.Bookkeeping
import ArrayEngine.Proofs.CallSite.InStep
import ArrayEngine.Proofs.Edit
import ArrayEngine.Proofs.Lane.Bytes
import ArrayEngine.Proofs.Lane.Codec
import ArrayEngine.Proofs.Lane.Half
import ArrayEngine.Proofs.Lane.Residue
import ArrayEngine.Proofs.Operation
import ArrayEngine.Proofs.Pinned
import ArrayEngine.Proofs.Position
import ArrayEngine.Proofs.Session
import ArrayEngine.Proofs.Shell.Comment
import ArrayEngine.Proofs.Shell.ListLiteral
import ArrayEngine.Proofs.Shell.OnePass
import ArrayEngine.Proofs.Shell.Reading
import ArrayEngine.Proofs.Shell.Rejection
import ArrayEngine.Proofs.Shell.Scanner
import ArrayEngine.Proofs.Shell.Script
import ArrayEngine.Proofs.Shell.Spelling
import ArrayEngine.Proofs.Shell.Splitting
import ArrayEngine.Proofs.SparseArray
import ArrayEngine.Proofs.Store.Alike
import ArrayEngine.Proofs.Store.Basic
import ArrayEngine.Proofs.Store.Continuous
import ArrayEngine.Proofs.Store.Dictionary
import ArrayEngine.Proofs.Store.Elements
import ArrayEngine.Proofs.Store.Equivalent
import ArrayEngine.Proofs.Store.Kind
import ArrayEngine.Proofs.Store.Layout
import ArrayEngine.Proofs.Store.Step
import ArrayEngine.Proofs.Store.Stepwise
import ArrayEngine.Proofs.Text.Blank
import ArrayEngine.Proofs.Text.Numeral
import ArrayEngine.Proofs.Text.Prefixed
import ArrayEngine.Proofs.Text.Utf16
import ArrayEngine.Proofs.Truncation
import ArrayEngine.Proofs.View.Alias
import ArrayEngine.Proofs.View.ByteLayout
import ArrayEngine.Proofs.View.Confined
import ArrayEngine.Proofs.View.Copy
import ArrayEngine.Proofs.View.Fill
import ArrayEngine.Proofs.View.Safe
import ArrayEngine.Proofs.View.Trapping
import ArrayEngine.Proofs.View.Values
import ArrayEngine.Proofs.View.Within
import ArrayEngine.Proofs.View.Write
import ArrayEngine.Proofs.View.WriteBack
import ArrayEngine.Proofs.Visible.Concat
import ArrayEngine.Proofs.Visible.Ends
import ArrayEngine.Proofs.Visible.Inverse
import ArrayEngine.Proofs.Visible.Moves
import ArrayEngine.Proofs.Visible.Slice
import ArrayEngine.Proofs.Visible.Sort
import ArrayEngine.Proofs.Visible.TextOrder
import ArrayEngine.Proofs.Visible.Window
import ArrayEngine.Shell.Command
import ArrayEngine.Shell.Display
import ArrayEngine.Shell.Error
import ArrayEngine.Shell.Literal
import ArrayEngine.Shell.Nesting
import ArrayEngine.Shell.Read
import ArrayEngine.Shell.Run
import ArrayEngine.Shell.State
import ArrayEngine.Shell.Statement
import ArrayEngine.Shell.Token
import ArrayEngine.Store.Basic
import ArrayEngine.Store.Continuous
import ArrayEngine.Store.Elements
import ArrayEngine.Store.Kind
import ArrayEngine.Store.Length
import ArrayEngine.Store.Step
import ArrayEngine.Text.Blank
import ArrayEngine.Text.Printable
import ArrayEngine.Text.Quoted
import ArrayEngine.Text.Utf16
import ArrayEngine.Value.Basic
import ArrayEngine.Value.Coercion
import ArrayEngine.Value.Text
import ArrayEngine.View.Copy
import ArrayEngine.View.Data
import ArrayEngine.View.Memory
import ArrayEngine.View.Typed
import ArrayEngine.Proofs.Bulk.Fill
import ArrayEngine.Proofs.View.Part
import ArrayEngine.Proofs.Bulk.DerivedKind
import ArrayEngine.Proofs.Capacity
import ArrayEngine.Proofs.Bulk.Access
import ArrayEngine.Proofs.Position.Computed
import ArrayEngine.Proofs.Shell.Handles
