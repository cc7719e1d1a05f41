import CartGraph.Address
import CartGraph.Association
import CartGraph.Behaviour
import CartGraph.Catalogue.Basic
import CartGraph.Catalogue.Palette
import CartGraph.Catalogue.Search
import CartGraph.Command.Options
import CartGraph.Command.Run
import CartGraph.Definition
import CartGraph.Document.Check
import CartGraph.Document.Compile
import CartGraph.Document.Fault
import CartGraph.Emit.Compilation
import CartGraph.Emit.Expression
import CartGraph.Emit.Input
import CartGraph.Emit.Progress
import CartGraph.Emit.Statement
import CartGraph.Emit.Walk
import CartGraph.Error
import CartGraph.Event.Parameter
import CartGraph.Event.Signature
import CartGraph.File.Path
import CartGraph.File.Tree
import CartGraph.Graph.Basic
import CartGraph.Graph.Edit
import CartGraph.Graph.Pins
import CartGraph.Graph.Saved
import CartGraph.Graph.Wiring
import CartGraph.Library.Console
import CartGraph.Library.Control
import CartGraph.Library.Data
import CartGraph.Library.Standard
import CartGraph.Lua.Call
import CartGraph.Lua.FreshName
import CartGraph.Lua.Identifier
import CartGraph.Lua.Limits
import CartGraph.Lua.Literal
import CartGraph.Lua.Numeral
import CartGraph.Lua.Operator
import CartGraph.Lua.Quote
import CartGraph.Main
import CartGraph.Node
import CartGraph.Number.Binary64
import CartGraph.Number.Reading
import CartGraph.Number.Shortest
import CartGraph.Order
import CartGraph.Pin
import CartGraph.Program
import CartGraph.Proofs.AllocatedNames
import CartGraph.Proofs.Catalogue.Distance
import CartGraph.Proofs.Catalogue.Search
import CartGraph.Proofs.Document.Accepted
import CartGraph.Proofs.Document.Order
import CartGraph.Proofs.Emit.BlockScope
import CartGraph.Proofs.Emit.Blocks
import CartGraph.Proofs.Emit.CallSites
import CartGraph.Proofs.Emit.Capture
import CartGraph.Proofs.Emit.Emitted
import CartGraph.Proofs.Emit.ExecCycles
import CartGraph.Proofs.Emit.Failures
import CartGraph.Proofs.Emit.Frames
import CartGraph.Proofs.Emit.LineBreaks
import CartGraph.Proofs.Emit.LocalScope
import CartGraph.Proofs.Emit.Locals
import CartGraph.Proofs.Emit.Mirror
import CartGraph.Proofs.Emit.Nesting
import CartGraph.Proofs.Emit.Opening
import CartGraph.Proofs.Emit.Order
import CartGraph.Proofs.Emit.Reads
import CartGraph.Proofs.Emit.Reports
import CartGraph.Proofs.Emit.Runs
import CartGraph.Proofs.Emit.Scope
import CartGraph.Proofs.Emit.Termination
import CartGraph.Proofs.Emit.Unfolding
import CartGraph.Proofs.Emit.ValueText
import CartGraph.Proofs.Emit.Visibility
import CartGraph.Proofs.Faults
import CartGraph.Proofs.GivenNames
import CartGraph.Proofs.Graph.ExecTree
import CartGraph.Proofs.Graph.Growth
import CartGraph.Proofs.Graph.Loaded
import CartGraph.Proofs.Graph.PinIds
import CartGraph.Proofs.Graph.Reading
import CartGraph.Proofs.Graph.Removal
import CartGraph.Proofs.Graph.Representation
import CartGraph.Proofs.Graph.RoundTrip
import CartGraph.Proofs.Graph.WellWired
import CartGraph.Proofs.Graph.Wire
import CartGraph.Proofs.Library
import CartGraph.Proofs.Lua.Arguments
import CartGraph.Proofs.Lua.Grammar
import CartGraph.Proofs.Lua.Limits
import CartGraph.Proofs.Lua.Lines
import CartGraph.Proofs.Lua.LiteralGrammar
import CartGraph.Proofs.Lua.Literals
import CartGraph.Proofs.Lua.Names
import CartGraph.Proofs.Lua.Numerals
import CartGraph.Proofs.Lua.OneLine
import CartGraph.Proofs.Lua.Reading
import CartGraph.Proofs.Lua.SafeNames
import CartGraph.Proofs.Lua.Strings
import CartGraph.Proofs.Number.Rounding
import CartGraph.Proofs.Number.ShortestText
import CartGraph.Proofs.Order
import CartGraph.Proofs.Placement
import CartGraph.Proofs.Program.CallArguments
import CartGraph.Proofs.Program.CallPins
import CartGraph.Proofs.Program.DeadNodes
import CartGraph.Proofs.Program.Entries
import CartGraph.Proofs.Program.Failures
import CartGraph.Proofs.Program.FrameRate
import CartGraph.Proofs.Program.Functions
import CartGraph.Proofs.Program.GlobalNames
import CartGraph.Proofs.Program.Limits
import CartGraph.Proofs.Program.Shape
import CartGraph.Proofs.Program.SharedEvents
import CartGraph.Proofs.Program.Sorting
import CartGraph.Proofs.Program.ValueCycles
import CartGraph.Proofs.SymbolTable
import CartGraph.Proofs.Table
import CartGraph.Proofs.Temporaries
import CartGraph.Property
import CartGraph.Room
import CartGraph.Service
import CartGraph.Settings
import CartGraph.SymbolTable
import CartGraph.Text.Blank
import CartGraph.Text.CodePoint
import CartGraph.Text.Digit
import CartGraph.Text.Lowercase
import CartGraph.Text.Printable
import CartGraph.Text.Quoted
import CartGraph.Text.Uppercase
import CartGraph.Value.Basic
import CartGraph.Value.Display
import CartGraph.Value.Entries
import CartGraph.Value.Json
import CartGraph.Value.Order
import CartGraph.Variable
