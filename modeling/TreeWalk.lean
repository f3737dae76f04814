import TreeWalk.Syntax.Basic
import TreeWalk.Syntax.Equality
import TreeWalk.Syntax.Source
import TreeWalk.Syntax.Origin
import TreeWalk.Text.Basic
import TreeWalk.Text.Blank
import TreeWalk.Text.Printable
import TreeWalk.Text.Combining
import TreeWalk.Text.Quoted
import TreeWalk.Text.Utf8
import TreeWalk.Value.Callable
import TreeWalk.Value.Basic
import TreeWalk.Value.Equality
import TreeWalk.Value.Render
import TreeWalk.Value.Operators
import TreeWalk.Scope.Bindings
import TreeWalk.Scope.Heap.Basic
import TreeWalk.Scope.Heap.Lemmas
import TreeWalk.Scope.Debug
import TreeWalk.Fault
import TreeWalk.Config
import TreeWalk.Sink
import TreeWalk.Interpreter
import TreeWalk.World
import TreeWalk.Run
import TreeWalk.Log.Event
import TreeWalk.Log.Setup
import TreeWalk.Builtin.Standard
import TreeWalk.Builtin.Host
import TreeWalk.Eval.Basic
import TreeWalk.Proofs.Syntax.Uses
import TreeWalk.Proofs.Value.Hereditary
import TreeWalk.Proofs.Eval.Equations
import TreeWalk.Proofs.Eval.InStep
import TreeWalk.Proofs.Eval.Lockstep
import TreeWalk.Proofs.Eval.Term
import TreeWalk.Proofs.Eval.HeapInvariant
import TreeWalk.Proofs.Scope.Frame
import TreeWalk.Proofs.Value.Part
import TreeWalk.Proofs.Scope.Bound
import TreeWalk.Proofs.Eval.Sentinel
import TreeWalk.Proofs.Scope.Reachable
import TreeWalk.Proofs.Scope.Nesting
import TreeWalk.Proofs.Scope.Noninterference
import TreeWalk.Proofs.Syntax.Literals
import TreeWalk.Proofs.Syntax.Operands
import TreeWalk.Proofs.Reference.Semantics
import TreeWalk.Proofs.Eval.Operands
import TreeWalk.Proofs.Eval.Eventually
import TreeWalk.Proofs.Reference.Encoding
import TreeWalk.Proofs.Reference.Sound
import TreeWalk.Proofs.Reference.Complete
import TreeWalk.Proofs.Reference.Adequacy
import TreeWalk.Proofs.Syntax.Free
import TreeWalk.Proofs.Value.Closures
import TreeWalk.Proofs.Eval.Alongside
import TreeWalk.Proofs.Eval.Reported
import TreeWalk.Proofs.Scope.WellScoped
import TreeWalk.Proofs.Sink.Writing
import TreeWalk.Proofs.Sink.Limit
import TreeWalk.Proofs.Eval.OutputPrefix
import TreeWalk.Proofs.Eval.Walk
import TreeWalk.Proofs.Eval.Watched
import TreeWalk.Proofs.Eval.Spans
import TreeWalk.Proofs.Eval.Ends
import TreeWalk.Proofs.Eval.FailStop
import TreeWalk.Proofs.Scope.Chain
import TreeWalk.Proofs.Value.Renaming
import TreeWalk.Proofs.Scope.Image
import TreeWalk.Proofs.Eval.Course
import TreeWalk.Proofs.Eval.Counting
import TreeWalk.Proofs.Scope.Existing
import TreeWalk.Proofs.Eval.Nested
import TreeWalk.Proofs.Eval.Correspondence
import TreeWalk.Proofs.Eval.ProgramBody
import TreeWalk.Proofs.Value.Styles
import TreeWalk.Proofs.Eval.Configuration
import TreeWalk.Proofs.Scope.Growth
import TreeWalk.Proofs.Eval.Sequence
import TreeWalk.Proofs.Scope.Session
import TreeWalk.Proofs.Eval.Isolation
import TreeWalk.Proofs.Syntax.Names
import TreeWalk.Proofs.Scope.Unmentioned
import TreeWalk.Proofs.Eval.FunctionFree
import TreeWalk.Proofs.Scope.Retained
import TreeWalk.Proofs.Eval.Stepping
import TreeWalk.Proofs.Eval.Depth
import TreeWalk.Proofs.Program.Fibonacci
import TreeWalk.Proofs.Program.Mapping
import TreeWalk.Proofs.Syntax.Reading
import TreeWalk.Proofs.Syntax.Unambiguous
import TreeWalk.Proofs.Syntax.Labels
import TreeWalk.Proofs.Value.Brackets
import TreeWalk.Proofs.Sink.Pieces
import TreeWalk.Proofs.Value.Identity
import TreeWalk.Proofs.Eval.Objects
import TreeWalk.Proofs.Eval.Interchange
import TreeWalk.Proofs.Eval.Arithmetic
import TreeWalk.Proofs.Scope.CallScope
import TreeWalk.Proofs.Eval.Arrays
import TreeWalk.Proofs.Text.Delimited
import TreeWalk.Proofs.Value.DebugText
import TreeWalk.Proofs.Fault.Message
import TreeWalk.Proofs.Text.Blank
import TreeWalk.Proofs.Config.Settings
import TreeWalk.Proofs.Text.ByteOrder
import TreeWalk.Proofs.Scope.History
import TreeWalk.Proofs.Scope.Listing
import TreeWalk.Proofs.Scope.Snapshot
