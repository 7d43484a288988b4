import SmallScheme.CommandLine.Options
import SmallScheme.CommandLine.Session
import SmallScheme.Datum.Basic
import SmallScheme.Datum.Diagnostic
import SmallScheme.Datum.Equality
import SmallScheme.Datum.Names
import SmallScheme.Datum.Pairs
import SmallScheme.Datum.Printer
import SmallScheme.Evaluator.Application
import SmallScheme.Evaluator.Builtins
import SmallScheme.Evaluator.Conditional
import SmallScheme.Evaluator.Context
import SmallScheme.Evaluator.Evaluate
import SmallScheme.Evaluator.Forms
import SmallScheme.Evaluator.Loading
import SmallScheme.Evaluator.Quotation
import SmallScheme.Evaluator.Sequence
import SmallScheme.Fault
import SmallScheme.Frames
import SmallScheme.Interpreter
import SmallScheme.Machine
import SmallScheme.Main
import SmallScheme.Number.Decimal
import SmallScheme.Number.Double
import SmallScheme.Number.Shortest
import SmallScheme.Number.Text
import SmallScheme.Proofs.CommandLine.Files
import SmallScheme.Proofs.CommandLine.Lines
import SmallScheme.Proofs.Comparison.Computation
import SmallScheme.Proofs.Comparison.Evaluator
import SmallScheme.Proofs.Comparison.Forms
import SmallScheme.Proofs.Comparison.Procedures
import SmallScheme.Proofs.Comparison.Scope
import SmallScheme.Proofs.Datum.Likeness
import SmallScheme.Proofs.Datum.WellFormed
import SmallScheme.Proofs.Datum.Written
import SmallScheme.Proofs.Depth.Datum
import SmallScheme.Proofs.Depth.Evaluator
import SmallScheme.Proofs.Depth.Reading
import SmallScheme.Proofs.Discipline.Computation
import SmallScheme.Proofs.Discipline.Escapes
import SmallScheme.Proofs.Discipline.Forms
import SmallScheme.Proofs.Discipline.Procedures
import SmallScheme.Proofs.Discipline.Watch
import SmallScheme.Proofs.Discipline.Writes
import SmallScheme.Proofs.Evaluator.Application
import SmallScheme.Proofs.Evaluator.Calls
import SmallScheme.Proofs.Evaluator.Chains
import SmallScheme.Proofs.Evaluator.Clauses
import SmallScheme.Proofs.Evaluator.Concatenation
import SmallScheme.Proofs.Evaluator.Connectives
import SmallScheme.Proofs.Evaluator.DeepPrograms
import SmallScheme.Proofs.Evaluator.Definitions
import SmallScheme.Proofs.Evaluator.Denotation
import SmallScheme.Proofs.Evaluator.Endings
import SmallScheme.Proofs.Evaluator.Loading
import SmallScheme.Proofs.Evaluator.LoadingLists
import SmallScheme.Proofs.Evaluator.Orders
import SmallScheme.Proofs.Evaluator.Programs
import SmallScheme.Proofs.Evaluator.Quotation
import SmallScheme.Proofs.Evaluator.Quoted
import SmallScheme.Proofs.Evaluator.Reference
import SmallScheme.Proofs.Evaluator.Reflection
import SmallScheme.Proofs.Evaluator.Rejection
import SmallScheme.Proofs.Evaluator.RoundTrip
import SmallScheme.Proofs.Evaluator.Sequence
import SmallScheme.Proofs.Evaluator.TailCalls
import SmallScheme.Proofs.Evolution.Frames
import SmallScheme.Proofs.Evolution.Moments
import SmallScheme.Proofs.Evolution.Observation
import SmallScheme.Proofs.Evolution.Promises
import SmallScheme.Proofs.Evolution.Runs
import SmallScheme.Proofs.Evolution.Store
import SmallScheme.Proofs.Machine.Application
import SmallScheme.Proofs.Machine.Outcome
import SmallScheme.Proofs.Number.ReadBack
import SmallScheme.Proofs.Number.Rounding
import SmallScheme.Proofs.Reader.Acceptance
import SmallScheme.Proofs.Reader.Concatenation
import SmallScheme.Proofs.Reader.Grammar
import SmallScheme.Proofs.Reader.Literals
import SmallScheme.Proofs.Reader.Nesting
import SmallScheme.Proofs.Reader.NormalForm
import SmallScheme.Proofs.Reader.OpenForms
import SmallScheme.Proofs.Reader.Pieces
import SmallScheme.Proofs.Reader.Prefix
import SmallScheme.Proofs.Reader.PrintedNumbers
import SmallScheme.Proofs.Reader.Queue
import SmallScheme.Proofs.Reader.Reading
import SmallScheme.Proofs.Reader.Scanning
import SmallScheme.Proofs.Reader.Separators
import SmallScheme.Proofs.Reader.SharedQueue
import SmallScheme.Proofs.Reader.Spelling
import SmallScheme.Proofs.Reader.StringLiteral
import SmallScheme.Proofs.Reader.Syntax
import SmallScheme.Proofs.Reader.Tokens
import SmallScheme.Proofs.Relabelling.Builtins
import SmallScheme.Proofs.Relabelling.Datum
import SmallScheme.Proofs.Relabelling.Evaluator
import SmallScheme.Proofs.Relabelling.Forms
import SmallScheme.Proofs.Relabelling.Simulation
import SmallScheme.Proofs.Relabelling.Store
import SmallScheme.Proofs.Scoping.Bindings
import SmallScheme.Proofs.Scoping.Noninterference
import SmallScheme.Proofs.Scoping.Reachability
import SmallScheme.Proofs.Scoping.ScopeTree
import SmallScheme.Proofs.Sharing.Computation
import SmallScheme.Proofs.Sharing.Equality
import SmallScheme.Proofs.Sharing.Forms
import SmallScheme.Proofs.Sharing.Heap
import SmallScheme.Proofs.Sharing.Procedures
import SmallScheme.Proofs.Sharing.Reachable
import SmallScheme.Proofs.Soundness.Builtins
import SmallScheme.Proofs.Soundness.Computation
import SmallScheme.Proofs.Soundness.Forms
import SmallScheme.Proofs.Soundness.Legibility
import SmallScheme.Proofs.Soundness.Reachable
import SmallScheme.Proofs.Soundness.Store
import SmallScheme.Proofs.Source.Names
import SmallScheme.Proofs.Traces.Computation
import SmallScheme.Proofs.Traces.Evaluator
import SmallScheme.Proofs.Traces.Procedures
import SmallScheme.Reader.Atom
import SmallScheme.Reader.SharedStream
import SmallScheme.Reader.Token
import SmallScheme.Reader.TokenStream
import SmallScheme.Settings
import SmallScheme.Source.FileSystem
import SmallScheme.Source.Path
import SmallScheme.Source.Refusal
import SmallScheme.Source.Utf8
import SmallScheme.Store
import SmallScheme.Text.Blank
import SmallScheme.Text.DecimalDigit
import SmallScheme.Text.Literal
import SmallScheme.Text.Printable
import SmallScheme.Text.Quoted
import SmallScheme.Text.Uppercase
