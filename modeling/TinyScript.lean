import TinyScript.Assembly
import TinyScript.Assembly.Fragment
import TinyScript.Assembly.Machine
import TinyScript.Binary64
import TinyScript.Decimal.Integer
import TinyScript.Decimal.Layout
import TinyScript.Decimal.Shortest
import TinyScript.Failure
import TinyScript.Files
import TinyScript.Json
import TinyScript.Json.Fault
import TinyScript.Json.Record
import TinyScript.Json.Scalar
import TinyScript.Json.Skip
import TinyScript.Labels
import TinyScript.Main
import TinyScript.Operator
import TinyScript.Options
import TinyScript.Options.Arguments
import TinyScript.Pipeline
import TinyScript.Plan
import TinyScript.Program
import TinyScript.Program.Compile
import TinyScript.Program.Interchange
import TinyScript.Program.Parse
import TinyScript.Program.Sexpr
import TinyScript.Run
import TinyScript.Sample
import TinyScript.Sink
import TinyScript.SourceError
import TinyScript.Store
import TinyScript.Text.Blank
import TinyScript.Text.Extending
import TinyScript.Text.Printable
import TinyScript.Text.Quoted
import TinyScript.Text.Ranges
import TinyScript.Text.Unassigned
import TinyScript.Token
import TinyScript.Token.Lexer
import TinyScript.Token.Scan
import TinyScript.Value
import TinyScript.Value.Apply
import TinyScript.Proofs.Plan.Parts
import TinyScript.Proofs.Plan.Regular
import TinyScript.Proofs.Compile.Cases
import TinyScript.Proofs.Run.Steps
import TinyScript.Proofs.Typing
import TinyScript.Proofs.Compile.Boundaries
import TinyScript.Proofs.Compile.Correctness
import TinyScript.Proofs.Compile.Depth
import TinyScript.Proofs.Compile.Safety
import TinyScript.Proofs.Grammar
import TinyScript.Proofs.Compile.Supported
import TinyScript.Proofs.Compile.Closed
import TinyScript.Proofs.Interchange
import TinyScript.Proofs.Grammar.Viable
import TinyScript.Proofs.Run.Bounded
import TinyScript.Proofs.Lexical.Spelling
import TinyScript.Proofs.Lexical.Gaps
import TinyScript.Proofs.Lexical
import TinyScript.Proofs.Compile.Registers
import TinyScript.Proofs.Text.Lines
import TinyScript.Proofs.Lexical.Names
import TinyScript.Proofs.Compile.Written
import TinyScript.Proofs.Compile.Readable
import TinyScript.Proofs.Plan.Occurrences
import TinyScript.Proofs.Compile.StoredText
import TinyScript.Proofs.Compile.NumberPrinter
import TinyScript.Proofs.Compile.Division
import TinyScript.Proofs.Binary64
import TinyScript.Proofs.Binary64.Arithmetic
import TinyScript.Proofs.Value.Demoted
import TinyScript.Proofs.Value.Nearest
import TinyScript.Proofs.Run.Session
import TinyScript.Proofs.Files
import TinyScript.Proofs.Options
import TinyScript.Proofs.Pipeline
import TinyScript.Proofs.Decimal.Interval
import TinyScript.Proofs.Decimal.Layout
import TinyScript.Proofs.Text.Quoted
import TinyScript.Proofs.Sexpr.Items
import TinyScript.Proofs.Sexpr
import TinyScript.Proofs.Text.Removal
import TinyScript.Proofs.Run.Failures
import TinyScript.Proofs.Run.Bare
