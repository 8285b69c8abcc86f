import Sexp.Call.Error
import Sexp.Call.Invocation
import Sexp.Call.Journal
import Sexp.Call.Record
import Sexp.Call.Session
import Sexp.Decimal.Basic
import Sexp.Decimal.Notation
import Sexp.Decimal.Numeral
import Sexp.Decimal.OfText
import Sexp.Form.Basic
import Sexp.Form.Distinct
import Sexp.Form.Equality
import Sexp.Form.Printer
import Sexp.Form.Sequence
import Sexp.Form.Sugar
import Sexp.FormStream.Basic
import Sexp.FormStream.Script
import Sexp.FormStream.Trace
import Sexp.Grammar.Atom
import Sexp.Grammar.Expression
import Sexp.Grammar.Failure
import Sexp.Grammar.Progress
import Sexp.Grammar.Recognizer
import Sexp.ReadError
import Sexp.Text.Blank
import Sexp.Text.Cursor
import Sexp.Text.DecimalDigit
import Sexp.Text.Ignorable
import Sexp.Text.Inspected
import Sexp.Text.Location
import Sexp.Text.Printable
import Sexp.Version
import Sexp.Proofs.Dispatch
import Sexp.Proofs.NumeralScan
import Sexp.Proofs.FormTree
import Sexp.Proofs.PlainDecimal
import Sexp.Proofs.Readable
import Sexp.Proofs.Image
import Sexp.Proofs.StreamRun
import Sexp.Proofs.AtomText
import Sexp.Proofs.Layout
import Sexp.Proofs.RoundTrip
import Sexp.Proofs.CursorOrder
import Sexp.Proofs.Shift
import Sexp.Proofs.StringBody
import Sexp.Proofs.Token
import Sexp.Proofs.Locality
import Sexp.Proofs.Outcome
import Sexp.Proofs.StreamInvariant
import Sexp.Proofs.JoinedText
import Sexp.Proofs.Frontier
import Sexp.Proofs.Descent
import Sexp.Proofs.Fault
import Sexp.Proofs.ViablePrefix
import Sexp.Proofs.CursorCut
import Sexp.Proofs.FlatScan
import Sexp.Proofs.Tally
import Sexp.Proofs.Balance
import Sexp.Proofs.Erasure
import Sexp.Proofs.Unlimited
import Sexp.Proofs.NestingLimit
import Sexp.Proofs.CanonicalText
import Sexp.Proofs.CallLog
import Sexp.Proofs.Schedule
import Sexp.Proofs.Unclosed
import Sexp.Proofs.LongestNumeral
import Sexp.Proofs.ExactText
import Sexp.Proofs.SelfDelimiting
import Sexp.Proofs.SharedBody
import Sexp.Proofs.LineColumn
import Sexp.Proofs.StringLiteral
import Sexp.Proofs.ScientificText
import Sexp.Proofs.NestedParentheses
import Sexp.Proofs.Bounds
import Sexp.Proofs.MethodCalls
import Sexp.Proofs.Tracing
import Sexp.Proofs.IgnorableRun
