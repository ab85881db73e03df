import Abacus.Text.Basic
import Abacus.Text.Place
import Abacus.Text.Printable
import Abacus.Text.Script
import Abacus.Text.Quoted
import Abacus.Token.Lexeme
import Abacus.Token.Stream
import Abacus.Number.Decimal
import Abacus.Number.Layout
import Abacus.Number.Numeral
import Abacus.Json.Basic
import Abacus.Json.Display
import Abacus.Tree.Basic
import Abacus.Grammar.Fault
import Abacus.Grammar.Memo
import Abacus.Grammar.Rule
import Abacus.Grammar.Expression
import Abacus.Grammar.Program
import Abacus.Report
import Abacus.Text.Utf8
import Abacus.Json.Reader
import Abacus.Json.Writer
import Abacus.Grammar.Report
import Abacus.Tree.Encode
import Abacus.Tree.Decode
import Abacus.Tree.Same
import Abacus.Value.Basic
import Abacus.Value.Arithmetic
import Abacus.Scope.Name
import Abacus.Scope.Store
import Abacus.Trace
import Abacus.Eval.Machine
import Abacus.Eval.Evaluate
import Abacus.Eval.Interpreter
import Abacus.Eval.Session
import Abacus.Command.Disk
import Abacus.Command.Flag
import Abacus.Command.Settings
import Abacus.Command.Run
import Abacus.Main
import Abacus.Proofs.StreamOrder
import Abacus.Proofs.Pairing
import Abacus.Proofs.Phrase
import Abacus.Proofs.ParseSound
import Abacus.Proofs.ParseComplete
import Abacus.Proofs.FixedPoint
import Abacus.Proofs.Acceptance
import Abacus.Proofs.EvalSteps
import Abacus.Proofs.Frame
import Abacus.Proofs.Sorts
import Abacus.Proofs.SortedRun
import Abacus.Proofs.FlatSemantics
import Abacus.Proofs.FlatView
import Abacus.Proofs.FlatSound
import Abacus.Proofs.FlatComplete
import Abacus.Proofs.FlatRefinement
import Abacus.Proofs.MoreRoom
import Abacus.Proofs.ParsedSorts
import Abacus.Proofs.Safety
import Abacus.Proofs.Cut
import Abacus.Proofs.WordsOnly
import Abacus.Proofs.Spelling
import Abacus.Proofs.Refusal
import Abacus.Proofs.Canonical
import Abacus.Proofs.Printing
import Abacus.Proofs.Activity
import Abacus.Proofs.Provenance
import Abacus.Proofs.Integers
import Abacus.Proofs.TreeRoundTrip
import Abacus.Proofs.TokenChain
import Abacus.Proofs.Remembered
import Abacus.Proofs.Sealed
import Abacus.Proofs.Joined
import Abacus.Proofs.Upholds
import Abacus.Proofs.Pieces
import Abacus.Proofs.Lawful
import Abacus.Proofs.Operators
import Abacus.Proofs.RaisedLimits
import Abacus.Proofs.Suffix
import Abacus.Proofs.Tracing
import Abacus.Proofs.JsonRoundTrip
import Abacus.Proofs.TextFiles
import Abacus.Proofs.DiskPaths
import Abacus.Proofs.CommandWords
import Abacus.Proofs.Reloading
import Abacus.Proofs.LexicalGrammar
import Abacus.Proofs.Tiling
import Abacus.Proofs.ElseIf
import Abacus.Proofs.TraceFile
import Abacus.Proofs.ExactIntegers
import Abacus.Proofs.Advance
import Abacus.Proofs.Diagnosis
import Abacus.Proofs.PrintedDoubles
import Abacus.Proofs.Places
