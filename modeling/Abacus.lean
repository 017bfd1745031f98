import Abacus.Main
import Abacus.Expr.Leaves
import Abacus.Input.ByteSource
import Abacus.Input.CharSource
import Abacus.Input.LoggedReader
import Abacus.Input.SourceReader
import Abacus.Input.Utf8
import Abacus.Parse.Automaton
import Abacus.Parse.Call
import Abacus.Parse.Climbing
import Abacus.Parse.Consumption
import Abacus.Parse.Record
import Abacus.Parse.Session
import Abacus.Parse.TokenCall
import Abacus.Proofs.Binary64.Bits
import Abacus.Proofs.Binary64.Interval
import Abacus.Proofs.Binary64.Nearest
import Abacus.Proofs.Binary64.Negation
import Abacus.Proofs.Binary64.Rounding
import Abacus.Proofs.Binary64.Shortest
import Abacus.Proofs.Binary64.SignificantDigits
import Abacus.Proofs.CalculationLog
import Abacus.Proofs.CalculationOrder
import Abacus.Proofs.CalculationSigns
import Abacus.Proofs.Command
import Abacus.Proofs.Decimal
import Abacus.Proofs.Expr.Evaluation
import Abacus.Proofs.Expr.Levels
import Abacus.Proofs.Expr.Rendering
import Abacus.Proofs.Input.Decoding
import Abacus.Proofs.Input.Encoding
import Abacus.Proofs.Input.Representation
import Abacus.Proofs.Numeral
import Abacus.Proofs.Parse.Automaton
import Abacus.Proofs.Parse.Climbing
import Abacus.Proofs.Parse.Consumption
import Abacus.Proofs.Parse.Course
import Abacus.Proofs.Parse.ErrorPosition
import Abacus.Proofs.Parse.Grafting
import Abacus.Proofs.Parse.Grammar
import Abacus.Proofs.Parse.Log
import Abacus.Proofs.Parse.Minimum
import Abacus.Proofs.Parse.Pulling
import Abacus.Proofs.Parse.Reading
import Abacus.Proofs.Parse.Rechunking
import Abacus.Proofs.Parse.Signs
import Abacus.Proofs.Parse.Source
import Abacus.Proofs.Parse.Streaming
import Abacus.Proofs.Parse.TokenOrder
import Abacus.Proofs.Parse.Transition
import Abacus.Proofs.Parse.ViablePrefix
import Abacus.Proofs.PlainNotation
import Abacus.Proofs.ResultText
import Abacus.Proofs.ShortestText
import Abacus.Proofs.SourceErrors
import Abacus.Proofs.Token.Boundary
import Abacus.Proofs.Token.Fault
import Abacus.Proofs.Token.Joining
import Abacus.Proofs.Token.Lexical
import Abacus.Proofs.Token.Partition
import Abacus.Proofs.Token.Progress
import Abacus.Proofs.Token.Representation
import Abacus.Proofs.Token.Runs
import Abacus.Proofs.Token.Shift
import Abacus.Proofs.Token.View
