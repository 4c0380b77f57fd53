import Calculator.CommandLine.Arguments
import Calculator.CommandLine.Report
import Calculator.CommandLine.Run
import Calculator.Config
import Calculator.Decimal.Basic
import Calculator.Decimal.Double
import Calculator.Decimal.Numeral
import Calculator.Decimal.Rounding
import Calculator.Decimal.Shortest
import Calculator.Decimal.Writing
import Calculator.Dialog.Request
import Calculator.Dialog.Response
import Calculator.Dialog.Transcript
import Calculator.Evaluation
import Calculator.Expr.Lexer
import Calculator.Expr.Parser
import Calculator.Expr.Syntax
import Calculator.Expr.Token
import Calculator.History.Basic
import Calculator.History.Entry
import Calculator.Json.Lexer
import Calculator.Json.Quote
import Calculator.Json.Value
import Calculator.Main
import Calculator.MathFunction
import Calculator.Proofs.Decimal.Bits
import Calculator.Proofs.Decimal.Displayed
import Calculator.Proofs.Decimal.NumberText
import Calculator.Proofs.Decimal.ReadBack
import Calculator.Proofs.Decimal.Scanning
import Calculator.Proofs.Decimal.WholeNumbers
import Calculator.Proofs.Dialog.Independence
import Calculator.Proofs.Dialog.SingleRuns
import Calculator.Proofs.Evaluation.Accepted
import Calculator.Proofs.Evaluation.CallOperand
import Calculator.Proofs.Evaluation.Composition
import Calculator.Proofs.Evaluation.Juxtaposition
import Calculator.Proofs.Evaluation.Outcomes
import Calculator.Proofs.Evaluation.Redisplay
import Calculator.Proofs.Evaluation.Spacing
import Calculator.Proofs.Expr.Grammar
import Calculator.Proofs.Expr.Lexing
import Calculator.Proofs.Expr.Neighbours
import Calculator.Proofs.Expr.Reading
import Calculator.Proofs.Expr.Replacing
import Calculator.Proofs.Expr.Seams
import Calculator.Proofs.Expr.Spliced
import Calculator.Proofs.Expr.Unreadable
import Calculator.Proofs.History.Decoding
import Calculator.Proofs.History.RoundTrip
import Calculator.Proofs.Json.Quoting
import Calculator.Proofs.Language.Arguments
import Calculator.Proofs.Language.Calls
import Calculator.Proofs.Language.Formula
import Calculator.Proofs.Language.Meaning
import Calculator.Proofs.Language.Passes
import Calculator.Proofs.Language.Pieces
import Calculator.Proofs.Language.Symbols
import Calculator.Proofs.Language.Words
import Calculator.Proofs.Reduction.Barriers
import Calculator.Proofs.Reduction.Forms
import Calculator.Proofs.Reduction.LastPass
import Calculator.Proofs.Reduction.Matches
import Calculator.Proofs.Reduction.Products
import Calculator.Proofs.Reduction.Stages
import Calculator.Proofs.Session.Fruitless
import Calculator.Proofs.Session.InStep
import Calculator.Proofs.Session.Replay
import Calculator.Proofs.Session.Shown
import Calculator.Proofs.Store.Acknowledged
import Calculator.Proofs.Store.KeyOrder
import Calculator.Proofs.Store.Laws
import Calculator.Proofs.Store.Refinement
import Calculator.Proofs.Store.RoundTrip
import Calculator.Reduction.Calls
import Calculator.Reduction.Factorials
import Calculator.Reduction.Normalize
import Calculator.Reduction.Pattern
import Calculator.Screen.Palette
import Calculator.Screen.Lines
import Calculator.Session
import Calculator.Session.Action
import Calculator.Store.Basic
import Calculator.Store.FileTree
import Calculator.Store.Values
import Calculator.Text.Blank
import Calculator.Text.DecimalDigit
import Calculator.Text.Grouping
import Calculator.Theme
import Calculator.Timestamp.Layout
import Calculator.Timestamp.Moment
import Calculator.Toml.Document
import Calculator.Toml.Lines
import Calculator.Toml.Scalar
import Calculator.Toml.Table
import Calculator.Toml.Text
import Calculator.Proofs.Expr.Beginnings
import Calculator.Proofs.Expr.Faults
import Calculator.Proofs.Text.Separators
import Calculator.Proofs.Decimal.Order
import Calculator.Proofs.Decimal.Accuracy
import Calculator.Proofs.Evaluation.Canonical
import Calculator.Proofs.Reduction.Settled
import Calculator.Proofs.Reduction.FactorialRuns
import Calculator.Proofs.Evaluation.Causes
import Calculator.Proofs.Language.Nesting
import Calculator.Proofs.Expr.Printing
import Calculator.Proofs.Evaluation.ExactText
import Calculator.Proofs.History.Views
import Calculator.Proofs.Session.Retyped
