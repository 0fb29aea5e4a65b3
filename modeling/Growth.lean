import Growth.Analysis
import Growth.Binary64.Basic
import Growth.Binary64.Shortest
import Growth.Code.Function
import Growth.Code.Lexeme
import Growth.Code.Loop
import Growth.Code.Node
import Growth.Code.Outcome
import Growth.Code.Precedence
import Growth.Code.Printing
import Growth.Code.ReadExpression
import Growth.Code.ReadStatement
import Growth.Code.Recording
import Growth.Code.Scanner
import Growth.Code.Token
import Growth.Code.Tokens
import Growth.Code.Tree
import Growth.CommandLine
import Growth.Decimal
import Growth.Document.Block
import Growth.Document.Cursor
import Growth.Document.Entry
import Growth.Document.Plain
import Growth.Document.Quoted
import Growth.Document.Scalar
import Growth.Document.Scanner
import Growth.Document.Sign
import Growth.Document.Tag
import Growth.Document.Token
import Growth.Features
import Growth.Interpreter
import Growth.Main
import Growth.Operator
import Growth.Order
import Growth.Place
import Growth.Position
import Growth.Profile
import Growth.Proofs.Analysis
import Growth.Proofs.Arguments
import Growth.Proofs.Binary64.Rounding
import Growth.Proofs.Binary64.Shortest
import Growth.Proofs.Binary64.Text
import Growth.Proofs.Code.Concatenation
import Growth.Proofs.Code.Denotes
import Growth.Proofs.Code.DenotesLines
import Growth.Proofs.Code.FloatText
import Growth.Proofs.Code.Indentation
import Growth.Proofs.Code.Paragraphs
import Growth.Proofs.Code.Preorder
import Growth.Proofs.Code.PrintedExpression
import Growth.Proofs.Code.PrintedStatement
import Growth.Proofs.Code.Recorded
import Growth.Proofs.Code.RecordedBlocks
import Growth.Proofs.Code.Recording
import Growth.Proofs.Code.Reprint
import Growth.Proofs.Code.Spans
import Growth.Proofs.Code.Underscores
import Growth.Proofs.CommandLine
import Growth.Proofs.Consistency
import Growth.Proofs.Definitions
import Growth.Proofs.Features
import Growth.Proofs.Naming
import Growth.Proofs.Nesting
import Growth.Proofs.Order
import Growth.Proofs.OrderTable
import Growth.Proofs.Profile
import Growth.Proofs.Pseudo.Acceptance
import Growth.Proofs.Pseudo.AgreeStatement
import Growth.Proofs.Pseudo.Cursor
import Growth.Proofs.Pseudo.Pieces
import Growth.Proofs.Pseudo.Stops
import Growth.Proofs.RecordedFeatures
import Growth.Proofs.Rendition.Arithmetic
import Growth.Proofs.Rendition.Blocks
import Growth.Proofs.Rendition.Joined
import Growth.Proofs.Rendition.KeywordCase
import Growth.Proofs.Rendition.Numeral
import Growth.Proofs.Rendition.Program
import Growth.Proofs.Rendition.Repetition
import Growth.Proofs.Rendition.Reports
import Growth.Proofs.Rendition.Resolved
import Growth.Proofs.Rendition.Spaced
import Growth.Proofs.Rendition.Strays
import Growth.Proofs.Settings
import Growth.Proofs.Text.Lines
import Growth.Proofs.Trial
import Growth.Pseudo.Diagnostic
import Growth.Pseudo.Kind
import Growth.Pseudo.Layout
import Growth.Pseudo.Line
import Growth.Pseudo.Numeral
import Growth.Pseudo.ReadCalc
import Growth.Pseudo.ReadCondition
import Growth.Pseudo.ReadStatement
import Growth.Pseudo.Reading
import Growth.Pseudo.Rendition
import Growth.Pseudo.Statement
import Growth.Pseudo.Token
import Growth.Report.Basic
import Growth.Report.Scalar
import Growth.Settings.Basic
import Growth.Shell.Builtin
import Growth.Shell.Command
import Growth.Shell.Condition
import Growth.Shell.Disk
import Growth.Shell.Expansion
import Growth.Shell.Expression
import Growth.Shell.Format
import Growth.Shell.Pattern
import Growth.Shell.Process
import Growth.Shell.Reader
import Growth.Shell.Run
import Growth.Shell.Session
import Growth.Shell.Source
import Growth.Shell.Stream
import Growth.Shell.Utility
import Growth.Shell.Words
import Growth.Shell.World
import Growth.Text.Blank
import Growth.Text.Letter
import Growth.Text.Quoted
import Growth.Text.Ranges
import Growth.Text.Utf8
import Growth.Text.Visible
import Growth.Text.WholeNumber
import Growth.Trial
