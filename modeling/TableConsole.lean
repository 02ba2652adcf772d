import TableConsole.Text.Blank
import TableConsole.Text.Lines
import TableConsole.Text.Quoting
import TableConsole.Text.Letter
import TableConsole.Text.Quoted
import TableConsole.Number.Written
import TableConsole.Number.Arithmetic
import TableConsole.Syntax.Parser
import TableConsole.Value.Table
import TableConsole.Value.Key
import TableConsole.Value.Text
import TableConsole.Text.Search
import TableConsole.Json.Reader
import TableConsole.Json.Printer
import TableConsole.Symbols
import TableConsole.Session.Dialogue
import TableConsole.Session.Seed
import TableConsole.CommandLine
import TableConsole.Main
import TableConsole.Proofs.Except
import TableConsole.Proofs.Syntax.Grammar
import TableConsole.Proofs.Syntax.PhraseReader
import TableConsole.Proofs.Syntax.Soundness
import TableConsole.Proofs.Syntax.Completeness
import TableConsole.Proofs.Syntax.Budget
import TableConsole.Proofs.Syntax.Acceptance
import TableConsole.Proofs.Eval.FilterSplit
import TableConsole.Proofs.Eval.RowLocal
import TableConsole.Proofs.Eval.Literals
import TableConsole.Proofs.Number.Equality
import TableConsole.Proofs.Number.Rounding
import TableConsole.Proofs.Number.Packing
import TableConsole.Proofs.Number.ReadBack
import TableConsole.Proofs.Value.KeyForm
import TableConsole.Proofs.Value.Date
import TableConsole.Proofs.Value.Json
import TableConsole.Proofs.Value.CanonicalDate
import TableConsole.Proofs.Value.Columns
import TableConsole.Proofs.Value.KeyEquivalence
import TableConsole.Proofs.Eval.Assembly
import TableConsole.Proofs.Eval.Membership
import TableConsole.Proofs.Eval.GroupBy
import TableConsole.Proofs.Session.Trace
import TableConsole.Proofs.Session.Failure
import TableConsole.Proofs.Value.WellFormed
import TableConsole.Proofs.Session.Nesting
import TableConsole.Proofs.Syntax.OperatorDepth
import TableConsole.Proofs.Eval.Broadcast
import TableConsole.Proofs.Eval.Invariant
import TableConsole.Proofs.Eval.Preservation
import TableConsole.Proofs.Session.Invariant
import TableConsole.Proofs.Session.WellFormed
import TableConsole.Proofs.Eval.Nesting
import TableConsole.Proofs.Text.Quoting
import TableConsole.Proofs.Text.Blank
import TableConsole.Proofs.Text.Lines
import TableConsole.Proofs.Display.Markup
import TableConsole.Proofs.Syntax.Lexeme
import TableConsole.Proofs.Syntax.Identifier
import TableConsole.Proofs.Syntax.Joining
import TableConsole.Proofs.Syntax.Brackets
import TableConsole.Proofs.Syntax.Colons
import TableConsole.Proofs.Syntax.Writing
import TableConsole.Proofs.Session.Reference
import TableConsole.Proofs.Session.Splitting
import TableConsole.Proofs.Session.JoinedLines
import TableConsole.Proofs.Session.PerLine
import TableConsole.Proofs.Session.Dialogue
import TableConsole.Proofs.Session.Leniency
import TableConsole.Proofs.Session.Classification
import TableConsole.Proofs.Session.Unnamed
import TableConsole.Proofs.Session.Chain
import TableConsole.Proofs.Session.DisplayedValue
import TableConsole.Proofs.Session.TableLiteral
import TableConsole.Proofs.Guarded.Basic
import TableConsole.Proofs.Guarded.Text
import TableConsole.Proofs.Guarded.Lexer
import TableConsole.Proofs.Guarded.Cursor
import TableConsole.Proofs.Guarded.Parser
import TableConsole.Proofs.Guarded.Operator
import TableConsole.Proofs.Guarded.Rows
import TableConsole.Proofs.Guarded.Eval
import TableConsole.Proofs.Guarded.Display
import TableConsole.Proofs.Guarded.Session
import TableConsole.Proofs.Number.Order
import TableConsole.Proofs.Value.Order
import TableConsole.Proofs.Eval.Extreme
import TableConsole.Proofs.Eval.Comparison
import TableConsole.Proofs.Eval.AllColumns
import TableConsole.Proofs.Syntax.NestingLimit
import TableConsole.Proofs.Syntax.DepthCounter
import TableConsole.Proofs.Syntax.LocalDepth
import TableConsole.Proofs.Session.NestingLimit
import TableConsole.Proofs.Eval.Arithmetic
import TableConsole.Proofs.Session.Echo
import TableConsole.Proofs.Session.Blocks
import TableConsole.Proofs.Display.Layout
import TableConsole.Proofs.Display.Columns
import TableConsole.Proofs.Session.JoinedTokens
import TableConsole.Proofs.Syntax.Comments
import TableConsole.Proofs.Session.Seeding
import TableConsole.Proofs.Number.RelativeError
import TableConsole.Proofs.Number.Nearest
import TableConsole.Proofs.Number.Operations
import TableConsole.Proofs.Number.Conversion
import TableConsole.Proofs.Number.DecimalArithmetic
import TableConsole.Proofs.Number.DecimalFloat
import TableConsole.Proofs.Number.Reducers
