import DocShell.Text.Position
import DocShell.Text.Blank
import DocShell.Text.Letter
import DocShell.Text.Numeral
import DocShell.Text.Alphabetic
import DocShell.Text.Digits
import DocShell.Number.Double
import DocShell.Number.Layout
import DocShell.Scalar.LongDigits
import DocShell.Scalar.LongText
import DocShell.Scalar.DecimalText
import DocShell.Scalar.ObjectId
import DocShell.Scalar.Pattern
import DocShell.Scalar.Binary
import DocShell.Calendar.Reading
import DocShell.Calendar.Date
import DocShell.Value.Equality
import DocShell.Value.Plain
import DocShell.Json.Writing
import DocShell.Text.Taken
import DocShell.Json.Reading
import DocShell.Token.Scan
import DocShell.Expr.Reading
import DocShell.Value.Written
import DocShell.Bridge.Export
import DocShell.Bridge.Import
import DocShell.Evaluation.Meaning
import DocShell.Command.Reading
import DocShell.Failure.Message
import DocShell.Bridge.Document
import DocShell.CommandLine.Disk
import DocShell.CommandLine.Run
import DocShell.Main
import DocShell.Proofs.Text.Digits
import DocShell.Proofs.Number.Rounding
import DocShell.Proofs.Number.Decimal
import DocShell.Proofs.Text.Runs
import DocShell.Proofs.Number.Spelling
import DocShell.Proofs.Number.Whole
import DocShell.Proofs.Text.Quoted
import DocShell.Proofs.Token.Spells
import DocShell.Proofs.Scalar.Pattern
import DocShell.Proofs.Calendar.Date
import DocShell.Proofs.Calendar.Years
import DocShell.Proofs.Calendar.Stamp
import DocShell.Proofs.Calendar.Forms
import DocShell.Proofs.Calendar.Instant
import DocShell.Proofs.Value.Everywhere
import DocShell.Proofs.Value.Lexemes
import DocShell.Proofs.Text.Unescaped
import DocShell.Proofs.Token.Parts
import DocShell.Proofs.Expr.Outcome
import DocShell.Proofs.Expr.Phrase
import DocShell.Proofs.Value.Normal
import DocShell.Proofs.Evaluation.Constructor
import DocShell.Proofs.Value.Phrases
import DocShell.Proofs.Fields
import DocShell.Proofs.Value.RoundTrip
import DocShell.Proofs.Json.Depth
import DocShell.Proofs.Json.Outcome
import DocShell.Proofs.Failure.Bind
import DocShell.Proofs.Bridge.Import
import DocShell.Proofs.Bridge.RoundTrip
import DocShell.Proofs.Json.RoundTrip
import DocShell.Proofs.Value.Shape
import DocShell.Proofs.Bridge.Neighbours
import DocShell.Proofs.Expr.Invariant
import DocShell.Proofs.Token.Literal
import DocShell.Proofs.Value.Decoded
import DocShell.Proofs.Evaluation.Built
import DocShell.Proofs.Evaluation.Yields
import DocShell.Proofs.Value.Stability
import DocShell.Proofs.Expr.Parts
import DocShell.Proofs.Expr.Refusal
import DocShell.Proofs.Evaluation.Containment
import DocShell.Proofs.Command.Step
import DocShell.Proofs.Command.Containment
import DocShell.Proofs.Command.Form
import DocShell.Proofs.Command.Chain
import DocShell.Proofs.Number.ReadBack
import DocShell.Proofs.Bridge.Reserved
import DocShell.Proofs.Bridge.Return
import DocShell.Proofs.Json.Parts
import DocShell.Proofs.Bridge.Reimport
import DocShell.Proofs.Expr.Grammar
import DocShell.Proofs.Expr.Derivable
import DocShell.Proofs.Expr.Derivation
import DocShell.Proofs.Expr.Height
import DocShell.Proofs.Expr.Reach
import DocShell.Proofs.Command.Written
import DocShell.Proofs.Json.Strings
import DocShell.Proofs.Bridge.Untyped
import DocShell.Proofs.Json.Numbers
import DocShell.Proofs.Bridge.Agreement
import DocShell.Proofs.Value.Canonical
import DocShell.Proofs.Command.Canonical
import DocShell.Proofs.Json.Written
import DocShell.Proofs.Bridge.TextPath
import DocShell.Proofs.Failure.Follows
import DocShell.Proofs.Expr.Moved
import DocShell.Proofs.Expr.Follows
import DocShell.Proofs.Evaluation.Follows
import DocShell.Proofs.Command.Follows
import DocShell.Proofs.Text.Position
import DocShell.Proofs.Token.Reached
import DocShell.Proofs.Command.Positions
import DocShell.Proofs.Number.Value
import DocShell.Proofs.Number.Exact
import DocShell.Proofs.Number.Nearest
import DocShell.Proofs.Number.Shortest
import DocShell.Proofs.Number.Based
import DocShell.Proofs.Scalar.DecimalText
import DocShell.Proofs.Scalar.DecimalRange
import DocShell.Proofs.Scalar.ShellDecimal
import DocShell.Proofs.Token.Number
import DocShell.Proofs.Value.NumberCall
import DocShell.Proofs.Value.NumberLong
import DocShell.Proofs.Value.NumberDecimal
import DocShell.Proofs.Json.Spelling
import DocShell.Proofs.Json.Source
import DocShell.Proofs.Json.Grammar
import DocShell.Proofs.Json.Place
import DocShell.Proofs.Bridge.Place
import DocShell.Proofs.Bridge.PlainInteger
import DocShell.Proofs.Number.Closest
import DocShell.Proofs.Number.DigitByDigit
import DocShell.Proofs.Value.NumberBase
import DocShell.Proofs.Value.WrittenDate
import DocShell.Proofs.Value.WrittenPattern
import DocShell.Proofs.Value.TypedPattern
import DocShell.Proofs.Number.WholeText
import DocShell.Proofs.Value.Equality
import DocShell.Proofs.Fields.History
import DocShell.Proofs.Command.Accepted
import DocShell.Proofs.Command.Modified
import DocShell.Proofs.Token.StringLiteral
import DocShell.Proofs.Number.Behind
import DocShell.Proofs.Token.Behind
import DocShell.Proofs.Token.Gap
import DocShell.Proofs.Command.Unplaced
import DocShell.Proofs.Command.Spelling
import DocShell.Proofs.Value.Unbroken
import DocShell.Proofs.Value.Lines
import DocShell.Proofs.Text.Base64
import DocShell.Proofs.Scalar.Binary
import DocShell.Proofs.Scalar.LongText
import DocShell.Proofs.Value.PrintedNumber
import DocShell.Proofs.CommandLine.Disk
import DocShell.Proofs.CommandLine.Arguments
import DocShell.Proofs.CommandLine.Run
import DocShell.Proofs.CommandLine.Confined
