import LoxLexer.Binary64.Basic
import LoxLexer.Binary64.Round
import LoxLexer.Decimal.Basic
import LoxLexer.Decimal.Shortest
import LoxLexer.Decimal.Notation
import LoxLexer.Decimal.Reader
import LoxLexer.Text.CodePoint
import LoxLexer.Text.DecimalDigit
import LoxLexer.Text.Fields
import LoxLexer.Text.Quoted
import LoxLexer.Token.Kind
import LoxLexer.Token.Basic
import LoxLexer.Token.Parts
import LoxLexer.Scan.Piece
import LoxLexer.Scan.Basic
import LoxLexer.Scan.Cursor
import LoxLexer.Session.Transcript
import LoxLexer.Session.Path
import LoxLexer.Session.Host
import LoxLexer.Session.Workspace
import LoxLexer.Session.Command
import LoxLexer.Main
import LoxLexer.Proofs.Grammar
import LoxLexer.Proofs.Step
import LoxLexer.Proofs.Pieces
import LoxLexer.Proofs.MaximalMunch
import LoxLexer.Proofs.LineNumbers
import LoxLexer.Proofs.Seams
import LoxLexer.Proofs.Relex
import LoxLexer.Proofs.Rounding
import LoxLexer.Proofs.NumberLiterals
import LoxLexer.Proofs.Termination
import LoxLexer.Proofs.Cursor
import LoxLexer.Proofs.Problems
import LoxLexer.Proofs.Prompt
import LoxLexer.Proofs.Gaps
import LoxLexer.Proofs.Script
import LoxLexer.Proofs.RoundingInterval
import LoxLexer.Proofs.ShortestDecimal
import LoxLexer.Proofs.NumberText
