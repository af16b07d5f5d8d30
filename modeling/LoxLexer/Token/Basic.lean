import LoxLexer.Token.Kind
import LoxLexer.Decimal.Notation

/-!
# Tokens

A token has a kind, the lexeme it was read from, a literal value, and the line it ends on. The
literal of a string is its text and that of a number its binary64 value; other tokens have none.

A token is written as `TokenType.KIND lexeme literal`: an absent literal is written `None`, a text
as itself, and a number in `Literal.numberNotation`.
-/

namespace LoxLexer

/-- The value a token carries. -/
inductive Literal where
  /-- No value: every token but strings and numbers. -/
  | absent
  /-- The text of a string, without its quotes. -/
  | text (s : Text)
  /-- The value of a number. -/
  | number (x : Binary64)
deriving DecidableEq, Repr

namespace Literal

/-- Numbers are written with the fewest digits that read back, positionally when the leading digit
has a decimal exponent from -4 to 15 and with a signed exponent of at least two digits otherwise;
NaN is `nan` and infinity `inf`. -/
def numberNotation : Notation where
  plainFrom := -4
  plainBelow := 16
  exponentWidth := 2
  nan := "nan"
  infinity := "inf"

/-- The text of a literal. -/
def render : Literal → Text
  | absent => Text.ofString "None"
  | text s => s
  | number x => Text.ofString (numberNotation.render x)

end Literal

/-- A token. -/
structure Token where
  /-- What the token is. -/
  kind : TokenKind
  /-- The source text it was read from. -/
  lexeme : Text
  /-- The value it carries. -/
  literal : Literal
  /-- The line on which its lexeme ends. -/
  line : Nat
deriving DecidableEq, Repr

namespace Token

/-- The end of input, on the given line. -/
def eof (line : Nat) : Token := ⟨.eof, [], .absent, line⟩

/-- The text of a token: `TokenType.`, its kind's name, its lexeme and its literal, the last three
separated by single spaces. -/
def render (t : Token) : Text :=
  Text.ofString ("TokenType." ++ t.kind.name ++ " ") ++ t.lexeme ++ Text.ofString " " ++
    t.literal.render

example : (eof 1).render = Text.ofString "TokenType.EOF  None" := by decide +kernel

end Token

end LoxLexer
