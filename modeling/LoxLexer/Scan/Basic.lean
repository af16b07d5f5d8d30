import LoxLexer.Scan.Piece
import LoxLexer.Token.Basic
import LoxLexer.Decimal.Reader

/-!
# Scanning a source

`pieces` cuts a source into pieces, and `Scan.ofPieces` walks them with the current line, which
starts at 1: a token gets the line on which its lexeme ends, a character that starts no token is
reported on the line where it stands, and a string left open is reported on the last line. The
line feed that ends a comment is not counted, so the line after a comment keeps its number. The
tokens end with the end-of-input token on the last line.

## Main definitions

* `pieces`: the pieces of a source.
* `Diagnostic`: a problem found on a line.
* `Scan`: the tokens and diagnostics of a source; `scan` computes it.
-/

namespace LoxLexer

/-- The pieces of a source, front to back. -/
def pieces : Text → List Piece
  | [] => []
  | c :: rest =>
    let r := Piece.split c rest
    r.1 :: pieces r.2
termination_by l => l.length
decreasing_by
  have := Piece.length_split_le c rest
  simp only [List.length_cons]
  omega

namespace Piece

/-- The lines a piece moves the scan forward: one for each line feed in a token's lexeme or in an
unclosed string, and one for a line feed. The line feed that ends a comment does not count. -/
def lines : Piece → Nat
  | token _ lexeme => lexeme.count (.scalar '\n')
  | newline => 1
  | unclosed body => body.count (.scalar '\n')
  | _ => 0

end Piece

namespace Literal

/-- The literal of a token with the given kind and lexeme: the text between the quotes of a
string, and the value of a numeral. -/
def ofLexeme : TokenKind → Text → Literal
  | .string, lexeme => text (lexeme.drop 1).dropLast
  | .number, lexeme =>
    number (Binary64.ofNumeral (Text.chars (lexeme.takeWhile CodePoint.isDigit))
      (Text.chars ((lexeme.dropWhile CodePoint.isDigit).drop 1)))
  | _, _ => absent

end Literal

/-- What went wrong at a place in a source. -/
inductive Problem where
  /-- A code point that starts no token. -/
  | unexpected (c : CodePoint)
  /-- A string without its closing quote. -/
  | unterminated
deriving DecidableEq, Repr

/-- The message that describes a problem. -/
def Problem.message : Problem → Text
  | .unexpected c => Text.ofString "Unexpected character ' " ++ [c] ++ Text.ofString " '."
  | .unterminated => Text.ofString "Unterminated string."

/-- A problem and the line it is reported on. -/
structure Diagnostic where
  /-- The line of the report. -/
  line : Nat
  /-- What went wrong. -/
  problem : Problem
deriving DecidableEq, Repr

/-- The tokens of a source and the problems found in it, each in source order. -/
structure Scan where
  /-- The tokens, ending with the end of input. -/
  tokens : List Token
  /-- The problems. -/
  diagnostics : List Diagnostic
deriving DecidableEq, Repr

namespace Scan

/-- The scan of the given pieces, the first of which starts on `line`. -/
def ofPieces (line : Nat) : List Piece → Scan
  | [] => ⟨[Token.eof line], []⟩
  | p :: ps =>
    let next := line + p.lines
    let rest := ofPieces next ps
    match p with
    | .token kind lexeme =>
      { rest with
        tokens := ⟨kind, lexeme, Literal.ofLexeme kind lexeme, next⟩ :: rest.tokens }
    | .stray c => { rest with diagnostics := ⟨line, .unexpected c⟩ :: rest.diagnostics }
    | .unclosed _ => { rest with diagnostics := ⟨next, .unterminated⟩ :: rest.diagnostics }
    | _ => rest

/-- Whether the scan found a problem. -/
def hadError (s : Scan) : Bool := !s.diagnostics.isEmpty

end Scan

/-- The scan of a source. -/
def scan (source : Text) : Scan :=
  Scan.ofPieces 1 (pieces source)

example : (scan (Text.ofString "// c\nx")).tokens.map (·.line) = [1, 1] := by decide +kernel
example : (scan (Text.ofString "\"a\nb\"")).tokens.map (·.render) =
    [Text.ofString "TokenType.STRING \"a\nb\" a\nb", Text.ofString "TokenType.EOF  None"] := by
  decide +kernel
example : (scan (Text.ofString "1.5.e")).tokens.map (·.render) =
    ["TokenType.NUMBER 1.5 1.5", "TokenType.DOT . None", "TokenType.IDENTIFIER e None",
     "TokenType.EOF  None"].map Text.ofString := by
  decide +kernel
example : (scan (Text.ofString "@\n\"x")).diagnostics =
    [⟨1, .unexpected (.scalar '@')⟩, ⟨2, .unterminated⟩] := by
  decide +kernel
example : (scan [.scalar 'a', .surrogate 0x400, .scalar 'b']).diagnostics =
    [⟨1, .unexpected (.surrogate 0x400)⟩] := by
  decide +kernel

end LoxLexer
