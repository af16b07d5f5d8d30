import LoxLexer.Token.Kind
import LoxLexer.Text.CodePoint

/-!
# Pieces of a source

A scan cuts a source into pieces, front to back, each taken by one step (`Piece.split`) from the
character at the front and what follows it. A piece is a token with its lexeme, a blank, a line
feed, a comment, a character that starts no token, or a string left open at the end of the
source. The pieces together are the source: nothing is skipped and nothing is read twice.

The lexical rules, each taking the longest text it can:

* `( ) { } , . - + ; *` stand alone; `! = < >` take a following `=` with them;
* `/` starts a comment when another `/` follows, which runs through the next line feed;
* `"` starts a string that ends at the next `"`, line feeds included, and without escapes;
* a digit starts a numeral: digits, then a point and digits if a digit follows the point;
* an ASCII letter or `_` starts a word of ASCII letters, digits and `_`;
* space, tab and carriage return are blanks, and a line feed ends a line;
* any other code point, a lone surrogate included, starts no token.

## Main definitions

* `Piece`: what one step takes.
* `Piece.split`: one step, with `Piece.length_split_le`: what remains is no longer than before.
-/

namespace LoxLexer

/-- Whether a character starts a word: an ASCII letter or `_`. -/
def isWordStart (c : Char) : Bool := c.isAlpha || c == '_'

/-- Whether a code point continues a word: an ASCII letter, an ASCII digit or `_`. -/
def isWordChar : CodePoint → Bool
  | .scalar c => c.isAlphanum || c == '_'
  | .surrogate _ => false

/-- What one step of a scan takes from the front of the source. -/
inductive Piece where
  /-- A token of the given kind, with its lexeme. -/
  | token (kind : TokenKind) (lexeme : Text)
  /-- A space, tab or carriage return. -/
  | blank (c : Char)
  /-- A line feed. -/
  | newline
  /-- A comment: the text after its `//`, through the next line feed or to the end. -/
  | comment (body : Text)
  /-- A code point that starts no token. -/
  | stray (c : CodePoint)
  /-- A string never closed: the text after its quote, to the end of the source. -/
  | unclosed (body : Text)
deriving DecidableEq, Repr

namespace Piece

/-- The source text a piece covers. -/
def text : Piece → Text
  | token _ lexeme => lexeme
  | blank c => [.scalar c]
  | newline => [.scalar '\n']
  | comment body => .scalar '/' :: .scalar '/' :: body
  | stray c => [c]
  | unclosed body => .scalar '"' :: body

/-- The text up to and including the first line feed, and the rest; all of it when there is no
line feed. -/
def throughNewline : Text → Text × Text
  | [] => ([], [])
  | c :: rest =>
    if c = .scalar '\n' then ([c], rest)
    else
      let r := throughNewline rest
      (c :: r.1, r.2)

/-- After `/`: a comment when another `/` follows, else the slash alone. -/
def splitSlash (rest : Text) : Piece × Text :=
  match rest with
  | .scalar '/' :: more =>
    let r := throughNewline more
    (comment r.1, r.2)
  | _ => (token .slash [.scalar '/'], rest)

/-- Whether a code point is not the double quote. -/
def isStringChar (c : CodePoint) : Bool := c != .scalar '"'

/-- After `"`: the string up to the next quote, or an unclosed string to the end. -/
def splitString (rest : Text) : Piece × Text :=
  let body := rest.takeWhile isStringChar
  match rest.dropWhile isStringChar with
  | _ :: more => (token .string (.scalar '"' :: body ++ [.scalar '"']), more)
  | [] => (unclosed body, [])

/-- After the digit `d`: the rest of the numeral, with its fraction if a digit follows the point. -/
def splitNumber (d : Char) (rest : Text) : Piece × Text :=
  let whole := rest.takeWhile CodePoint.isDigit
  match rest.dropWhile CodePoint.isDigit with
  | .scalar '.' :: e :: after =>
    if e.isDigit then
      (token .number (.scalar d :: whole ++ .scalar '.' :: e :: after.takeWhile CodePoint.isDigit),
        after.dropWhile CodePoint.isDigit)
    else (token .number (.scalar d :: whole), .scalar '.' :: e :: after)
  | more => (token .number (.scalar d :: whole), more)

/-- After the word start `c`: the rest of the word, a keyword or an identifier. -/
def splitWord (c : Char) (rest : Text) : Piece × Text :=
  let word := .scalar c :: rest.takeWhile isWordChar
  (token (TokenKind.ofWord word) word, rest.dropWhile isWordChar)

/-- The piece that starts with the character `c`, followed by `rest`, and what remains after it. -/
def splitChar (c : Char) (rest : Text) : Piece × Text :=
  match TokenKind.ofSingle? c, TokenKind.ofOperator? c with
  | some kind, _ => (token kind [.scalar c], rest)
  | none, some (alone, withEqual) =>
    match rest with
    | .scalar '=' :: more => (token withEqual [.scalar c, .scalar '='], more)
    | _ => (token alone [.scalar c], rest)
  | none, none =>
    if c = '/' then splitSlash rest
    else if c = '"' then splitString rest
    else if c = ' ' ∨ c = '\r' ∨ c = '\t' then (blank c, rest)
    else if c = '\n' then (newline, rest)
    else if c.isDigit then splitNumber c rest
    else if isWordStart c then splitWord c rest
    else (stray (.scalar c), rest)

/-- The piece that starts with `c`, followed by `rest`, and what remains after it. A surrogate
starts no token. -/
def split (c : CodePoint) (rest : Text) : Piece × Text :=
  match c with
  | .scalar ch => splitChar ch rest
  | .surrogate _ => (stray c, rest)

/-! ### What remains is never longer -/

theorem dropWhile_length_le (p : CodePoint → Bool) (l : Text) :
    (l.dropWhile p).length ≤ l.length :=
  (List.dropWhile_suffix p).length_le

theorem length_throughNewline_le (l : Text) : (throughNewline l).2.length ≤ l.length := by
  induction l with
  | nil => simp [throughNewline]
  | cons c rest ih =>
    simp only [throughNewline]
    split
    · simp
    · simp only [List.length_cons]
      omega

theorem length_splitSlash_le (rest : Text) : (splitSlash rest).2.length ≤ rest.length := by
  unfold splitSlash
  split
  · have := length_throughNewline_le ‹List CodePoint›
    simp; omega
  · simp

theorem length_splitString_le (rest : Text) : (splitString rest).2.length ≤ rest.length := by
  unfold splitString
  have := dropWhile_length_le isStringChar rest
  split
  · rename_i h
    rw [h] at this
    simp at this ⊢; omega
  · simp

theorem length_splitNumber_le (d : Char) (rest : Text) :
    (splitNumber d rest).2.length ≤ rest.length := by
  unfold splitNumber
  have hr := dropWhile_length_le CodePoint.isDigit rest
  split
  · rename_i e after h
    have ha := dropWhile_length_le CodePoint.isDigit after
    rw [h] at hr
    simp only [List.length_cons] at hr
    split <;> simp <;> omega
  · simpa

theorem length_splitWord_le (c : Char) (rest : Text) :
    (splitWord c rest).2.length ≤ rest.length :=
  dropWhile_length_le isWordChar rest

theorem length_splitChar_le (c : Char) (rest : Text) :
    (splitChar c rest).2.length ≤ rest.length := by
  unfold splitChar
  split
  · simp
  · split <;> simp
  · repeat' split
    all_goals first
      | exact length_splitSlash_le rest
      | exact length_splitString_le rest
      | exact length_splitNumber_le c rest
      | exact length_splitWord_le c rest
      | simp

/-- A step never leaves more than it was given. -/
theorem length_split_le (c : CodePoint) (rest : Text) : (split c rest).2.length ≤ rest.length := by
  cases c with
  | scalar ch => exact length_splitChar_le ch rest
  | surrogate _ => exact Nat.le_refl _

end Piece

end LoxLexer
