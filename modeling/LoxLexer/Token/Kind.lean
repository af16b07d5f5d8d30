import LoxLexer.Text.CodePoint

/-!
# Token kinds

The kinds of token of the language: single characters, operators of one or two characters,
literals, the sixteen keywords, and the end of input. Each kind has a name in upper snake case,
the name under which it is printed and looked up, and a keyword is spelt as its name in lower case.

## Main definitions

* `TokenKind`: the kinds.
* `TokenKind.name`, `TokenKind.ofName?`: names, and the kind of a name.
* `TokenKind.ofSingle?`, `TokenKind.ofOperator?`: the kinds a character starts.
* `TokenKind.ofWord`: the kind of a word, a keyword or an identifier.
-/

namespace LoxLexer

/-- The kind of a token. -/
inductive TokenKind where
  | leftParen | rightParen | leftBrace | rightBrace | comma | dot | minus | plus | semicolon
  | slash | star
  | bang | bangEqual | equal | equalEqual | greater | greaterEqual | less | lessEqual
  | identifier | string | number
  | and | «class» | «else» | false | «fun» | «for» | «if» | nil | or | print | «return» | super
  | this | true | var | «while»
  | eof
deriving DecidableEq, Repr

namespace TokenKind

/-- The name of a kind, in upper snake case. -/
def name : TokenKind → String
  | leftParen => "LEFT_PAREN"
  | rightParen => "RIGHT_PAREN"
  | leftBrace => "LEFT_BRACE"
  | rightBrace => "RIGHT_BRACE"
  | comma => "COMMA"
  | dot => "DOT"
  | minus => "MINUS"
  | plus => "PLUS"
  | semicolon => "SEMICOLON"
  | slash => "SLASH"
  | star => "STAR"
  | bang => "BANG"
  | bangEqual => "BANG_EQUAL"
  | equal => "EQUAL"
  | equalEqual => "EQUAL_EQUAL"
  | greater => "GREATER"
  | greaterEqual => "GREATER_EQUAL"
  | less => "LESS"
  | lessEqual => "LESS_EQUAL"
  | identifier => "IDENTIFIER"
  | string => "STRING"
  | number => "NUMBER"
  | and => "AND"
  | «class» => "CLASS"
  | «else» => "ELSE"
  | false => "FALSE"
  | «fun» => "FUN"
  | «for» => "FOR"
  | «if» => "IF"
  | nil => "NIL"
  | or => "OR"
  | print => "PRINT"
  | «return» => "RETURN"
  | super => "SUPER"
  | this => "THIS"
  | true => "TRUE"
  | var => "VAR"
  | «while» => "WHILE"
  | eof => "EOF"

/-- The keywords, in the order of the language's definition. -/
def keywords : List TokenKind :=
  [and, «class», «else», false, «fun», «for», «if», nil, or, print, «return», super, this, true,
   var, «while»]

/-- Every kind, in the order of the language's definition. -/
def all : List TokenKind :=
  [leftParen, rightParen, leftBrace, rightBrace, comma, dot, minus, plus, semicolon, slash, star,
   bang, bangEqual, equal, equalEqual, greater, greaterEqual, less, lessEqual,
   identifier, string, number] ++ keywords ++ [eof]

/-- The kind with the given name, if there is one. Names are matched exactly. -/
def ofName? (s : Text) : Option TokenKind :=
  all.find? (Text.ofString ·.name = s)

/-- How a keyword is spelt in source text: its name in lower case. -/
def spelling (k : TokenKind) : String :=
  k.name.toLower

/-- The kind of a word: the keyword spelt so, or an identifier. -/
def ofWord (w : Text) : TokenKind :=
  (keywords.find? (Text.ofString ·.spelling = w)).getD identifier

/-- The kind of a token made of the single character `c`, for the ten characters that always
stand alone: `( ) { } , . - + ; *`. -/
def ofSingle? : Char → Option TokenKind
  | '(' => some leftParen
  | ')' => some rightParen
  | '{' => some leftBrace
  | '}' => some rightBrace
  | ',' => some comma
  | '.' => some dot
  | '-' => some minus
  | '+' => some plus
  | ';' => some semicolon
  | '*' => some star
  | _ => none

/-- For the four operators `! = < >`: the kind of the operator alone, and of the operator followed
by `=`. -/
def ofOperator? : Char → Option (TokenKind × TokenKind)
  | '!' => some (bang, bangEqual)
  | '=' => some (equal, equalEqual)
  | '<' => some (less, lessEqual)
  | '>' => some (greater, greaterEqual)
  | _ => none

example : all.length = 39 ∧ keywords.length = 16 := by decide
example : ofName? (Text.ofString "LESS_EQUAL") = some lessEqual ∧
    ofName? (Text.ofString "lparen") = none := by
  decide +kernel
example : ofWord (Text.ofString "while") = «while» ∧ ofWord (Text.ofString "While") = identifier ∧
    ofWord (Text.ofString "whilex") = identifier := by
  decide +kernel

end TokenKind

end LoxLexer
