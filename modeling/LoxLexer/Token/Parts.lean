import LoxLexer.Token.Basic
import LoxLexer.Decimal.Reader
import LoxLexer.Text.Quoted

/-!
# Tokens from their parts

A token can also be put together by hand, from the name of its kind, a lexeme, a literal and a
line. A number literal is given as number text and read with `Binary64.ofText?`, and then the kind
is looked up by its exact name. Unreadable number text or an unknown name is a `PartsFault`, whose
message shows the offending text in its quoted form.
-/

namespace LoxLexer

/-- A literal as given by hand: none, a text, or the text of a number. -/
inductive LiteralText where
  /-- No literal. -/
  | absent
  /-- A text literal. -/
  | text (s : Text)
  /-- A number literal, written as number text. -/
  | number (s : Text)
deriving DecidableEq, Repr

/-- Why a token could not be put together. -/
inductive PartsFault where
  /-- No kind has this name. -/
  | unknownKind (name : Text)
  /-- This text is no number. -/
  | notANumber (text : Text)
deriving DecidableEq, Repr

/-- The message of a fault: the unknown name quoted, or the unreadable number text quoted after
an explanation. -/
def PartsFault.message : PartsFault → Text
  | .unknownKind name => name.quote
  | .notANumber text => Text.ofString "could not convert string to float: " ++ text.quote

/-- The literal given by hand, with its number text read. -/
def LiteralText.toLiteral : LiteralText → Except PartsFault Literal
  | .absent => .ok .absent
  | .text s => .ok (.text s)
  | .number s =>
    match Binary64.ofText? s with
    | some x => .ok (.number x)
    | none => .error (.notANumber s)

/-- The token with the kind of the given name, the lexeme, the literal and the line. The literal
is read before the kind is looked up, so unreadable number text is reported even when the name is
unknown too. -/
def Token.ofParts (name lexeme : Text) (literal : LiteralText) (line : Nat) :
    Except PartsFault Token := do
  let value ← literal.toLiteral
  match TokenKind.ofName? name with
  | none => .error (.unknownKind name)
  | some kind => pure ⟨kind, lexeme, value, line⟩

end LoxLexer
