import Mathlib.Control.Monad.Basic
import LoxLexer.Scan.Basic

/-!
# The lexer's cursor

The lexer reads its source by index. Its state holds `current`, the index of the last code point
it has consumed, which starts at `-1`, and `start`, the value `current` had when the token being
read began. `isAtEnd` holds once `current` reaches the last index. `advance` consumes the next
code point and returns it, `matchNext` consumes it only when it is the one expected, and `peek`
and `peekNext` look one and two code points ahead, giving NUL past the end. A comment is skipped
by looking at the code point at `current` itself. A token's lexeme is the slice from `start + 1`
through `current`, and a string's literal the slice from `start + 2` up to `current`.

One call of `scanToken` reads one token, blank, line feed, comment or stray code point, and the
loop `scanTokens` makes calls until the end, then adds the end-of-input token.

Every read is checked: an index outside the source, a slice that does not lie within it, and a
numeral that the reader of number text refuses each stop the lexer with a `Lexer.Fault`. (The
program raises an error for an index past the end, but reads a negative index from the back of
the source; here both are faults.) The loop has a budget of calls, and `lex` gives it one call
per code point. A run of `lex` that returns a state is therefore a run in which every read was
inside the source and that made at most as many calls as the source has code points.

## Main definitions

* `Lexer`: the state, and `Lexer.Fault`: why a run stops.
* `Lexer.scanToken`: one call; `Lexer.scanTokens`: the loop.
* `lex`: the lexer on a whole source.
-/

namespace LoxLexer

/-- The state of a lexer over a source. -/
structure Lexer where
  /-- The value of `current` when the token being read began. -/
  start : Int
  /-- The index of the last code point consumed. -/
  current : Int
  /-- The line the lexer is on. -/
  line : Nat
  /-- The tokens read so far, in order. -/
  tokens : List Token
  /-- The problems reported so far, in order. -/
  reports : List Diagnostic
deriving DecidableEq, Repr

namespace Lexer

/-- Why a run of the lexer stops without a result. -/
inductive Fault where
  /-- A code point was read at an index outside the source. -/
  | indexOutOfRange (index : Int)
  /-- A slice from `lo` up to `hi` does not lie within the source. -/
  | sliceOutOfRange (lo hi : Int)
  /-- The reader of number text refused a numeral. -/
  | notANumber (numeral : Text)
  /-- The loop needed more calls than its budget. -/
  | budgetSpent
deriving DecidableEq, Repr

/-- A lexer that has read nothing: `start` and `current` are `-1`, and the line is 1. -/
def initial : Lexer := ⟨-1, -1, 1, [], []⟩

/-- The code point NUL, which `peek` and `peekNext` give past the end. -/
def nul : CodePoint := .scalar '\x00'

section Reads

variable (source : Text)

/-- The code point at index `i`. -/
def read (i : Int) : Except Fault CodePoint :=
  if 0 ≤ i then
    match source[i.toNat]? with
    | some c => .ok c
    | none => .error (.indexOutOfRange i)
  else .error (.indexOutOfRange i)

example : read (Text.ofString "ab") (-1) = .error (.indexOutOfRange (-1)) := by decide

/-- The slice from index `lo` up to, and not including, index `hi`. -/
def slice (lo hi : Int) : Except Fault Text :=
  if 0 ≤ lo ∧ lo ≤ hi ∧ hi ≤ source.length then
    .ok ((source.drop lo.toNat).take (hi - lo).toNat)
  else .error (.sliceOutOfRange lo hi)

/-- Whether the last code point has been consumed. -/
def isAtEnd (lx : Lexer) : Bool := lx.current ≥ (source.length : Int) - 1

/-- Consumes the next code point and returns it. -/
def advance (lx : Lexer) : Except Fault (CodePoint × Lexer) := do
  let c ← read source (lx.current + 1)
  pure (c, { lx with current := lx.current + 1 })

/-- Consumes the next code point when it is `expected`, and tells whether it did. -/
def matchNext (expected : CodePoint) (lx : Lexer) : Except Fault (Bool × Lexer) :=
  if isAtEnd source lx then .ok (false, lx)
  else do
    let c ← read source (lx.current + 1)
    if c ≠ expected then pure (false, lx)
    else pure (true, { lx with current := lx.current + 1 })

/-- The next code point, which stays unconsumed; NUL at the end. -/
def peek (lx : Lexer) : Except Fault CodePoint :=
  if isAtEnd source lx then .ok nul else read source (lx.current + 1)

/-- The code point after the next; NUL when it lies past the end. -/
def peekNext (lx : Lexer) : Except Fault CodePoint :=
  if lx.current + 2 ≥ source.length then .ok nul else read source (lx.current + 2)

/-- Adds a token of the given kind and literal on the current line; its lexeme is the slice from
`start + 1` through `current`. -/
def addToken (kind : TokenKind) (literal : Literal) (lx : Lexer) : Except Fault Lexer := do
  let text ← slice source (lx.start + 1) (lx.current + 1)
  pure { lx with tokens := lx.tokens ++ [⟨kind, text, literal, lx.line⟩] }

/-- Reports a problem on the current line. -/
def report (problem : Problem) (lx : Lexer) : Lexer :=
  { lx with reports := lx.reports ++ [⟨lx.line, problem⟩] }

/-- Moves to the next line when `c` is a line feed. -/
def countLine (c : CodePoint) (lx : Lexer) : Lexer :=
  if c = .scalar '\n' then { lx with line := lx.line + 1 } else lx

theorem current_countLine (c : CodePoint) (lx : Lexer) : (countLine c lx).current = lx.current := by
  unfold countLine
  split <;> rfl

/-- A code point consumed lies inside the source, and it moves `current` on by one. The loops
below end because of it. -/
theorem current_advance {lx next : Lexer} {c : CodePoint} (h : advance source lx = .ok (c, next)) :
    next.current = lx.current + 1 ∧ next.current < source.length := by
  simp only [advance, read] at h
  split at h
  · split at h
    · cases h
      rename_i hget
      have hlt := (List.getElem?_eq_some_iff.mp hget).1
      exact ⟨rfl, show lx.current + 1 < source.length by omega⟩
    · cases h
  · cases h

/-- `while p(peek()): advance()`. -/
def advanceWhile (p : CodePoint → Bool) (lx : Lexer) : Except Fault Lexer :=
  match peek source lx with
  | .error f => .error f
  | .ok c =>
    if p c then
      match _h : advance source lx with
      | .ok (_, next) => advanceWhile p next
      | .error f => .error f
    else .ok lx
termination_by (source.length - lx.current).toNat
decreasing_by have := current_advance source _h; omega

/-- The rest of a comment: `while source[current] != '\n' and not isAtEnd(): advance()`. It
stops on a line feed once that is consumed. -/
def skipComment (lx : Lexer) : Except Fault Lexer :=
  match read source lx.current with
  | .error f => .error f
  | .ok c =>
    if c ≠ .scalar '\n' ∧ isAtEnd source lx = false then
      match _h : advance source lx with
      | .ok (_, next) => skipComment next
      | .error f => .error f
    else .ok lx
termination_by (source.length - lx.current).toNat
decreasing_by have := current_advance source _h; omega

/-- The body of a string: `while peek() != '"' and not isAtEnd()`, counting a line feed before
consuming it. -/
def stringLoop (lx : Lexer) : Except Fault Lexer :=
  match peek source lx with
  | .error f => .error f
  | .ok c =>
    if c ≠ .scalar '"' ∧ isAtEnd source lx = false then
      match peek source lx with
      | .error f => .error f
      | .ok c' =>
        match _h : advance source (countLine c' lx) with
        | .ok (_, next) => stringLoop next
        | .error f => .error f
    else .ok lx
termination_by (source.length - lx.current).toNat
decreasing_by have := current_advance source _h; rw [current_countLine] at this; omega

/-- After the opening quote: the body, then the closing quote, with the text between the quotes
as the literal. A string still open at the end is reported on the line where the source ends. -/
def readString (lx : Lexer) : Except Fault Lexer := do
  let lx ← stringLoop source lx
  if isAtEnd source lx then pure (report .unterminated lx)
  else
    let (_, lx) ← advance source lx
    let value ← slice source (lx.start + 2) lx.current
    addToken source .string (.text value) lx

/-- A point followed by a digit, then the digits after the point. -/
def readFraction (lx : Lexer) : Except Fault Lexer := do
  let c ← peek source lx
  if c = .scalar '.' then
    let d ← peekNext source lx
    if d.isDigit then
      let (_, lx) ← advance source lx
      advanceWhile source CodePoint.isDigit lx
    else pure lx
  else pure lx

/-- Adds a number token, whose literal is what the reader of number text makes of the numeral
from `start + 1` through `current`. -/
def addNumber (lx : Lexer) : Except Fault Lexer := do
  let numeral ← slice source (lx.start + 1) (lx.current + 1)
  match Binary64.ofText? numeral with
  | some x => addToken source .number (.number x) lx
  | none => .error (.notANumber numeral)

/-- After the first digit: the rest of the digits and the fraction, then the token. -/
def readNumber (lx : Lexer) : Except Fault Lexer := do
  let lx ← advanceWhile source CodePoint.isDigit lx
  let lx ← readFraction source lx
  addNumber source lx

/-- After the first letter: the rest of the word, a keyword or an identifier. -/
def readIdentifier (lx : Lexer) : Except Fault Lexer := do
  let lx ← advanceWhile source isWordChar lx
  let lexeme ← slice source (lx.start + 1) (lx.current + 1)
  addToken source (TokenKind.ofWord lexeme) .absent lx

/-- One call: consume a code point and read what it starts. -/
def scanToken (lx : Lexer) : Except Fault Lexer := do
  let (c, lx) ← advance source lx
  match c with
  | .surrogate _ => pure (report (.unexpected c) lx)
  | .scalar ch =>
    match TokenKind.ofSingle? ch, TokenKind.ofOperator? ch with
    | some kind, _ => addToken source kind .absent lx
    | none, some (alone, withEqual) =>
      let (matched, lx) ← matchNext source (.scalar '=') lx
      addToken source (if matched then withEqual else alone) .absent lx
    | none, none =>
      if ch = '/' then
        let (matched, lx) ← matchNext source (.scalar '/') lx
        if matched then skipComment source lx else addToken source .slash .absent lx
      else if ch = '"' then readString source lx
      else if ch = ' ' ∨ ch = '\r' ∨ ch = '\t' then pure lx
      else if ch = '\n' then pure { lx with line := lx.line + 1 }
      else if ch.isDigit then readNumber source lx
      else if isWordStart ch then readIdentifier source lx
      else pure (report (.unexpected c) lx)

/-- The loop: until the end, `start` is set to `current` and `scanToken` is called, at most
`budget` times; then the end-of-input token is added on the last line. -/
def scanTokens : Nat → Lexer → Except Fault Lexer
  | budget, lx =>
    if isAtEnd source lx then .ok { lx with tokens := lx.tokens ++ [Token.eof lx.line] }
    else
      match budget with
      | 0 => .error .budgetSpent
      | budget + 1 => do
        let lx ← scanToken source { lx with start := lx.current }
        scanTokens budget lx

end Reads

end Lexer

/-- The lexer on a whole source, allowed one call of `scanToken` per code point. -/
def lex (source : Text) : Except Lexer.Fault Lexer :=
  Lexer.scanTokens source source.length Lexer.initial

example : (lex (Text.ofString "//x\ny")).map (·.tokens.map (·.line)) = .ok [1, 1] := by
  decide +kernel
example : (lex (Text.ofString "a\"b\n")).map (·.reports) = .ok [⟨2, .unterminated⟩] := by
  decide +kernel

end LoxLexer
