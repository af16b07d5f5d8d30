/-!
# Code points and texts

The language's texts are sequences of Unicode code points. A code point is a Unicode scalar value,
which is what a `Char` holds, or a surrogate code point from U+D800 to U+DFFF standing alone.
Surrogates are not characters and have no UTF-8 form, but the language's strings may hold them.
In a scan a surrogate is like any other character that starts no token.

## Main definitions

* `CodePoint`: a scalar value or a lone surrogate, with its number `CodePoint.toNat`.
* `Text`: a list of code points. `Text.ofString` gives the texts that a `String` can hold.
-/

namespace LoxLexer

/-- A Unicode code point: a scalar value, or a surrogate standing alone. -/
inductive CodePoint where
  /-- A Unicode scalar value. -/
  | scalar (c : Char)
  /-- The surrogate code point U+D800 + `offset`. -/
  | surrogate (offset : Fin 0x800)
deriving DecidableEq, Repr

namespace CodePoint

/-- The first surrogate code point. -/
def surrogateBase : Nat := 0xD800

/-- The number of a code point. -/
def toNat : CodePoint → Nat
  | scalar c => c.toNat
  | surrogate o => surrogateBase + o.val

/-- The code point with the given number. Numbers from U+D800 to U+DFFF are surrogates, and a
number beyond U+10FFFF gives U+0000. -/
def ofNat (n : Nat) : CodePoint :=
  if h : surrogateBase ≤ n ∧ n < surrogateBase + 0x800 then
    surrogate ⟨n - surrogateBase, by omega⟩
  else scalar (Char.ofNat n)

/-- The character of a code point, unless it is a surrogate. -/
def toChar? : CodePoint → Option Char
  | scalar c => some c
  | surrogate _ => none

/-- Whether a code point is an ASCII digit. -/
def isDigit : CodePoint → Bool
  | scalar c => c.isDigit
  | surrogate _ => false

/-- No surrogate has the number of a character. -/
theorem toNat_surrogate_ne (o : Fin 0x800) (c : Char) : (surrogate o).toNat ≠ c.toNat := by
  have hc := c.valid
  simp only [toNat, surrogateBase]
  rw [Char.toNat, UInt32.isValidChar, Nat.isValidChar] at *
  rcases hc with hc | ⟨hc, _⟩ <;> omega

example : ofNat 0x41 = scalar 'A' ∧ ofNat 0xDC00 = surrogate ⟨0x400, by decide⟩ := by decide

end CodePoint

/-- A text: a sequence of code points. -/
abbrev Text := List CodePoint

namespace Text

/-- The text of a string. -/
def ofString (s : String) : Text := s.toList.map .scalar

/-- The string of a text, where each surrogate, which a string cannot hold, becomes U+FFFD. -/
def toStringLossy (t : Text) : String :=
  String.ofList (t.map fun c => c.toChar?.getD '�')

/-- The characters of a text, leaving out its surrogates. -/
def chars (t : Text) : List Char := t.filterMap CodePoint.toChar?

@[simp] theorem chars_ofString (s : String) : chars (ofString s) = s.toList := by
  simp [chars, ofString, Function.comp_def, CodePoint.toChar?]

end Text

end LoxLexer
