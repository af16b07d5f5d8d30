import LoxLexer.Binary64.Round
import LoxLexer.Decimal.Basic
import LoxLexer.Text.DecimalDigit
import LoxLexer.Text.CodePoint

/-!
# Reading numbers

Two readers produce binary64 values from text, both rounding the exact decimal value once, to
nearest with ties to even (`Binary64.ofScientific`).

* `Binary64.ofNumeral` reads a numeral of the language: ASCII digits with an optional fraction,
  of any length, leading zeros allowed.
* `Binary64.ofText?` reads number text of the wider grammar used when a token is built by hand:
  surrounding blanks, a sign, `inf`, `infinity` or `nan` in any case, or digits with an optional
  point and fraction and an optional exponent, where single underscores may stand between digits.
  Decimal digits and blanks of any script stand for their ASCII forms.
-/

namespace LoxLexer.Binary64

-- Powers use the core instance whether or not Mathlib is in scope (see `Binary64`).
attribute [local instance (high)] instPowNat

/-- The value of a list of ASCII digits, most significant first. -/
def digitsValue (ds : List Char) : Nat :=
  ds.foldl (fun n c => 10 * n + (c.toNat - '0'.toNat)) 0

/-- The binary64 value nearest to `m * 10 ^ e`. A value whose decimal length puts it far above the
largest finite value or far below half the least subnormal one is settled without forming its
power of ten. -/
def ofScientific (m : Nat) (e : Int) : Binary64 :=
  if m = 0 then zero
  else
    -- `m * 10 ^ e < 10 ^ top` and `10 ^ (top - 1) ≤ m * 10 ^ e`
    let top := (Decimal.length m : Int) + e
    if 310 < top then infinity false
    else if top < -330 then zero
    else if 0 ≤ e then ofRatio (m * 10 ^ e.toNat) 1
    else ofRatio m (10 ^ (-e).toNat)

/-- The value of a numeral with the digits `whole` before the point and `fraction` after it. -/
def ofNumeral (whole fraction : List Char) : Binary64 :=
  ofScientific (digitsValue (whole ++ fraction)) (-(fraction.length : Int))

/-! ### Number text -/

/-- The ASCII form of a text: a blank beyond ASCII becomes a space and a decimal digit beyond
ASCII its ASCII digit. Any other code point from U+007F up, surrogates included, makes the text
unreadable. -/
def asciiForm? (cs : Text) : Option (List Char) :=
  cs.mapM fun
    | .surrogate _ => none
    | .scalar c =>
      if c.toNat < 127 then some c
      else if Unicode.isBlank c then some ' '
      else (Unicode.decimalDigit? c).map fun d => Char.ofNat (48 + d)

/-- The ASCII blanks that surround number text: space, tab, line feed, vertical tab, form feed and
carriage return. -/
def isAsciiBlank (c : Char) : Bool :=
  c == ' ' || ('\t' ≤ c && c ≤ '\r')

/-- The text without its leading and trailing ASCII blanks. -/
def trimBlanks (cs : List Char) : List Char :=
  ((cs.dropWhile isAsciiBlank).reverse.dropWhile isAsciiBlank).reverse

/-- The text without its underscores, each of which must stand between two digits; `none`
otherwise. `prev` is the character before the text, if any. -/
def dropUnderscores? (prev : Option Char) : List Char → Option (List Char)
  | [] => if prev = some '_' then none else some []
  | c :: rest =>
    if c = '_' then
      if prev.any Char.isDigit then dropUnderscores? (some '_') rest else none
    else if prev = some '_' ∧ !c.isDigit then none
    else (dropUnderscores? (some c) rest).map (c :: ·)

/-- An exponent: an optional sign and at least one digit, and nothing after them. -/
def exponent? (cs : List Char) : Option Int :=
  let (negative, ds) : Bool × List Char := match cs with
    | '-' :: rest => (true, rest)
    | '+' :: rest => (false, rest)
    | rest => (false, rest)
  if ds.isEmpty || !ds.all Char.isDigit then none
  else if negative then some (-(digitsValue ds : Int))
  else some (digitsValue ds)

/-- A decimal: digits, an optional point and fraction digits, at least one digit in all, and an
optional exponent marked `e` or `E`. -/
def decimal? (cs : List Char) : Option Binary64 :=
  let (whole, afterWhole) := cs.span Char.isDigit
  let (fraction, afterFraction) := match afterWhole with
    | '.' :: rest => rest.span Char.isDigit
    | rest => ([], rest)
  if whole.isEmpty && fraction.isEmpty then none
  else
    let exp? : Option Int := match afterFraction with
      | [] => some 0
      | c :: rest => if c = 'e' ∨ c = 'E' then exponent? rest else none
    exp?.map fun e => ofScientific (digitsValue (whole ++ fraction)) (e - fraction.length)

/-- A signed number: an optional sign, then `inf`, `infinity` or `nan` in any case, or a decimal. -/
def signed? (cs : List Char) : Option Binary64 :=
  let (negative, body) : Bool × List Char := match cs with
    | '-' :: rest => (true, rest)
    | '+' :: rest => (false, rest)
    | rest => (false, rest)
  let word := String.ofList (body.map Char.toLower)
  let value? :=
    if word = "inf" ∨ word = "infinity" then some (infinity false)
    else if word = "nan" then some nan
    else decimal? body
  value?.map fun x => if negative then x.negate else x

/-- Reads number text, or `none` when the text is no number. -/
def ofText? (s : Text) : Option Binary64 := do
  let cs ← asciiForm? s
  let cs ← dropUnderscores? none (trimBlanks cs)
  signed? cs

example : ofText? (Text.ofString " 1_000.5e-3 ") = ofText? (Text.ofString "1.0005") := by
  decide +kernel
example : ofText? (Text.ofString "-0") = some (finite true 0 0) := by decide +kernel
example : ofText? (Text.ofString "1e400") = some (infinity false) ∧
    ofText? (Text.ofString "-Infinity") = some (infinity true) := by
  decide +kernel
example : ofText? (Text.ofString "1__0") = none ∧ ofText? (Text.ofString "1e") = none ∧
    ofText? (Text.ofString ".") = none ∧ ofText? [.scalar '1', .surrogate 0] = none := by
  decide +kernel

end LoxLexer.Binary64
