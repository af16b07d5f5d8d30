import LoxLexer.Decimal.Shortest

/-!
# Writing binary64 values

A finite non-zero value is written with the digits of its shortest decimal (`Decimal.shortest`).
How the digits are laid out is a matter of notation, given by a `Notation` record: which decimal
exponents of the leading digit are written positionally, how many exponent digits are written at
least, and the texts of NaN and of infinity.

Two choices are fixed for every notation here: a positional number always shows a fractional
digit (`12.0`), and the sign of zero is written (`-0.0`). A number in exponent form shows a point
only when it has more than one digit (`1e+16`, `1.5e-07`), and its exponent always has a sign.
-/

namespace LoxLexer

/-- How numbers are written. -/
structure Notation where
  /-- The least decimal exponent of the leading digit that is written positionally. -/
  plainFrom : Int
  /-- From this decimal exponent of the leading digit up, numbers are written with an exponent. -/
  plainBelow : Int
  /-- The least number of digits of a written exponent. -/
  exponentWidth : Nat
  /-- The text of NaN. -/
  nan : String
  /-- The text of infinity, after its sign. -/
  infinity : String

namespace Notation

/-- `n` zeros. -/
def zeros (n : Nat) : List Char := List.replicate n '0'

/-- The digits `ds`, the first of them non-zero and the last non-zero, whose leading digit has the
decimal exponent `e`, laid out in the notation. -/
def layout (nt : Notation) (ds : List Char) (e : Int) : List Char :=
  if nt.plainFrom ≤ e ∧ e < nt.plainBelow then
    if e < 0 then '0' :: '.' :: zeros (-e - 1).toNat ++ ds
    else if ds.length ≤ e.toNat + 1 then ds ++ zeros (e.toNat + 1 - ds.length) ++ ['.', '0']
    else ds.take (e.toNat + 1) ++ '.' :: ds.drop (e.toNat + 1)
  else
    let mantissa := match ds with
      | [] => []
      | [d] => [d]
      | d :: rest => d :: '.' :: rest
    let power := Nat.toDigits 10 e.natAbs
    mantissa ++ 'e' :: (if e < 0 then '-' else '+') ::
      zeros (nt.exponentWidth - power.length) ++ power

/-- The text of a binary64 value in the notation. -/
def render (nt : Notation) : Binary64 → String
  | .nan => nt.nan
  | .infinity negative => (if negative then "-" else "") ++ nt.infinity
  | .finite negative exponent fraction =>
    let sign := if negative then "-" else ""
    if exponent.val = 0 ∧ fraction.val = 0 then sign ++ "0.0"
    else
      let d := Binary64.shortestMagnitude exponent fraction
      let ds := Nat.toDigits 10 d.digits
      sign ++ String.ofList (nt.layout ds (d.exponent + ds.length - 1))

end Notation

end LoxLexer
