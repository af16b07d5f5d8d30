/-!
# Binary64 values

Numbers of the language are IEEE 754 binary64 values. The scanner never computes with them: it
reads a numeral into the nearest value and writes values back as text. A value is therefore kept
as the fields of its encoding, and everything done with it is exact arithmetic on naturals and
integers. No machine float is involved, so each statement about a value can be proved.

## Main definitions

* `Binary64`: a value, by class: NaN, an infinity, or a finite value given by its sign, biased
  exponent field and fraction field. Each value has exactly one such form.
* `Binary64.significand`, `Binary64.scale`: the magnitude of a finite value is
  `significand * 2 ^ scale`.
* `Binary64.ofFields`: the positive value with given exponent field and significand, or infinity
  once the exponent field passes the largest finite one.
-/

namespace LoxLexer

-- The lexer runs without Mathlib. Powers here use the core instance, and literal exponents are
-- typed, so that each definition is the same term whether or not Mathlib's `Monoid` instances
-- are in scope.
attribute [local instance (high)] instPowNat

/-- A binary64 value. A finite value is given by its sign, its biased exponent field (`0` for
zero and the subnormal values) and its 52-bit fraction field. -/
inductive Binary64 where
  /-- Not a number. Its sign and payload are never observed, so there is only one. -/
  | nan
  /-- The infinity of the given sign. -/
  | infinity (negative : Bool)
  /-- A finite value, zero included. -/
  | finite (negative : Bool) (exponent : Fin 2047) (fraction : Fin (2 ^ (52 : Nat)))
deriving DecidableEq, Repr

namespace Binary64

/-- Positive zero. -/
def zero : Binary64 := finite false 0 0

/-- The integer significand of a finite value with the given fields: the fraction, with the
hidden leading bit when the exponent field is not zero. -/
def significand (exponent : Fin 2047) (fraction : Fin (2 ^ (52 : Nat))) : Nat :=
  if exponent.val = 0 then fraction.val else 2 ^ (52 : Nat) + fraction.val

/-- The power of two that scales the significand of a finite value with the given exponent
field. Subnormal values share the scale of the least normal exponent. -/
def scale (exponent : Fin 2047) : Int :=
  if exponent.val = 0 then -1074 else (exponent.val : Int) - 1075

/-- The value with the opposite sign. NaN has no sign to change. -/
def negate : Binary64 → Binary64
  | nan => nan
  | infinity negative => infinity (!negative)
  | finite negative exponent fraction => finite (!negative) exponent fraction

/-- The positive value with exponent field `biased` and significand `s`, where `s` lies in
`[2 ^ 52, 2 ^ 53)` for a normal value and below `2 ^ 52` for `biased = 0`. An exponent field
past the largest finite one gives infinity. -/
def ofFields (biased s : Nat) : Binary64 :=
  if h : biased < 2047 then finite false ⟨biased, h⟩ ⟨s % 2 ^ (52 : Nat), Nat.mod_lt _ (by decide)⟩
  else infinity false

theorem significand_lt (exponent : Fin 2047) (fraction : Fin (2 ^ (52 : Nat))) :
    significand exponent fraction < 2 ^ (53 : Nat) := by
  have := fraction.isLt
  unfold significand
  split <;> omega

@[simp] theorem negate_negate (x : Binary64) : x.negate.negate = x := by
  cases x <;> simp [negate]

end Binary64

end LoxLexer
