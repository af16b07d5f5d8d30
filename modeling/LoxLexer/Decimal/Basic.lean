/-!
# Decimals

A `Decimal` is the number `digits * 10 ^ exponent`. This file holds the type and the exact
arithmetic that the selection of shortest digits and the reading of numerals share: the length
of a natural in decimal digits, the removal of trailing zeros, and the exact comparison of a
decimal with a dyadic number.
-/

namespace LoxLexer

-- Powers use the core instance whether or not Mathlib is in scope (see `Binary64`).
attribute [local instance (high)] instPowNat

/-- The number `digits * 10 ^ exponent`. -/
structure Decimal where
  /-- The digits, as one natural. -/
  digits : Nat
  /-- The power of ten that scales them. -/
  exponent : Int
deriving DecidableEq, Repr

namespace Decimal

/-- The number of decimal digits of `n`; zero is written with one digit. -/
def length (n : Nat) : Nat :=
  if n < 10 then 1 else length (n / 10) + 1

/-- The same number with no trailing zero in its digits: a factor ten moves into the exponent. -/
def strip (d : Decimal) : Decimal :=
  if d.digits ≠ 0 ∧ d.digits % 10 = 0 then strip ⟨d.digits / 10, d.exponent + 1⟩ else d
termination_by d.digits
decreasing_by omega

/-- Compares `a * 10 ^ i` with `b * 2 ^ j`, exactly: both sides are brought to naturals by moving
each negative power to the other side. -/
def compareDyadic (a : Nat) (i : Int) (b : Nat) (j : Int) : Ordering :=
  compare (a * 10 ^ i.toNat * 2 ^ (-j).toNat) (b * 2 ^ j.toNat * 10 ^ (-i).toNat)

theorem length_pos (n : Nat) : 0 < length n := by
  unfold length
  split <;> omega

example : length 0 = 1 ∧ length 9 = 1 ∧ length 10 = 2 ∧ length 12345 = 5 := by decide +kernel
example : strip ⟨1200, -3⟩ = ⟨12, -1⟩ := by decide +kernel

end Decimal

end LoxLexer
