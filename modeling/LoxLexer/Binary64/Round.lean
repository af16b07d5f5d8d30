import LoxLexer.Binary64.Basic

/-!
# Rounding a ratio to binary64

`Binary64.ofRatio num den` is the binary64 value nearest to the non-negative rational
`num / den`, a tie going to the value with the even significand, and magnitudes from
`2 ^ 1024 - 2 ^ 970` up going to infinity. This is the rounding of IEEE 754 in its default mode.

The computation is exact. The binade of the ratio is found from the binary lengths of `num` and
`den`, corrected by one exact comparison (`log2Ratio`). The ratio is then scaled to the unit of
its last significand bit and rounded to an integer once (`roundDiv`). A carry into the next binade
and the subnormal range are settled by `ofScaled`.
-/

namespace LoxLexer.Binary64

-- Powers use the core instance whether or not Mathlib is in scope (see `Binary64`).
attribute [local instance (high)] instPowNat

/-- `num / den` rounded to the nearest natural number, a half going to the even neighbour. -/
def roundDiv (num den : Nat) : Nat :=
  let q := num / den
  let r := num % den
  if 2 * r < den then q
  else if den < 2 * r then q + 1
  else if q % 2 = 0 then q
  else q + 1

/-- The exponent of the largest power of two at most `num / den`, for positive `num` and `den`.
The ratio of the binary lengths is off by at most one, and one exact comparison settles it. -/
def log2Ratio (num den : Nat) : Int :=
  let e : Int := (Nat.log2 num : Int) - (Nat.log2 den : Int)
  if den * 2 ^ e.toNat ≤ num * 2 ^ (-e).toNat then e else e - 1

/-- The positive value `s * 2 ^ q`, where rounding left `s ≤ 2 ^ 53` and `q ≥ -1074`, with
`s < 2 ^ 52` only when `q = -1074`. A significand that rounded up to `2 ^ 53` moves to the next
binade. -/
def ofScaled (s : Nat) (q : Int) : Binary64 :=
  if s = 2 ^ (53 : Nat) then ofFields (q + 1076).toNat (2 ^ (52 : Nat))
  else if s < 2 ^ (52 : Nat) then ofFields 0 s
  else ofFields (q + 1075).toNat s

/-- The binary64 value nearest to `num / den`, for positive `den`; a tie goes to the even
significand, and magnitudes from `2 ^ 1024 - 2 ^ 970` up give positive infinity. -/
def ofRatio (num den : Nat) : Binary64 :=
  if num = 0 then zero
  else
    let e := log2Ratio num den
    if 1024 ≤ e then infinity false
    else
      -- the unit of the last significand bit: 53 bits for a normal value, fixed below
      let q := max e (-1022) - 52
      ofScaled (roundDiv (num * 2 ^ (-q).toNat) (den * 2 ^ q.toNat)) q

example : ofRatio 1 1 = finite false 1023 0 := by decide
example : ofRatio 3 2 = finite false 1023 ⟨2 ^ 51, by decide⟩ := by decide

end LoxLexer.Binary64
