import LoxLexer.Binary64.Basic
import LoxLexer.Decimal.Basic

/-!
# The shortest decimal that reads back

A positive finite binary64 value `m * 2 ^ q` stands for an interval of reals: those that round to
it. The interval runs from halfway to the next value below to halfway to the next value above,
and its ends belong to it exactly when `m` is even, since a tie goes to the even significand.
Below a power of two the next value down is half as far as the next value up.

`Decimal.shortest` selects the decimal with the fewest significant digits in that interval and,
among those, the one nearest the value, a tie going to even digits. For `n = 1, 2, …` it looks at
the grid of decimals with `n` significant digits. If some point of a grid lies in the interval,
then one of the two grid points around the value does, and the nearer of those is the nearest
point of that grid in the interval. So only the two neighbours of the value need testing, and
the first grid with a hit wins. Seventeen digits always suffice for binary64.

## Main definitions

* `Decimal.roundsTo`: whether a decimal lies in the interval of a value.
* `Decimal.shortest`: the selected decimal, with no trailing zero.
-/

namespace LoxLexer.Decimal

-- Powers use the core instance whether or not Mathlib is in scope (see `Binary64`).
attribute [local instance (high)] instPowNat

/-- Does `d` lie among the reals that round to the positive value `m * 2 ^ q`? When `narrow`
holds, the next value below is half as far away as the next value above. The bounds are
`(4m ∓ 2) * 2 ^ (q - 2)`, or `(4m - 1) * 2 ^ (q - 2)` below when `narrow` holds. -/
def roundsTo (m : Nat) (q : Int) (narrow : Bool) (d : Decimal) : Bool :=
  let lo := if narrow then 4 * m - 1 else 4 * m - 2
  let closed := m % 2 == 0
  let below := compareDyadic d.digits d.exponent lo (q - 2)
  let above := compareDyadic d.digits d.exponent (4 * m + 2) (q - 2)
  (below == .gt || (closed && below == .eq)) && (above == .lt || (closed && above == .eq))

/-- The least `k` with `m * 2 ^ q < 10 ^ k`, for positive `m`: the decimal exponent just above
the leading digit. Below one it counts the zeros after the point, through `⌊(2 ^ s - 1) / m⌋`. -/
def scaleOf (m : Nat) (q : Int) : Int :=
  if 0 ≤ q then (length (m * 2 ^ q.toNat) : Int)
  else if 2 ^ (-q).toNat ≤ m then (length (m / 2 ^ (-q).toNat) : Int)
  else 1 - (length ((2 ^ (-q).toNat - 1) / m) : Int)

/-- `⌊m * 2 ^ q / 10 ^ j⌋`: the grid point of `10 ^ j` at or below the value. -/
def floorOnGrid (m : Nat) (q j : Int) : Nat :=
  (m * 2 ^ q.toNat * 10 ^ (-j).toNat) / (2 ^ (-q).toNat * 10 ^ j.toNat)

/-- On the grid `10 ^ j`, the point in the interval of `m * 2 ^ q` nearest the value, if there is
one. Only the two grid points around the value are tried; of two hits the nearer wins, and an
exact tie goes to the even one. -/
def nearestOnGrid (m : Nat) (q : Int) (narrow : Bool) (j : Int) : Option Decimal :=
  let c := floorOnGrid m q j
  let down : Decimal := ⟨c, j⟩
  let up : Decimal := ⟨c + 1, j⟩
  match roundsTo m q narrow down, roundsTo m q narrow up with
  | true, true =>
    -- compare the midpoint of the two grid points with the value
    match compareDyadic (2 * c + 1) j (2 * m) q with
    | .gt => some down
    | .lt => some up
    | .eq => if c % 2 = 0 then some down else some up
  | true, false => some down
  | false, true => some up
  | false, false => none

/-- The decimal with the fewest significant digits among those that round to the positive value
`m * 2 ^ q`, the nearest of them to the value, with no trailing zero. -/
def shortest (m : Nat) (q : Int) (narrow : Bool) : Decimal :=
  let k := scaleOf m q
  let found := (List.range 17).findSome? fun (i : Nat) => nearestOnGrid m q narrow (k - ((i + 1 : Nat) : Int))
  strip (found.getD ⟨floorOnGrid m q (k - 17), k - 17⟩)

end LoxLexer.Decimal

namespace LoxLexer.Binary64

-- Powers use the core instance whether or not Mathlib is in scope (see `Binary64`).
attribute [local instance (high)] instPowNat

/-- The shortest decimal that reads back as the magnitude of the finite value with the given
fields, for a non-zero value. -/
def shortestMagnitude (exponent : Fin 2047) (fraction : Fin (2 ^ (52 : Nat))) : Decimal :=
  Decimal.shortest (significand exponent fraction) (scale exponent)
    (fraction.val = 0 && 1 < exponent.val)

-- 0.1, 0.1 + 0.2, the largest finite value and the least subnormal
example : shortestMagnitude 1019 ⟨0x999999999999A, by decide⟩ = ⟨1, -1⟩ := by decide +kernel
example : shortestMagnitude 1021 ⟨0x3333333333334, by decide⟩ = ⟨30000000000000004, -17⟩ := by
  decide +kernel
example : shortestMagnitude 2046 ⟨2 ^ 52 - 1, by decide⟩ = ⟨17976931348623157, 292⟩ := by decide +kernel
example : shortestMagnitude 0 1 = ⟨5, -324⟩ := by decide +kernel

end LoxLexer.Binary64
