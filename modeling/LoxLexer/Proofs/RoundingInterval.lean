import LoxLexer.Proofs.Rounding
import LoxLexer.Decimal.Shortest

/-!
# The rationals that round to a value

Rounding to nearest, ties to even, sends to a positive finite value `x = m * 2 ^ q` exactly the
rationals of an interval around it: from halfway towards the value below to halfway towards the
value above, each end included when `m` is even. The value above is `2 ^ q` away. So is the
value below, except at a power of two with a normal value below it, where the unit halves and the
value below is only `2 ^ (q - 1)` away. `Decimal.roundsTo` tests that interval with exact integer
comparisons, and `roundsFrom_iff_roundingInterval` shows that it is the set `RoundsFrom` speaks
of.

Inside the interval, `x` is the nearest point of the grid of its own unit, or of the finer grid
just below a power of two, and `nearestTo_of_grid` applies. Outside it, the neighbour on that side,
built by `ofScaled`, is nearer, or as near with an even significand where `m` is odd.

## Main definitions

* `Decimal.value`: the rational value of a decimal.
* `Binary64.RoundingInterval m q narrow r`: `r` lies in the interval of `m * 2 ^ q`.

## Main results

* `Decimal.roundsTo_iff`: `roundsTo` tests the interval.
* `Binary64.roundsFrom_iff_roundingInterval`: the interval is what rounds to the value.
-/

namespace LoxLexer

namespace Decimal

/-- The rational value of a decimal. -/
def value (d : Decimal) : ℚ := d.digits * 10 ^ d.exponent

@[simp] theorem value_mk (a : ℕ) (j : ℤ) : value ⟨a, j⟩ = a * 10 ^ j := rfl

/-- A positive decimal has positive digits. -/
theorem digits_pos {d : Decimal} (h : 0 < d.value) : 0 < d.digits := by
  by_contra h0
  rw [value, show d.digits = 0 by omega, Nat.cast_zero, zero_mul] at h
  exact lt_irrefl 0 h

/-- A power of ten with an integer exponent, as a ratio of two powers with natural exponents. -/
theorem ten_zpow_eq_div (i : ℤ) : (10 : ℚ) ^ i = 10 ^ i.toNat / 10 ^ (-i).toNat := by
  conv_lhs => rw [← Int.toNat_sub_toNat_neg i]
  rw [zpow_sub₀ (by norm_num), zpow_natCast, zpow_natCast]

/-- `compareDyadic` compares `a * 10 ^ i` with `b * 2 ^ j`. -/
theorem compareDyadic_eq (a : ℕ) (i : ℤ) (b : ℕ) (j : ℤ) :
    compareDyadic a i b j = compare ((a : ℚ) * 10 ^ i) ((b : ℚ) * 2 ^ j) := by
  -- both sides of the comparison in naturals are the rationals times one positive factor
  set P : ℚ := 10 ^ (-i).toNat * 2 ^ (-j).toNat with hP
  have hpos : 0 < P := by positivity
  have hl : ((a * 10 ^ i.toNat * 2 ^ (-j).toNat : ℕ) : ℚ) = a * 10 ^ i * P := by
    rw [ten_zpow_eq_div, hP]
    push_cast
    field_simp
  have hr : ((b * 2 ^ j.toNat * 10 ^ (-i).toNat : ℕ) : ℚ) = b * 2 ^ j * P := by
    rw [Binary64.two_zpow_eq_div, hP]
    push_cast
    field_simp
  unfold compareDyadic
  rcases lt_trichotomy ((a : ℚ) * 10 ^ i) ((b : ℚ) * 2 ^ j) with h | h | h
  · rw [compare_lt_iff_lt.mpr h, compare_lt_iff_lt, ← Nat.cast_lt (α := ℚ), hl, hr]
    exact mul_lt_mul_of_pos_right h hpos
  · rw [compare_eq_iff_eq.mpr h, compare_eq_iff_eq, ← Nat.cast_inj (R := ℚ), hl, hr, h]
  · rw [compare_gt_iff_gt.mpr h, compare_gt_iff_gt, ← Nat.cast_lt (α := ℚ), hl, hr]
    exact mul_lt_mul_of_pos_right h hpos

end Decimal

namespace Binary64

/-- How far below a positive finite value `m * 2 ^ q` its interval reaches: a quarter of the unit
at a power of two with a normal value below it, and half the unit otherwise. -/
def gapBelow (q : ℤ) (narrow : Bool) : ℚ := if narrow then 2 ^ (q - 2) else 2 ^ (q - 1)

/-- `r` rounds to the positive finite value `m * 2 ^ q`, as an interval: it lies less than half a
unit above the value and less than `gapBelow` below it, and may reach either end when `m` is
even. -/
def RoundingInterval (m : ℕ) (q : ℤ) (narrow : Bool) (r : ℚ) : Prop :=
  (m * 2 ^ q - gapBelow q narrow < r ∨ (m % 2 = 0 ∧ r = m * 2 ^ q - gapBelow q narrow)) ∧
    (r < m * 2 ^ q + 2 ^ (q - 1) ∨ (m % 2 = 0 ∧ r = m * 2 ^ q + 2 ^ (q - 1)))

theorem gapBelow_pos (q : ℤ) (narrow : Bool) : 0 < gapBelow q narrow := by
  unfold gapBelow
  split <;> positivity

theorem gapBelow_le (q : ℤ) (narrow : Bool) : gapBelow q narrow ≤ 2 ^ (q - 1) := by
  unfold gapBelow
  split
  · exact zpow_le_zpow_right₀ (by norm_num) (by omega)
  · exact le_rfl

/-- Quarters of the unit: `2 ^ q` is four of them and `2 ^ (q - 1)` two. -/
theorem zpow_quarters (q : ℤ) :
    (2 : ℚ) ^ q = 4 * 2 ^ (q - 2) ∧ (2 : ℚ) ^ (q - 1) = 2 * 2 ^ (q - 2) := by
  constructor
  · rw [show q = (q - 2) + 2 by ring, zpow_add₀ two_ne_zero]
    norm_num
    ring
  · rw [show q - 1 = (q - 2) + 1 by ring, zpow_add_one₀ two_ne_zero]
    ring

/-- The value lies in its own interval. -/
theorem roundingInterval_self (m : ℕ) (q : ℤ) (narrow : Bool) :
    RoundingInterval m q narrow (m * 2 ^ q) :=
  ⟨Or.inl (by linarith [gapBelow_pos q narrow]),
    Or.inl (by linarith [zpow_pos (two_pos (α := ℚ)) (q - 1)])⟩

/-- The interval is convex: it holds every rational between two of its members. -/
theorem RoundingInterval.of_le_of_le {m : ℕ} {q : ℤ} {narrow : Bool} {r r' s : ℚ}
    (hr : RoundingInterval m q narrow r) (hr' : RoundingInterval m q narrow r')
    (h1 : r ≤ s) (h2 : s ≤ r') : RoundingInterval m q narrow s := by
  constructor
  · rcases hr.1 with hlo | ⟨hev, hlo⟩
    · exact Or.inl (by linarith)
    · rcases h1.lt_or_eq with hlt | heq
      · exact Or.inl (by linarith)
      · exact Or.inr ⟨hev, by rw [← heq, hlo]⟩
  · rcases hr'.2 with hhi | ⟨hev, hhi⟩
    · exact Or.inl (by linarith)
    · rcases h2.lt_or_eq with hlt | heq
      · exact Or.inl (by linarith)
      · exact Or.inr ⟨hev, by rw [heq, hhi]⟩

/-- The interval reaches at most half a unit either way. -/
theorem RoundingInterval.bounds {m : ℕ} {q : ℤ} {narrow : Bool} {r : ℚ}
    (h : RoundingInterval m q narrow r) :
    (m : ℚ) * 2 ^ q - 2 ^ (q - 1) ≤ r ∧ r ≤ m * 2 ^ q + 2 ^ (q - 1) := by
  constructor
  · rcases h.1 with h1 | ⟨-, h1⟩ <;> linarith [gapBelow_le q narrow]
  · rcases h.2 with h2 | ⟨-, h2⟩ <;> linarith

/-- The interval of a positive value lies above zero. -/
theorem RoundingInterval.pos {m : ℕ} {q : ℤ} {narrow : Bool} {r : ℚ}
    (h : RoundingInterval m q narrow r) (hm : 0 < m) : 0 < r := by
  have hm1 : (1 : ℚ) ≤ m := by exact_mod_cast hm
  have hq : (2 : ℚ) ^ q = 2 * 2 ^ (q - 1) := by
    rw [(zpow_quarters q).1, (zpow_quarters q).2]
    ring
  have hp : (0 : ℚ) < 2 ^ (q - 1) := by positivity
  nlinarith [h.bounds.1]

/-! ### Facts about the fields -/

section Fields

variable (e : Fin 2047) (f : Fin (2 ^ 52))

theorem significand_mod_two : significand e f % 2 = f.val % 2 := by
  unfold significand
  split <;> omega

theorem two_pow_le_significand (he : e.val ≠ 0) : 2 ^ 52 ≤ significand e f := by
  unfold significand
  rw [if_neg he]
  omega

/-- Only the least scale has significands below `2 ^ 52`. -/
theorem scale_of_significand_lt (h : significand e f < 2 ^ 52) : scale e = -1074 := by
  have h0 : e.val = 0 := by
    by_contra he
    have := two_pow_le_significand e f he
    omega
  simp [scale, h0]

/-- Above the least scale the exponent field is at least 2. -/
theorem one_lt_of_scale_ne (h : scale e ≠ -1074) : 1 < e.val := by
  unfold scale at h
  split at h <;> omega

/-- At a power of two with a normal value below it, the significand is `2 ^ 52` and the scale is
above the least one. -/
theorem narrow_facts (hn : (f.val = 0 && 1 < e.val) = true) :
    significand e f = 2 ^ 52 ∧ -1074 < scale e := by
  simp only [Bool.and_eq_true, decide_eq_true_eq] at hn
  unfold significand scale
  rw [if_neg (by omega), if_neg (by omega), hn.1]
  omega

/-- Half a unit above a finite value is at most the overflow threshold, and below it when the
significand is even. -/
theorem add_half_unit_le_overflow :
    (significand e f : ℚ) * 2 ^ scale e + 2 ^ (scale e - 1) ≤ overflowThreshold ∧
      (significand e f % 2 = 0 →
        (significand e f : ℚ) * 2 ^ scale e + 2 ^ (scale e - 1) < overflowThreshold) := by
  have hm := significand_lt e f
  have hq := (scale_bounds e).2
  have hhalf : (2 : ℚ) ^ (scale e - 1) = 1 / 2 * 2 ^ scale e := by
    rw [zpow_sub₀ two_ne_zero, zpow_one]
    ring
  have hscale : (2 : ℚ) ^ scale e ≤ 2 ^ (971 : ℤ) := zpow_le_zpow_right₀ (by norm_num) hq
  have hp : (0 : ℚ) < 2 ^ scale e := by positivity
  rw [overflowThreshold_eq, hhalf]
  constructor
  · have hm' : (significand e f : ℚ) + 1 ≤ 2 ^ 53 := by exact_mod_cast hm
    calc (significand e f : ℚ) * 2 ^ scale e + 1 / 2 * 2 ^ scale e
        = (significand e f + 1 / 2) * 2 ^ scale e := by ring
      _ ≤ (2 ^ 53 - 1 / 2) * 2 ^ scale e := by gcongr; linarith
      _ ≤ (2 ^ 53 - 1 / 2) * 2 ^ (971 : ℤ) := mul_le_mul_of_nonneg_left hscale (by norm_num)
  · intro heven
    have hm' : (significand e f : ℚ) + 2 ≤ 2 ^ 53 := by
      have : significand e f + 2 ≤ 2 ^ 53 := by omega
      exact_mod_cast this
    calc (significand e f : ℚ) * 2 ^ scale e + 1 / 2 * 2 ^ scale e
        = (significand e f + 1 / 2) * 2 ^ scale e := by ring
      _ < (2 ^ 53 - 1 / 2) * 2 ^ scale e := by gcongr; linarith
      _ ≤ (2 ^ 53 - 1 / 2) * 2 ^ (971 : ℤ) := mul_le_mul_of_nonneg_left hscale (by norm_num)

end Fields

/-! ### Inside the interval -/

/-- An integer within half a unit of `t`, and even when exactly half a unit away, is an integer
nearest to `t`: any other integer is a whole unit from it. -/
theorem nearestInteger_of_abs_le {t : ℚ} {s : ℕ} (h : |(s : ℚ) - t| ≤ 1 / 2)
    (heven : |(s : ℚ) - t| = 1 / 2 → s % 2 = 0) : NearestInteger t s := by
  intro k
  by_cases hk : k = s
  · subst hk
    exact ⟨by push_cast; exact le_rfl, fun _ => .inl rfl⟩
  · have hstep : (1 : ℚ) ≤ |(k : ℚ) - s| := by
      have := Int.one_le_abs (sub_ne_zero.mpr hk)
      exact_mod_cast this
    have htri : |(k : ℚ) - s| ≤ |(k : ℚ) - t| + |(s : ℚ) - t| := by
      rw [abs_sub_comm (s : ℚ) t]
      exact abs_sub_le _ _ _
    exact ⟨by linarith, fun heq => .inr (heven (by linarith))⟩

/-- Distances measured in units of `2 ^ q`. -/
theorem abs_sub_div_zpow (s r : ℚ) (q : ℤ) : |s - r / 2 ^ q| = |s * 2 ^ q - r| / 2 ^ q := by
  rw [abs_mul_zpow_sub]
  field_simp

/-- Within half a unit, in units. -/
theorem abs_sub_div_zpow_le_half {s r : ℚ} {q : ℤ} :
    |s - r / 2 ^ q| ≤ 1 / 2 ↔ |s * 2 ^ q - r| ≤ 2 ^ (q - 1) := by
  have hp : (0 : ℚ) < 2 ^ q := by positivity
  rw [abs_sub_div_zpow, div_le_iff₀ hp, (zpow_quarters q).2, (zpow_quarters q).1]
  constructor <;> intro h <;> linarith

theorem abs_sub_div_zpow_eq_half {s r : ℚ} {q : ℤ} :
    |s - r / 2 ^ q| = 1 / 2 ↔ |s * 2 ^ q - r| = 2 ^ (q - 1) := by
  have hp : (0 : ℚ) < 2 ^ q := by positivity
  rw [abs_sub_div_zpow, div_eq_iff hp.ne', (zpow_quarters q).2, (zpow_quarters q).1]
  constructor <;> intro h <;> linarith

theorem two_zpow_add_52 (q : ℤ) : (2 : ℚ) ^ (q + 52) = 2 ^ 52 * 2 ^ q := by
  rw [zpow_add₀ two_ne_zero, mul_comm]
  norm_num

/-- The interval of a finite value lies below the overflow threshold. -/
theorem RoundingInterval.lt_overflowThreshold {e : Fin 2047} {f : Fin (2 ^ 52)} {narrow : Bool}
    {r : ℚ} (h : RoundingInterval (significand e f) (scale e) narrow r) : r < overflowThreshold := by
  obtain ⟨hle, hlt⟩ := add_half_unit_le_overflow e f
  rcases h.2 with h2 | ⟨hev, h2⟩
  · linarith
  · rw [h2]
    exact hlt hev

section Inside

variable {e : Fin 2047} {f : Fin (2 ^ 52)} {r : ℚ}

/-- Just below a power of two, a rational of the interval is nearest to the value on the grid of
half the unit, where the value is `2 ^ 53` points. -/
theorem nearestTo_of_below_power (hnarrow : (f.val = 0 && 1 < e.val) = true)
    (h : RoundingInterval (significand e f) (scale e) (f.val = 0 && 1 < e.val) r)
    (hlt : r < significand e f * 2 ^ scale e) : NearestTo r e f := by
  obtain ⟨hq4, hq2⟩ := zpow_quarters (scale e)
  obtain ⟨hm52, hq⟩ := narrow_facts e f hnarrow
  have hf0 : f.val = 0 := by
    simp only [Bool.and_eq_true, decide_eq_true_eq] at hnarrow
    exact hnarrow.1
  have hgap : gapBelow (scale e) (f.val = 0 && 1 < e.val) = 2 ^ (scale e - 2) := by
    rw [gapBelow, if_pos hnarrow]
  have hlo : (significand e f : ℚ) * 2 ^ scale e - 2 ^ (scale e - 2) ≤ r := by
    rcases h.1 with h1 | ⟨-, h1⟩ <;> rw [hgap] at h1 <;> linarith
  have hx : (significand e f : ℚ) * 2 ^ scale e = ((2 ^ 53 : ℕ) : ℚ) * 2 ^ (scale e - 1) := by
    rw [hm52, hq2, hq4]
    push_cast
    ring
  have hhalf : |((2 ^ 53 : ℕ) : ℚ) * 2 ^ (scale e - 1) - r| ≤ 2 ^ (scale e - 1 - 1) := by
    rw [← hx, abs_of_pos (by linarith), show scale e - 1 - 1 = scale e - 2 by ring]
    linarith
  have hm52' : (significand e f : ℚ) = 2 ^ 52 := by rw [hm52]; norm_num
  -- the finer grid starts at `2 ^ (q + 51)`, half the value
  have hoff : (2 : ℚ) ^ (scale e - 1 + 52) ≤ r := by
    rw [hm52', hq4] at hlo
    rw [two_zpow_add_52, hq2]
    linarith [zpow_pos (two_pos (α := ℚ)) (scale e - 2)]
  exact nearestTo_of_grid (by linarith [h.pos (by omega)]) h.lt_overflowThreshold (fun _ => hoff)
    (nearestInteger_of_abs_le (abs_sub_div_zpow_le_half.mpr hhalf) (fun _ => by norm_num))
    (by rw [finiteValue_false, hx]) (fun _ => by rw [hf0])

/-- Above the least scale, a rational of the interval that is not below a power of two lies at or
above `2 ^ (q + 52)`: the significand is at least `2 ^ 52`, and more when the interval is not
narrow. -/
theorem two_zpow_add_52_le
    (h : RoundingInterval (significand e f) (scale e) (f.val = 0 && 1 < e.val) r)
    (hcase : ¬ ((f.val = 0 && 1 < e.val) = true ∧ r < significand e f * 2 ^ scale e))
    (hq : -1074 < scale e) : (2 : ℚ) ^ (scale e + 52) ≤ r := by
  have he := one_lt_of_scale_ne e (by omega)
  have hm52 := two_pow_le_significand e f (by omega)
  have hp : (0 : ℚ) < 2 ^ scale e := by positivity
  obtain ⟨hq4, hq2⟩ := zpow_quarters (scale e)
  rw [two_zpow_add_52]
  by_cases hf0 : f.val = 0
  · -- a power of two: `r` is at or above the value
    have hge : (significand e f : ℚ) * 2 ^ scale e ≤ r := by
      by_contra hlt
      exact hcase ⟨by simp [hf0, he], lt_of_not_ge hlt⟩
    have : (2 : ℚ) ^ 52 ≤ significand e f := by exact_mod_cast hm52
    nlinarith
  · -- a significand above `2 ^ 52`: half a unit below it is still above `2 ^ 52` units
    have hm52' : 2 ^ 52 + 1 ≤ significand e f := by
      unfold significand at hm52 ⊢
      rw [if_neg (by omega)] at hm52 ⊢
      omega
    have : (2 : ℚ) ^ 52 + 1 ≤ significand e f := by exact_mod_cast hm52'
    nlinarith [h.bounds.1]

/-- Elsewhere in the interval, a rational is nearest to the value on the grid of its own unit,
and a tie is an end of the interval, which belongs to it only for an even significand. -/
theorem nearestTo_of_own_grid (hm : 0 < significand e f)
    (h : RoundingInterval (significand e f) (scale e) (f.val = 0 && 1 < e.val) r)
    (hcase : ¬ ((f.val = 0 && 1 < e.val) = true ∧ r < significand e f * 2 ^ scale e)) :
    NearestTo r e f := by
  have hhalf : |(significand e f : ℚ) * 2 ^ scale e - r| ≤ 2 ^ (scale e - 1) := by
    rw [abs_le]
    constructor <;> linarith [h.bounds.1, h.bounds.2]
  have heven : |(significand e f : ℚ) * 2 ^ scale e - r| = 2 ^ (scale e - 1) →
      significand e f % 2 = 0 := by
    intro htie
    rcases abs_eq (by positivity) |>.mp htie with hup | hdown
    · -- `r` is half a unit below the value, where the interval is not narrow
      have hnot : (f.val = 0 && 1 < e.val) = false := by
        by_contra hn
        exact hcase ⟨by simpa using hn, by linarith [zpow_pos (two_pos (α := ℚ)) (scale e - 1)]⟩
      rcases h.1 with h1 | ⟨hev, -⟩
      · rw [gapBelow, hnot, if_neg (by decide)] at h1
        linarith
      · exact hev
    · rcases h.2 with h2 | ⟨hev, -⟩
      · linarith
      · exact hev
  exact nearestTo_of_grid (h.pos hm).le h.lt_overflowThreshold (two_zpow_add_52_le h hcase)
    (nearestInteger_of_abs_le (abs_sub_div_zpow_le_half.mpr hhalf)
      (fun h' => heven (abs_sub_div_zpow_eq_half.mp h'))) (finiteValue_false e f)
    (fun hev => by rw [← significand_mod_two]; exact hev)

/-- **Inside the interval.** A rational in the interval of a positive finite value rounds to it:
it is the point of the grid of its unit nearest to the rational, or, just below a power of two,
of the grid of half that unit. -/
theorem nearestTo_of_roundingInterval (hm : 0 < significand e f)
    (h : RoundingInterval (significand e f) (scale e) (f.val = 0 && 1 < e.val) r) :
    NearestTo r e f := by
  by_cases hcase : (f.val = 0 && 1 < e.val) = true ∧ r < significand e f * 2 ^ scale e
  · exact nearestTo_of_below_power hcase.1 h hcase.2
  · exact nearestTo_of_own_grid hm h hcase

end Inside

/-- A finite value other than the one `r` rounds to, and no farther from `r`, is exactly as far,
and then the fraction of the nearest value is even. -/
theorem NearestTo.tie_of_le {r : ℚ} {e : Fin 2047} {f : Fin (2 ^ 52)} (h : NearestTo r e f)
    {n : Bool} {e' : Fin 2047} {f' : Fin (2 ^ 52)}
    (hne : finiteValue n e' f' ≠ finiteValue false e f)
    (hle : |finiteValue n e' f' - r| ≤ |finiteValue false e f - r|) :
    |finiteValue n e' f' - r| = |finiteValue false e f - r| ∧ f.val % 2 = 0 := by
  have heq := le_antisymm hle (h.nearest n e' f')
  exact ⟨heq, h.tieEven n e' f' heq hne⟩

/-- The value `x` that `r` rounds to and another finite value `2 * δ` above it: if `r` lies at
least `δ` above `x`, it lies exactly halfway, and `x` has an even fraction. -/
theorem NearestTo.halfway_up {r δ : ℚ} {e e' : Fin 2047} {f f' : Fin (2 ^ 52)}
    (h : NearestTo r e f) (hδ : 0 < δ)
    (hy : finiteValue false e' f' = finiteValue false e f + 2 * δ)
    (hr : finiteValue false e f + δ ≤ r) : r = finiteValue false e f + δ ∧ f.val % 2 = 0 := by
  have hdx : |finiteValue false e f - r| = r - finiteValue false e f := by
    rw [abs_sub_comm, abs_of_nonneg (by linarith)]
  have hne : finiteValue false e' f' ≠ finiteValue false e f := by
    rw [hy]
    intro heq
    linarith
  have hle : |finiteValue false e' f' - r| ≤ |finiteValue false e f - r| := by
    rw [hy, hdx, abs_le]
    constructor <;> linarith
  obtain ⟨heq, hev⟩ := h.tie_of_le hne hle
  refine ⟨?_, hev⟩
  rw [hy, hdx] at heq
  rcases abs_cases (finiteValue false e f + 2 * δ - r) with ⟨ha, -⟩ | ⟨ha, -⟩ <;>
    rw [ha] at heq <;> linarith

/-- The value `x` that `r` rounds to and another finite value `2 * δ` below it: if `r` lies at
least `δ` below `x`, it lies exactly halfway, and `x` has an even fraction. -/
theorem NearestTo.halfway_down {r δ : ℚ} {e e' : Fin 2047} {f f' : Fin (2 ^ 52)}
    (h : NearestTo r e f) (hδ : 0 < δ)
    (hy : finiteValue false e' f' = finiteValue false e f - 2 * δ)
    (hr : r ≤ finiteValue false e f - δ) : r = finiteValue false e f - δ ∧ f.val % 2 = 0 := by
  have hdx : |finiteValue false e f - r| = finiteValue false e f - r :=
    abs_of_nonneg (by linarith)
  have hne : finiteValue false e' f' ≠ finiteValue false e f := by
    rw [hy]
    intro heq
    linarith
  have hle : |finiteValue false e' f' - r| ≤ |finiteValue false e f - r| := by
    rw [hy, hdx, abs_le]
    constructor <;> linarith
  obtain ⟨heq, hev⟩ := h.tie_of_le hne hle
  refine ⟨?_, hev⟩
  rw [hy, hdx] at heq
  rcases abs_cases (finiteValue false e f - 2 * δ - r) with ⟨ha, -⟩ | ⟨ha, -⟩ <;>
    rw [ha] at heq <;> linarith

/-- **Upper end.** A rational that rounds to a positive finite value lies below the value by less
than half a unit, or by half a unit when the significand is even: past that the next value up,
`(m + 1) * 2 ^ q`, is nearer, or as near with the tie going to it. -/
theorem NearestTo.upper {r : ℚ} {e : Fin 2047} {f : Fin (2 ^ 52)} (h : NearestTo r e f) :
    r < significand e f * 2 ^ scale e + 2 ^ (scale e - 1) ∨
      (significand e f % 2 = 0 ∧ r = significand e f * 2 ^ scale e + 2 ^ (scale e - 1)) := by
  rcases lt_or_ge r (significand e f * 2 ^ scale e + 2 ^ (scale e - 1)) with hlt | hge
  · exact Or.inl hlt
  right
  obtain ⟨hq4, hq2⟩ := zpow_quarters (scale e)
  -- the next value up is finite, since `r` is below the overflow threshold
  have hfin : ¬ (significand e f + 1 = 2 ^ 53 ∧ scale e = 971) := by
    rintro ⟨hs, hq⟩
    have hm : (significand e f : ℚ) = 2 ^ 53 - 1 := by
      rw [show significand e f = 2 ^ 53 - 1 by omega]
      norm_num
    have hb := h.below
    rw [overflowThreshold_eq, ← hq] at hb
    rw [hm, hq2, hq4] at hge
    rw [hq4] at hb
    linarith
  obtain ⟨e', f', -, hv, -⟩ := (ofScaled_spec (significand_lt e f) (scale_bounds e).1
    (scale_bounds e).2 fun hs => scale_of_significand_lt e f (by omega)).2 hfin
  have hy : finiteValue false e' f' = finiteValue false e f + 2 * 2 ^ (scale e - 1) := by
    rw [hv, finiteValue_false, hq2, hq4]
    push_cast
    ring
  obtain ⟨hmid, hev⟩ := h.halfway_up (by positivity) hy (by rw [finiteValue_false]; exact hge)
  exact ⟨by rw [significand_mod_two]; exact hev, by rw [hmid, finiteValue_false]⟩

/-- **Lower end.** A rational that rounds to a positive finite value lies above the value by less
than the gap below it, or by that gap when the significand is even. Past that the value below is
nearer, or as near and even: `(m - 1) * 2 ^ q` in general, and `(2 ^ 53 - 1) * 2 ^ (q - 1)`, half a
unit down, when the value is the first of its binade. -/
theorem NearestTo.lower {r : ℚ} {e : Fin 2047} {f : Fin (2 ^ 52)} (h : NearestTo r e f)
    (hm : 0 < significand e f) :
    significand e f * 2 ^ scale e - gapBelow (scale e) (f.val = 0 && 1 < e.val) < r ∨
      (significand e f % 2 = 0 ∧
        r = significand e f * 2 ^ scale e - gapBelow (scale e) (f.val = 0 && 1 < e.val)) := by
  rcases lt_or_ge (significand e f * 2 ^ scale e - gapBelow (scale e) (f.val = 0 && 1 < e.val)) r
    with hlt | hge
  · exact Or.inl hlt
  right
  obtain ⟨hq4, hq2⟩ := zpow_quarters (scale e)
  cases hn : (f.val = 0 && 1 < e.val) with
  | false =>
      -- the value below is `(m - 1) * 2 ^ q`, a unit down
      have hg : gapBelow (scale e) false = 2 ^ (scale e - 1) := by simp [gapBelow]
      rw [hn, hg] at hge
      rw [hg]
      have hsub : significand e f - 1 < 2 ^ 52 → scale e = -1074 := by
        intro hlow
        by_contra hq
        have he := one_lt_of_scale_ne e hq
        have hm52 := two_pow_le_significand e f (by omega)
        have hf0 : f.val = 0 := by
          unfold significand at hm52 hlow
          rw [if_neg (by omega)] at hm52 hlow
          omega
        simp [hf0, he] at hn
      obtain ⟨e', f', -, hv, -⟩ := (ofScaled_spec (by have := significand_lt e f; omega)
        (scale_bounds e).1 (scale_bounds e).2 hsub).2 (by have := significand_lt e f; omega)
      have hy : finiteValue false e' f' = finiteValue false e f - 2 * 2 ^ (scale e - 1) := by
        rw [hv, finiteValue_false, Nat.cast_sub (by omega : 1 ≤ significand e f), hq2, hq4]
        push_cast
        ring
      obtain ⟨hmid, hev⟩ := h.halfway_down (by positivity) hy (by rw [finiteValue_false]; exact hge)
      exact ⟨by rw [significand_mod_two]; exact hev, by rw [hmid, finiteValue_false]⟩
  | true =>
      -- the first value of a binade: the value below is half a unit down, and nearer
      obtain ⟨hm52, hq⟩ := narrow_facts e f hn
      have hg : gapBelow (scale e) true = 2 ^ (scale e - 2) := by simp [gapBelow]
      rw [hn, hg] at hge
      rw [hg]
      refine ⟨by rw [hm52]; norm_num, ?_⟩
      rcases hge.lt_or_eq with hlt | heq
      · exfalso
        have ht : (0 : ℚ) < 2 ^ (scale e - 2) := by positivity
        obtain ⟨e', f', -, hv, -⟩ := (ofScaled_spec (s := 2 ^ 53 - 1) (q := scale e - 1)
          (by norm_num) (by omega) (by have := (scale_bounds e).2; omega)
          fun h => absurd h (by norm_num)).2 (by norm_num)
        have hv' : finiteValue false e' f' =
            significand e f * 2 ^ scale e - 2 * 2 ^ (scale e - 2) := by
          rw [hv, hm52, hq2, hq4]
          norm_num
          ring
        have hdx : |finiteValue false e f - r| = significand e f * 2 ^ scale e - r := by
          rw [finiteValue_false, abs_of_nonneg (by linarith)]
        have hlt' : |finiteValue false e' f' - r| < |finiteValue false e f - r| := by
          rw [hv', hdx, abs_lt]
          constructor <;> linarith
        exact absurd (h.nearest false e' f') (not_le.mpr hlt')
      · exact heq

/-- **The rounding interval.** The rationals that round to a positive finite value are exactly
those of its rounding interval. -/
theorem roundsFrom_iff_roundingInterval {r : ℚ} {e : Fin 2047} {f : Fin (2 ^ 52)}
    (hm : 0 < significand e f) :
    RoundsFrom r (finite false e f) ↔
      RoundingInterval (significand e f) (scale e) (f.val = 0 && 1 < e.val) r :=
  ⟨fun h => ⟨h.lower hm, h.upper⟩, nearestTo_of_roundingInterval hm⟩

end Binary64

namespace Decimal

open Binary64

/-- `roundsTo` tests the interval of the positive value `m * 2 ^ q`: its bounds, counted in
quarters of the unit, are `4m - 2` or `4m - 1` below and `4m + 2` above. -/
theorem roundsTo_iff {m : ℕ} (hm : 0 < m) (q : ℤ) (narrow : Bool) (d : Decimal) :
    roundsTo m q narrow d = true ↔ RoundingInterval m q narrow d.value := by
  obtain ⟨hq4, hq2⟩ := zpow_quarters q
  have hlo : (((if narrow then 4 * m - 1 else 4 * m - 2 : ℕ)) : ℚ) * 2 ^ (q - 2) =
      m * 2 ^ q - gapBelow q narrow := by
    unfold gapBelow
    cases narrow
    · rw [if_neg (by simp), if_neg (by simp), Nat.cast_sub (by omega), hq4, hq2]
      push_cast
      ring
    · rw [if_pos rfl, if_pos rfl, Nat.cast_sub (by omega), hq4]
      push_cast
      ring
  have hhi : ((4 * m + 2 : ℕ) : ℚ) * 2 ^ (q - 2) = m * 2 ^ q + 2 ^ (q - 1) := by
    rw [hq4, hq2]
    push_cast
    ring
  unfold roundsTo RoundingInterval
  simp only [compareDyadic_eq, hlo, hhi, ← value_mk, Bool.and_eq_true, Bool.or_eq_true,
    beq_iff_eq, compare_gt_iff_gt, compare_eq_iff_eq, compare_lt_iff_lt]

end Decimal

end LoxLexer
