import LoxLexer.Proofs.RoundingInterval
import LoxLexer.Proofs.NumberLiterals

/-!
# The fewest digits that read back

`Decimal.shortest m q narrow` searches the rounding interval of `m * 2 ^ q` for a decimal with
as few significant digits as possible. With `k` the decimal exponent just above the value, the
decimals of at most `n` significant digits near the value are the points of the grid
`10 ^ (k - n)`; the search tries `n = 1, 2, …` and on each grid only the two points around the
value. This file proves that the search is right.

A decimal of `n` significant digits in the interval is a point of the grid `10 ^ (k - n)`, or lies
below `10 ^ (k - 1)`, and then that grid point lies in the interval and nearer the value. A grid
point in the interval drags one of the two points around the value into it, by convexity, and
that one is no farther from the value. So the first grid with a hit gives the fewest digits, and
the nearer hit is the nearest decimal of that many digits. Seventeen digits always give a hit:
the grid is then finer than the interval.

## Main definitions

* `Decimal.significantDigits`: the number of digits of a decimal, trailing zeros left out.

## Main results

* `Decimal.significantDigits_le_iff`: at most `n` significant digits means `a * 10 ^ j` with
  `a < 10 ^ n`.
* `Decimal.nearestOnGrid_eq_some`, `Decimal.nearestOnGrid_eq_none`: what one grid gives.
* `Decimal.shortest_spec`: the selected decimal lies in the interval, has the fewest significant
  digits of the decimals there, and is the nearest to the value among those.
* `Binary64.shortestMagnitude_spec`: the same for the rounding of binary64 values.
-/

namespace LoxLexer

namespace Decimal

open Binary64

/-! ### Significant digits -/

/-- Moving a trailing zero into the exponent keeps the value. -/
theorem value_strip (d : Decimal) : (strip d).value = d.value := by
  fun_induction strip d with
  | case1 d h ih =>
      obtain ⟨t, ht⟩ : ∃ t, d.digits = 10 * t := ⟨d.digits / 10, by omega⟩
      rw [ih, value_mk, value, ht, Nat.mul_div_cancel_left t (by norm_num),
        zpow_add_one₀ (by norm_num)]
      push_cast
      ring
  | case2 d h => rfl

/-- A positive decimal keeps positive digits, with no trailing zero left. -/
theorem strip_digits {d : Decimal} (hd : 0 < d.digits) :
    0 < (strip d).digits ∧ (strip d).digits % 10 ≠ 0 := by
  fun_induction strip d with
  | case1 d h ih => exact ih (show 0 < d.digits / 10 by omega)
  | case2 d h => omega

/-- Digits that end in no zero are left alone. -/
theorem strip_eq_self {d : Decimal} (hd : d.digits % 10 ≠ 0) : strip d = d := by
  rw [strip, if_neg (fun h => hd h.2)]

/-- Stripping twice strips once. -/
theorem strip_strip {d : Decimal} (hd : 0 < d.digits) : strip (strip d) = strip d :=
  strip_eq_self (strip_digits hd).2

/-- The number of significant digits of a decimal: its digits with the trailing zeros left out.
Zero has one. -/
def significantDigits (d : Decimal) : ℕ := length (strip d).digits

theorem length_zero : length 0 = 1 := by
  rw [length, if_pos (by norm_num)]

/-- Every natural, zero too, is below ten to its number of digits. -/
theorem lt_ten_pow_length (n : ℕ) : n < 10 ^ length n := by
  rcases Nat.eq_zero_or_pos n with rfl | hn
  · rw [length_zero]
    norm_num
  · exact (length_spec hn).2

/-- A positive natural has at most `n` digits exactly when it is below `10 ^ n`. -/
theorem length_le_iff {b : ℕ} (hb : 0 < b) (n : ℕ) : length b ≤ n ↔ b < 10 ^ n := by
  obtain ⟨hlo, hhi⟩ := length_spec hb
  constructor
  · intro h
    exact hhi.trans_le (Nat.pow_le_pow_right (by norm_num) h)
  · intro h
    by_contra hlt
    have : 10 ^ n ≤ 10 ^ (length b - 1) := Nat.pow_le_pow_right (by norm_num) (by omega)
    omega

/-- Of two ways to write one decimal, one whose digits end in no zero has the fewer digits. -/
theorem digits_le_of_value_eq {b a : ℕ} {i j : ℤ} (hb : b % 10 ≠ 0)
    (h : (b : ℚ) * 10 ^ i = a * 10 ^ j) : b ≤ a := by
  have hten : (10 : ℚ) ≠ 0 := by norm_num
  rcases le_or_gt j i with hji | hij
  · -- `a = b * 10 ^ (i - j)`
    obtain ⟨t, rfl⟩ : ∃ t : ℕ, i = j + t := ⟨(i - j).toNat, by omega⟩
    rw [zpow_add₀ hten, zpow_natCast, mul_comm (10 ^ j : ℚ), ← mul_assoc] at h
    have hab : b * 10 ^ t = a := by exact_mod_cast mul_right_cancel₀ (zpow_ne_zero j hten) h
    rw [← hab]
    exact Nat.le_mul_of_pos_right b (by positivity)
  · -- `b = a * 10 ^ (j - i)` would end in a zero
    obtain ⟨t, rfl⟩ : ∃ t : ℕ, j = i + ((t + 1 : ℕ) : ℤ) := ⟨(j - i - 1).toNat, by omega⟩
    rw [zpow_add₀ hten, zpow_natCast, mul_comm (10 ^ i : ℚ), ← mul_assoc] at h
    have hba : b = a * 10 ^ (t + 1) := by exact_mod_cast mul_right_cancel₀ (zpow_ne_zero i hten) h
    rw [hba, pow_succ, ← mul_assoc, Nat.mul_mod_left] at hb
    exact absurd rfl hb

/-- **Significant digits by value.** A positive decimal has at most `n` significant digits exactly
when its value is `a * 10 ^ j` for some `a < 10 ^ n`: the count depends on the value alone. -/
theorem significantDigits_le_iff {d : Decimal} (hd : 0 < d.digits) (n : ℕ) :
    significantDigits d ≤ n ↔ ∃ (a : ℕ) (j : ℤ), a < 10 ^ n ∧ d.value = a * 10 ^ j := by
  obtain ⟨hpos, hmod⟩ := strip_digits hd
  rw [significantDigits, length_le_iff hpos]
  constructor
  · intro h
    exact ⟨_, _, h, (value_strip d).symm⟩
  · rintro ⟨a, j, ha, hval⟩
    have := digits_le_of_value_eq hmod ((value_strip d).trans hval)
    omega

theorem significantDigits_strip {d : Decimal} (hd : 0 < d.digits) :
    significantDigits (strip d) = significantDigits d := by
  rw [significantDigits, significantDigits, strip_strip hd]

/-! ### The value between grid points -/

/-- `10 ^ n` steps of the grid `10 ^ (k - n)` make `10 ^ k`. -/
theorem ten_zpow_eq_mul (n : ℕ) (k : ℤ) : (10 : ℚ) ^ k = ((10 ^ n : ℕ) : ℚ) * 10 ^ (k - n) := by
  push_cast
  rw [← zpow_natCast, ← zpow_add₀ (by norm_num)]
  congr 1
  ring

/-- `scaleOf m q` is the decimal exponent just above the positive value `m * 2 ^ q`. -/
theorem scaleOf_spec {m : ℕ} (hm : 0 < m) (q : ℤ) :
    (10 : ℚ) ^ (scaleOf m q - 1) ≤ m * 2 ^ q ∧ (m : ℚ) * 2 ^ q < 10 ^ scaleOf m q := by
  unfold scaleOf
  split_ifs with hq hbig
  · -- a whole number: its digits
    obtain ⟨t, rfl⟩ : ∃ t : ℕ, q = t := ⟨q.toNat, by omega⟩
    obtain ⟨hlo, hhi⟩ := length_spec (show 0 < m * 2 ^ t by positivity)
    have hL := length_pos (m * 2 ^ t)
    rw [Int.toNat_natCast, show ((length (m * 2 ^ t) : ℤ) - 1) = ((length (m * 2 ^ t) - 1 : ℕ) : ℤ)
      by omega, zpow_natCast, zpow_natCast, zpow_natCast]
    exact ⟨by exact_mod_cast hlo, by exact_mod_cast hhi⟩
  · -- at least one: the digits of the whole part
    obtain ⟨t, rfl⟩ : ∃ t : ℕ, q = -t := ⟨(-q).toNat, by omega⟩
    simp only [neg_neg, Int.toNat_natCast] at hbig ⊢
    obtain ⟨hlo, hhi⟩ := length_spec (Nat.div_pos hbig (by positivity) : 0 < m / 2 ^ t)
    have hL := length_pos (m / 2 ^ t)
    have hdown : m / 2 ^ t * 2 ^ t ≤ m := Nat.div_mul_le_self m (2 ^ t)
    have hup : m < 2 ^ t * (m / 2 ^ t + 1) := Nat.lt_mul_div_succ m (by positivity)
    rw [zpow_neg, zpow_natCast, ← div_eq_mul_inv, show ((length (m / 2 ^ t) : ℤ) - 1) =
      ((length (m / 2 ^ t) - 1 : ℕ) : ℤ) by omega, zpow_natCast, zpow_natCast,
      le_div_iff₀ (by positivity), div_lt_iff₀ (by positivity)]
    have h1 : 10 ^ (length (m / 2 ^ t) - 1) * 2 ^ t ≤ m :=
      (Nat.mul_le_mul_right _ hlo).trans hdown
    have h2 : m < 10 ^ length (m / 2 ^ t) * 2 ^ t := by
      rw [mul_comm] at hup
      exact hup.trans_le (Nat.mul_le_mul_right _ hhi)
    exact ⟨by exact_mod_cast h1, by exact_mod_cast h2⟩
  · -- below one: the zeros after the point, read off `⌊(2 ^ t - 1) / m⌋`
    obtain ⟨t, rfl⟩ : ∃ t : ℕ, q = -t := ⟨(-q).toNat, by omega⟩
    simp only [neg_neg, Int.toNat_natCast] at hbig ⊢
    have hL := length_pos ((2 ^ t - 1) / m)
    have hdown : (2 ^ t - 1) / m * m ≤ 2 ^ t - 1 := Nat.div_mul_le_self _ m
    have hup : 2 ^ t - 1 < m * ((2 ^ t - 1) / m + 1) := Nat.lt_mul_div_succ _ hm
    -- the zeros: `10 ^ (L - 1) * m < 2 ^ t ≤ 10 ^ L * m`
    have h1 : m * 10 ^ (length ((2 ^ t - 1) / m) - 1) < 2 ^ t := by
      rcases Nat.eq_zero_or_pos ((2 ^ t - 1) / m) with h0 | hpos
      · rw [h0, length_zero]
        omega
      · have := Nat.mul_le_mul_left m (length_spec hpos).1
        rw [mul_comm] at hdown
        omega
    have h2 : 2 ^ t ≤ m * 10 ^ length ((2 ^ t - 1) / m) := by
      have := Nat.mul_le_mul_left m (show (2 ^ t - 1) / m + 1 ≤ _ from lt_ten_pow_length _)
      have := Nat.one_le_two_pow (n := t)
      omega
    rw [show 1 - (length ((2 ^ t - 1) / m) : ℤ) - 1 = -((length ((2 ^ t - 1) / m) : ℕ) : ℤ)
      by ring, show 1 - (length ((2 ^ t - 1) / m) : ℤ) =
      -((length ((2 ^ t - 1) / m) - 1 : ℕ) : ℤ) by omega, zpow_neg, zpow_neg, zpow_neg,
      zpow_natCast, zpow_natCast, zpow_natCast, ← div_eq_mul_inv, inv_eq_one_div, inv_eq_one_div,
      div_le_div_iff₀ (by positivity) (by positivity), div_lt_div_iff₀ (by positivity)
      (by positivity)]
    exact ⟨by exact_mod_cast (one_mul (2 ^ t)).trans_le h2,
      by exact_mod_cast h1.trans_eq (one_mul (2 ^ t)).symm⟩

/-- `floorOnGrid m q j` is the point of the grid `10 ^ j` at or below `m * 2 ^ q`, the next one
lying above it. -/
theorem floorOnGrid_spec (m : ℕ) (q j : ℤ) :
    (floorOnGrid m q j : ℚ) * 10 ^ j ≤ m * 2 ^ q ∧
      (m : ℚ) * 2 ^ q < (floorOnGrid m q j + 1) * 10 ^ j := by
  unfold floorOnGrid
  set N := m * 2 ^ q.toNat * 10 ^ (-j).toNat with hN
  set D := 2 ^ (-q).toNat * 10 ^ j.toNat with hD
  -- the value over `10 ^ j` is the ratio `N / D` of two naturals
  have hratio : (m : ℚ) * 2 ^ q = (N : ℚ) / D * 10 ^ j := by
    rw [hN, hD, Binary64.two_zpow_eq_div, ten_zpow_eq_div]
    push_cast
    field_simp
  have hpos : 0 < D := by positivity
  have hDq : (0 : ℚ) < D := by exact_mod_cast hpos
  have hp : (0 : ℚ) < 10 ^ j := by positivity
  have h1 : ((N / D : ℕ) : ℚ) * D ≤ N := by exact_mod_cast Nat.div_mul_le_self N D
  have h2 : (N : ℚ) < ((N / D : ℕ) + 1) * D := by
    have := Nat.lt_mul_div_succ N hpos
    rw [mul_comm] at this
    exact_mod_cast this
  rw [hratio]
  constructor
  · refine mul_le_mul_of_nonneg_right ?_ hp.le
    rwa [le_div_iff₀ hDq]
  · refine mul_lt_mul_of_pos_right ?_ hp
    rwa [div_lt_iff₀ hDq]

/-! ### One grid -/

section Grid

variable {m : ℕ} {q : ℤ} {narrow : Bool}

/-- A point of the grid `10 ^ j` in the interval brings one of the two grid points around the
value into it, by convexity. -/
theorem roundingInterval_floor_or_next {j : ℤ} {c : ℕ}
    (hc : RoundingInterval m q narrow (c * 10 ^ j)) :
    RoundingInterval m q narrow (floorOnGrid m q j * 10 ^ j) ∨
      RoundingInterval m q narrow ((floorOnGrid m q j + 1) * 10 ^ j) := by
  obtain ⟨hlo, hhi⟩ := floorOnGrid_spec m q j
  have hp : (0 : ℚ) < 10 ^ j := by positivity
  rcases le_or_gt c (floorOnGrid m q j) with h | h
  · have h' : (c : ℚ) ≤ floorOnGrid m q j := by exact_mod_cast h
    exact Or.inl (hc.of_le_of_le (roundingInterval_self m q narrow)
      (mul_le_mul_of_nonneg_right h' hp.le) hlo)
  · have h' : (floorOnGrid m q j : ℚ) + 1 ≤ c := by exact_mod_cast h
    exact Or.inr ((roundingInterval_self m q narrow).of_le_of_le hc hhi.le
      (mul_le_mul_of_nonneg_right h' hp.le))

theorem nearestOnGrid_cases (hm : 0 < m) {j : ℤ} {d : Decimal}
    (h : nearestOnGrid m q narrow j = some d) :
    (d = ⟨floorOnGrid m q j, j⟩ ∨ d = ⟨floorOnGrid m q j + 1, j⟩) ∧
      RoundingInterval m q narrow d.value ∧
      (RoundingInterval m q narrow (floorOnGrid m q j * 10 ^ j) →
        |d.value - m * 2 ^ q| ≤ |(floorOnGrid m q j : ℚ) * 10 ^ j - m * 2 ^ q|) ∧
      (RoundingInterval m q narrow ((floorOnGrid m q j + 1) * 10 ^ j) →
        |d.value - m * 2 ^ q| ≤ |((floorOnGrid m q j : ℚ) + 1) * 10 ^ j - m * 2 ^ q|) := by
  obtain ⟨hlo, hhi⟩ := floorOnGrid_spec m q j
  have hdown := roundsTo_iff hm q narrow ⟨floorOnGrid m q j, j⟩
  have hup := roundsTo_iff hm q narrow ⟨floorOnGrid m q j + 1, j⟩
  simp only [value_mk, Nat.cast_add, Nat.cast_one] at hdown hup
  -- the distances of the two grid points from the value
  have hdd : |(floorOnGrid m q j : ℚ) * 10 ^ j - m * 2 ^ q| =
      m * 2 ^ q - floorOnGrid m q j * 10 ^ j := by
    rw [abs_sub_comm, abs_of_nonneg (by linarith)]
  have hdu : |((floorOnGrid m q j : ℚ) + 1) * 10 ^ j - m * 2 ^ q| =
      (floorOnGrid m q j + 1) * 10 ^ j - m * 2 ^ q := abs_of_nonneg (by linarith)
  have hvu : (⟨floorOnGrid m q j + 1, j⟩ : Decimal).value =
      ((floorOnGrid m q j : ℚ) + 1) * 10 ^ j := by
    rw [value_mk, Nat.cast_add, Nat.cast_one]
  unfold nearestOnGrid at h
  dsimp only at h
  split at h
  · -- both grid points are in the interval: the nearer one, a tie to the even one
    rename_i hd hu
    have hd' := hdown.mp hd
    have hu' := hup.mp hu
    have hmid := compareDyadic_eq (2 * floorOnGrid m q j + 1) j (2 * m) q
    push_cast at hmid
    split at h
    · rename_i hgt
      rw [hgt, eq_comm, compare_gt_iff_gt] at hmid
      cases h
      refine ⟨Or.inl rfl, hd', fun _ => le_rfl, fun _ => ?_⟩
      rw [value_mk, hdd, hdu]
      linarith
    · rename_i hlt
      rw [hlt, eq_comm, compare_lt_iff_lt] at hmid
      cases h
      refine ⟨Or.inr rfl, by rw [hvu]; exact hu', fun _ => ?_, fun _ => by rw [hvu]⟩
      rw [hvu, hdu, hdd]
      linarith
    · rename_i heq
      rw [heq, eq_comm, compare_eq_iff_eq] at hmid
      have htie : |(floorOnGrid m q j : ℚ) * 10 ^ j - m * 2 ^ q| =
          |((floorOnGrid m q j : ℚ) + 1) * 10 ^ j - m * 2 ^ q| := by
        rw [hdd, hdu]
        linarith
      split at h <;> cases h
      · exact ⟨Or.inl rfl, hd', fun _ => le_rfl, fun _ => htie.le⟩
      · exact ⟨Or.inr rfl, by rw [hvu]; exact hu', fun _ => by rw [hvu]; exact htie.symm.le,
          fun _ => by rw [hvu]⟩
  · -- only the point below
    rename_i hd hu
    cases h
    refine ⟨Or.inl rfl, hdown.mp hd, fun _ => le_rfl, fun hin => ?_⟩
    rw [hup.mpr hin] at hu
    exact absurd hu (by decide)
  · -- only the point above
    rename_i hd hu
    cases h
    refine ⟨Or.inr rfl, by rw [hvu]; exact hup.mp hu, fun hin => ?_, fun _ => by rw [hvu]⟩
    rw [hdown.mpr hin] at hd
    exact absurd hd (by decide)
  · cases h

/-- **A hit on one grid.** What `nearestOnGrid` gives is a point of the grid in the interval, at
most one step above the point below the value, and no farther from the value than any point of
the grid in the interval. -/
theorem nearestOnGrid_eq_some (hm : 0 < m) {j : ℤ} {d : Decimal}
    (h : nearestOnGrid m q narrow j = some d) :
    d.exponent = j ∧ d.digits ≤ floorOnGrid m q j + 1 ∧ RoundingInterval m q narrow d.value ∧
      ∀ c : ℕ, RoundingInterval m q narrow (c * 10 ^ j) →
        |d.value - m * 2 ^ q| ≤ |(c : ℚ) * 10 ^ j - m * 2 ^ q| := by
  obtain ⟨hd, hin, hnear_down, hnear_up⟩ := nearestOnGrid_cases hm h
  obtain ⟨hlo, hhi⟩ := floorOnGrid_spec m q j
  have hp : (0 : ℚ) < 10 ^ j := by positivity
  refine ⟨by rcases hd with rfl | rfl <;> rfl, by rcases hd with rfl | rfl <;> simp, hin,
    fun c hc => ?_⟩
  rcases le_or_gt c (floorOnGrid m q j) with hc' | hc'
  · -- at or below the grid point below the value: no nearer than that one
    have hmul : (c : ℚ) * 10 ^ j ≤ floorOnGrid m q j * 10 ^ j :=
      mul_le_mul_of_nonneg_right (by exact_mod_cast hc') hp.le
    refine (hnear_down (hc.of_le_of_le (roundingInterval_self m q narrow) hmul hlo)).trans ?_
    rw [abs_sub_comm, abs_of_nonneg (by linarith), abs_sub_comm, abs_of_nonneg (by linarith)]
    linarith
  · -- at or above the grid point above the value
    have hmul : ((floorOnGrid m q j : ℚ) + 1) * 10 ^ j ≤ c * 10 ^ j :=
      mul_le_mul_of_nonneg_right (by exact_mod_cast hc') hp.le
    refine (hnear_up ((roundingInterval_self m q narrow).of_le_of_le hc hhi.le hmul)).trans ?_
    rw [abs_of_nonneg (by linarith), abs_of_nonneg (by linarith)]
    linarith

/-- When `nearestOnGrid` gives nothing, neither grid point around the value lies in the
interval. -/
theorem roundsTo_eq_false_of_nearestOnGrid {j : ℤ} (h : nearestOnGrid m q narrow j = none) :
    roundsTo m q narrow ⟨floorOnGrid m q j, j⟩ = false ∧
      roundsTo m q narrow ⟨floorOnGrid m q j + 1, j⟩ = false := by
  unfold nearestOnGrid at h
  dsimp only at h
  split at h
  · split at h <;> (try split at h) <;> cases h
  · cases h
  · cases h
  · rename_i hd hu
    exact ⟨hd, hu⟩

/-- **A miss on one grid.** When `nearestOnGrid` gives nothing, no point of the grid lies in the
interval. -/
theorem nearestOnGrid_eq_none (hm : 0 < m) {j : ℤ} (h : nearestOnGrid m q narrow j = none)
    (c : ℕ) : ¬ RoundingInterval m q narrow (c * 10 ^ j) := by
  intro hc
  obtain ⟨hdown, hup⟩ := roundsTo_eq_false_of_nearestOnGrid h
  -- one of the two grid points would be in the interval
  rcases roundingInterval_floor_or_next hc with hin | hin
  · have := (roundsTo_iff hm q narrow ⟨floorOnGrid m q j, j⟩).mpr hin
    rw [hdown] at this
    exact absurd this (by decide)
  · have := (roundsTo_iff hm q narrow ⟨floorOnGrid m q j + 1, j⟩).mpr (by simpa using hin)
    rw [hup] at this
    exact absurd this (by decide)

/-- **Seventeen digits suffice.** When twice the gap below the value, times `10 ^ 16`, exceeds the
value, the grid of seventeen digits is finer than the interval, and the nearer of its two points
around the value lies in it. -/
theorem nearestOnGrid_seventeen_ne_none (hm : 0 < m)
    (h17 : (m : ℚ) * 2 ^ q < 2 * gapBelow q narrow * 10 ^ 16) :
    nearestOnGrid m q narrow (scaleOf m q - 17) ≠ none := by
  intro hnone
  obtain ⟨hk, -⟩ := scaleOf_spec hm q
  obtain ⟨hlo, hhi⟩ := floorOnGrid_spec m q (scaleOf m q - 17)
  have hg := gapBelow_le q narrow
  -- the step of the grid is below twice the gap
  have hstep : (10 : ℚ) ^ (scaleOf m q - 17) < 2 * gapBelow q narrow := by
    have hsplit : (10 : ℚ) ^ (scaleOf m q - 1) = 10 ^ (scaleOf m q - 17) * 10 ^ 16 := by
      rw [← zpow_natCast, ← zpow_add₀ (by norm_num)]
      ring_nf
    rw [hsplit] at hk
    exact lt_of_mul_lt_mul_right (hk.trans_lt h17) (by norm_num)
  rcases le_or_gt ((m : ℚ) * 2 ^ q - floorOnGrid m q (scaleOf m q - 17) * 10 ^ (scaleOf m q - 17))
    (((floorOnGrid m q (scaleOf m q - 17) : ℚ) + 1) * 10 ^ (scaleOf m q - 17) - m * 2 ^ q)
    with hnear | hnear
  · -- the point below is within half a step, less than the gap below
    refine nearestOnGrid_eq_none hm hnone (floorOnGrid m q (scaleOf m q - 17))
      ⟨Or.inl ?_, Or.inl ?_⟩
    · linarith
    · linarith [zpow_pos (two_pos (α := ℚ)) (q - 1)]
  · -- the point above is within half a step, less than half a unit
    refine nearestOnGrid_eq_none hm hnone (floorOnGrid m q (scaleOf m q - 17) + 1)
      ⟨Or.inl ?_, Or.inl ?_⟩
    · push_cast
      linarith [gapBelow_pos q narrow]
    · push_cast
      linarith

/-- A decimal of at most `n` significant digits, `a * 10 ^ i` with `a < 10 ^ n`, is a point of the
grid `10 ^ (k - n)` or lies below `10 ^ (k - 1)`. -/
theorem onGrid_or_lt {a n : ℕ} {i : ℤ} (k : ℤ) (ha : a < 10 ^ n) :
    (∃ c : ℕ, (a : ℚ) * 10 ^ i = c * 10 ^ (k - n)) ∨ (a : ℚ) * 10 ^ i < 10 ^ (k - 1) := by
  rcases le_or_gt (k - n) i with hi | hi
  · obtain ⟨t, rfl⟩ : ∃ t : ℕ, i = k - n + t := ⟨(i - (k - n)).toNat, by omega⟩
    refine Or.inl ⟨a * 10 ^ t, ?_⟩
    rw [zpow_add₀ (by norm_num), zpow_natCast]
    push_cast
    ring
  · have haq : (a : ℚ) < 10 ^ n := by exact_mod_cast ha
    refine Or.inr ?_
    calc (a : ℚ) * 10 ^ i < 10 ^ n * 10 ^ i := by gcongr
      _ = 10 ^ ((n : ℤ) + i) := by rw [zpow_add₀ (by norm_num), zpow_natCast]
      _ ≤ 10 ^ (k - 1) := zpow_le_zpow_right₀ (by norm_num) (by omega)

/-- **Fewer digits lie on a grid.** With `10 ^ (k - 1)` at or below the value, each decimal of the
interval with at most `n ≥ 1` significant digits has a point of the grid `10 ^ (k - n)` in the
interval that is no farther from the value: itself, or else `10 ^ (k - 1)`. -/
theorem exists_onGrid_nearer (hm : 0 < m) {k : ℤ} (hk : (10 : ℚ) ^ (k - 1) ≤ m * 2 ^ q)
    {n : ℕ} (hn : 1 ≤ n) {d : Decimal} (hsig : significantDigits d ≤ n)
    (hin : RoundingInterval m q narrow d.value) :
    ∃ c : ℕ, RoundingInterval m q narrow (c * 10 ^ (k - n)) ∧
      |(c : ℚ) * 10 ^ (k - n) - m * 2 ^ q| ≤ |d.value - m * 2 ^ q| := by
  obtain ⟨a, i, ha, hval⟩ := (significantDigits_le_iff (digits_pos (hin.pos hm)) n).mp hsig
  rcases onGrid_or_lt k ha with ⟨c, hc⟩ | hlt
  · exact ⟨c, by rw [← hc, ← hval]; exact hin, by rw [← hc, ← hval]⟩
  · -- below `10 ^ (k - 1)`, which is nearer and in the interval by convexity
    rw [← hval] at hlt
    have hpow : ((10 ^ (n - 1) : ℕ) : ℚ) * 10 ^ (k - n) = 10 ^ (k - 1) := by
      push_cast
      rw [← zpow_natCast, ← zpow_add₀ (by norm_num)]
      congr 1
      omega
    refine ⟨10 ^ (n - 1), ?_, ?_⟩
    · rw [hpow]
      exact hin.of_le_of_le (roundingInterval_self m q narrow) hlt.le hk
    · rw [hpow, abs_sub_comm, abs_of_nonneg (by linarith), abs_sub_comm,
        abs_of_nonneg (by linarith)]
      linarith

/-- **A hit has at most `n` digits.** A point that `nearestOnGrid` gives on the grid of `n ≥ 1`
digits below the scale has at most `n` significant digits: it is at most `10 ^ n` steps, and
`10 ^ n` steps are one digit. -/
theorem significantDigits_le_of_nearestOnGrid (hm : 0 < m) {n : ℕ} (hn : 1 ≤ n) {d : Decimal}
    (h : nearestOnGrid m q narrow (scaleOf m q - n) = some d) : significantDigits d ≤ n := by
  obtain ⟨hexp, hdig, hin, -⟩ := nearestOnGrid_eq_some hm h
  -- the grid point below the value is less than `10 ^ n` steps
  have hfl : floorOnGrid m q (scaleOf m q - n) < 10 ^ n := by
    have hp : (0 : ℚ) < 10 ^ (scaleOf m q - n) := by positivity
    have := (floorOnGrid_spec m q (scaleOf m q - n)).1.trans_lt (scaleOf_spec hm q).2
    rw [ten_zpow_eq_mul n (scaleOf m q)] at this
    exact_mod_cast lt_of_mul_lt_mul_right this hp.le
  rw [significantDigits_le_iff (digits_pos (hin.pos hm))]
  rcases (show d.digits < 10 ^ n ∨ d.digits = 10 ^ n by omega) with hlt | heq
  · exact ⟨d.digits, d.exponent, hlt, rfl⟩
  · refine ⟨1, scaleOf m q, Nat.one_lt_pow (by omega) (by norm_num), ?_⟩
    rw [value, heq, hexp, ← ten_zpow_eq_mul n, Nat.cast_one, one_mul]

/-- **Misses mean more digits.** When the grids of `1` to `n - 1` digits below the scale miss the
interval, every decimal in it has at least `n` significant digits. -/
theorem le_significantDigits_of_miss (hm : 0 < m) {n : ℕ}
    (hmiss : ∀ n', 1 ≤ n' → n' < n → nearestOnGrid m q narrow (scaleOf m q - n') = none)
    {d : Decimal} (hd : RoundingInterval m q narrow d.value) : n ≤ significantDigits d := by
  by_contra hlt
  have hn : 1 ≤ significantDigits d := length_pos _
  obtain ⟨c, hc, -⟩ := exists_onGrid_nearer hm (scaleOf_spec hm q).1 hn le_rfl hd
  exact nearestOnGrid_eq_none hm (hmiss _ hn (by omega)) c hc

end Grid

/-- The first hit of a search over `0, 1, …, N - 1`. -/
theorem findSome?_range_eq_some {β : Type} {f : ℕ → Option β} {N : ℕ} {b : β}
    (h : (List.range N).findSome? f = some b) :
    ∃ i < N, f i = some b ∧ ∀ i' < i, f i' = none := by
  induction N with
  | zero => simp at h
  | succ N ih =>
    rw [List.range_succ, List.findSome?_append] at h
    cases hN : (List.range N).findSome? f with
    | some b' =>
      rw [hN, Option.some_or] at h
      obtain ⟨i, hi, hfi, hbefore⟩ := ih (h ▸ hN)
      exact ⟨i, by omega, hfi, hbefore⟩
    | none =>
      rw [hN, Option.none_or, List.findSome?_singleton] at h
      exact ⟨N, by omega, h, fun i' hi' =>
        List.findSome?_eq_none_iff.mp hN i' (List.mem_range.mpr hi')⟩

/-! ### The search -/

/-- **The search is right.** For a positive value `m * 2 ^ q` whose interval is wide enough for
seventeen digits, `shortest` gives a positive decimal with no trailing zero in the interval. No
decimal of the interval has fewer significant digits, and none with as few is nearer the value. -/
theorem shortest_spec {m : ℕ} {q : ℤ} {narrow : Bool} (hm : 0 < m)
    (h17 : (m : ℚ) * 2 ^ q < 2 * gapBelow q narrow * 10 ^ 16) :
    RoundingInterval m q narrow (shortest m q narrow).value ∧
      (∀ d : Decimal, RoundingInterval m q narrow d.value →
        significantDigits (shortest m q narrow) ≤ significantDigits d) ∧
      (∀ d : Decimal, RoundingInterval m q narrow d.value →
        significantDigits d ≤ significantDigits (shortest m q narrow) →
          |(shortest m q narrow).value - m * 2 ^ q| ≤ |d.value - m * 2 ^ q|) ∧
      0 < (shortest m q narrow).digits ∧ (shortest m q narrow).digits % 10 ≠ 0 := by
  obtain ⟨hk, -⟩ := scaleOf_spec hm q
  -- the search stops at a grid with a hit, at the latest at seventeen digits
  obtain ⟨d0, hfound⟩ : ∃ d0, (List.range 17).findSome? (fun i : ℕ =>
      nearestOnGrid m q narrow (scaleOf m q - ((i + 1 : ℕ) : ℤ))) = some d0 := by
    cases hf : (List.range 17).findSome? (fun i : ℕ =>
        nearestOnGrid m q narrow (scaleOf m q - ((i + 1 : ℕ) : ℤ))) with
    | none =>
        have h16 := List.findSome?_eq_none_iff.mp hf 16 (by simp)
        exact absurd h16 (nearestOnGrid_seventeen_ne_none hm h17)
    | some d0 => exact ⟨d0, rfl⟩
  have hshort : shortest m q narrow = strip d0 := by
    unfold shortest
    dsimp only
    rw [hfound]
    rfl
  obtain ⟨i, -, hhit, hmiss⟩ := findSome?_range_eq_some hfound
  obtain ⟨-, -, hin, hnear⟩ := nearestOnGrid_eq_some hm hhit
  have hpos := digits_pos (hin.pos hm)
  have hsig := significantDigits_le_of_nearestOnGrid hm (by omega) hhit
  -- every decimal of the interval has at least `i + 1` digits: the grids of fewer missed
  have hfew : ∀ d : Decimal, RoundingInterval m q narrow d.value → i + 1 ≤ significantDigits d :=
    fun d hd => le_significantDigits_of_miss hm (fun n' hn' hlt => by
      have := hmiss (n' - 1) (by omega)
      rwa [Nat.sub_add_cancel hn'] at this) hd
  rw [hshort, value_strip, significantDigits_strip hpos]
  refine ⟨hin, fun d hd => hsig.trans (hfew d hd), fun d hd hle => ?_, strip_digits hpos⟩
  -- a decimal with as few digits has a point of the hit's grid at least as near
  obtain ⟨c, hc, hcnear⟩ := exists_onGrid_nearer hm hk (by omega) (hle.trans hsig) hd
  exact (hnear c hc).trans hcnear

end Decimal

namespace Binary64

/-- The interval of a positive finite value is wide enough for seventeen digits, since
`2 ^ 53 < 10 ^ 16`. -/
theorem value_lt_seventeen_digits (e : Fin 2047) (f : Fin (2 ^ 52)) :
    (significand e f : ℚ) * 2 ^ scale e <
      2 * gapBelow (scale e) (f.val = 0 && 1 < e.val) * 10 ^ 16 := by
  have hp : (0 : ℚ) < 2 ^ (scale e - 2) := by positivity
  obtain ⟨hq4, hq2⟩ := zpow_quarters (scale e)
  cases hn : (f.val = 0 && 1 < e.val) with
  | false =>
      have hm : (significand e f : ℚ) < 2 ^ 53 := by exact_mod_cast significand_lt e f
      simp only [gapBelow, Bool.false_eq_true, ↓reduceIte, hq4, hq2]
      nlinarith
  | true =>
      obtain ⟨hm52, -⟩ := narrow_facts e f hn
      simp only [gapBelow, ↓reduceIte, hm52, hq4]
      push_cast
      nlinarith

/-- **Shortest digits of a binary64 value.** For a positive finite value, `shortestMagnitude`
gives a positive decimal with no trailing zero that rounds to the value. No decimal that rounds to
the value has fewer significant digits, and none with as few is nearer to it. -/
theorem shortestMagnitude_spec {e : Fin 2047} {f : Fin (2 ^ 52)} (hm : 0 < significand e f) :
    RoundsFrom (shortestMagnitude e f).value (finite false e f) ∧
      (∀ d : Decimal, RoundsFrom d.value (finite false e f) →
        (shortestMagnitude e f).significantDigits ≤ d.significantDigits) ∧
      (∀ d : Decimal, RoundsFrom d.value (finite false e f) →
        d.significantDigits ≤ (shortestMagnitude e f).significantDigits →
          |(shortestMagnitude e f).value - finiteValue false e f| ≤
            |d.value - finiteValue false e f|) ∧
      0 < (shortestMagnitude e f).digits ∧ (shortestMagnitude e f).digits % 10 ≠ 0 := by
  simp only [roundsFrom_iff_roundingInterval hm, finiteValue_false]
  exact Decimal.shortest_spec hm (value_lt_seventeen_digits e f)

end Binary64

end LoxLexer
