import Mathlib
import LoxLexer.Binary64.Round

/-!
# Rounding to nearest, ties to even

In its default mode IEEE 754 rounds a number to binary64 as follows. A magnitude from
`2 ^ 1024 - 2 ^ 970` up, halfway between the largest finite value and `2 ^ 1024`, becomes
infinity. Any other is delivered as the finite value nearest to it, and of two values equally
near, as the one whose significand is even. `Binary64.RoundsFrom r x` says this of a rational
`r ≥ 0` and a value `x`, with no reference to how `x` is computed.

`Binary64.ofRatio` computes it with one division. The proof follows the computation. The binade
`2 ^ e ≤ r < 2 ^ (e + 1)` (`log2Ratio_spec`) fixes the unit `2 ^ q` of the last significand bit,
and `roundDiv` gives a multiple of the unit nearest to `r`, a tie going to the even multiple
(`roundDiv_nearest`). Every finite value is either such a multiple, or lies below `2 ^ e`, where
the multiple `2 ^ e` is nearer (`exists_grid_nearer`). So the nearest multiple is the nearest
value. What remains is the carry into the next binade and the overflow threshold.

## Main definitions

* `Binary64.finiteValue`: the rational value of a finite value.
* `Binary64.RoundsFrom r x`: `x` is `r` rounded to nearest, ties to even.
* `Binary64.NearestInteger t s`: `s` is an integer nearest to `t`, ties to even.

## Main results

* `Binary64.roundDiv_nearest`: `roundDiv` rounds a ratio to the nearest integer, ties to even.
* `Binary64.log2Ratio_spec`: `log2Ratio` finds the binade of a ratio.
* `Binary64.roundsFrom_ofScaled`: rounding at the unit of the binade delivers the rounded value.
* `Binary64.ofRatio_roundsFrom`: `ofRatio num den` is `num / den` rounded.
-/

namespace LoxLexer.Binary64

/-! ### The rounding of IEEE 754 -/

/-- The rational value of the finite value with the given fields. -/
def finiteValue (negative : Bool) (exponent : Fin 2047) (fraction : Fin (2 ^ 52)) : ℚ :=
  (if negative then -1 else 1) * (significand exponent fraction * 2 ^ scale exponent)

/-- Halfway between the largest finite value, `(2 ^ 53 - 1) * 2 ^ 971`, and `2 ^ 1024`. -/
def overflowThreshold : ℚ := 2 ^ 1024 - 2 ^ 970

/-- The positive finite value with fields `exponent` and `fraction` is what rounding `r` to
nearest delivers: `r` lies below the overflow threshold, no finite value is nearer to `r`, and
when a different value is as near, the significand is even, that is, its fraction field. -/
structure NearestTo (r : ℚ) (exponent : Fin 2047) (fraction : Fin (2 ^ 52)) : Prop where
  below : r < overflowThreshold
  nearest : ∀ n e f, |finiteValue false exponent fraction - r| ≤ |finiteValue n e f - r|
  tieEven : ∀ n e f, |finiteValue n e f - r| = |finiteValue false exponent fraction - r| →
    finiteValue n e f ≠ finiteValue false exponent fraction → fraction.val % 2 = 0

/-- `x` is the binary64 value that rounding the rational `r ≥ 0` to nearest, ties to even,
delivers: positive infinity from the overflow threshold up, and below it the nearest finite value,
with a positive sign. -/
def RoundsFrom (r : ℚ) : Binary64 → Prop
  | infinity false => overflowThreshold ≤ r
  | finite false exponent fraction => NearestTo r exponent fraction
  | _ => False

section Fields

variable (e : Fin 2047) (f : Fin (2 ^ 52))

@[simp] theorem finiteValue_false : finiteValue false e f = significand e f * 2 ^ scale e := by
  simp [finiteValue]

@[simp] theorem finiteValue_true :
    finiteValue true e f = -(significand e f * 2 ^ scale e) := by
  simp [finiteValue]

theorem abs_finiteValue (n : Bool) :
    |finiteValue n e f| = significand e f * 2 ^ scale e := by
  have : (0 : ℚ) ≤ significand e f * 2 ^ scale e := by positivity
  cases n <;> simp [abs_of_nonneg this]

theorem scale_bounds : -1074 ≤ scale e ∧ scale e ≤ 971 := by
  have := e.isLt
  unfold scale
  split <;> omega

end Fields

theorem overflowThreshold_eq : overflowThreshold = (2 ^ 53 - 1 / 2) * 2 ^ (971 : ℤ) := by
  rw [overflowThreshold, show (971 : ℤ) = ((971 : ℕ) : ℤ) from rfl, zpow_natCast, sub_mul,
    ← pow_add, pow_succ 2 970, mul_comm _ (2 : ℚ), ← mul_assoc, one_div_mul_cancel two_ne_zero,
    one_mul]

/-- The threshold lies in the last finite binade. -/
theorem overflowThreshold_bounds :
    (2 : ℚ) ^ (1023 : ℤ) < overflowThreshold ∧ overflowThreshold < 2 ^ (1024 : ℤ) := by
  have hp : (0 : ℚ) < 2 ^ (971 : ℤ) := by positivity
  have h1023 : (2 : ℚ) ^ (1023 : ℤ) = 2 ^ 52 * 2 ^ (971 : ℤ) := by
    rw [show (1023 : ℤ) = ((52 : ℕ) : ℤ) + 971 from rfl, zpow_add₀ two_ne_zero, zpow_natCast]
  have h1024 : (2 : ℚ) ^ (1024 : ℤ) = 2 ^ 53 * 2 ^ (971 : ℤ) := by
    rw [show (1024 : ℤ) = ((53 : ℕ) : ℤ) + 971 from rfl, zpow_add₀ two_ne_zero, zpow_natCast]
  rw [overflowThreshold_eq, h1023, h1024]
  constructor <;> gcongr <;> norm_num

/-! ### Rounding a ratio to an integer -/

/-- `s` is an integer nearest to `t`, and of two integers equally near, the even one. -/
def NearestInteger (t : ℚ) (s : ℕ) : Prop :=
  ∀ k : ℤ, |(s : ℚ) - t| ≤ |(k : ℚ) - t| ∧ (|(k : ℚ) - t| = |(s : ℚ) - t| → k = s ∨ s % 2 = 0)

section RoundDiv

variable {num den : ℕ}

/-- A ratio is its quotient plus its remainder over the divisor. -/
theorem ratio_eq_div_add (hden : 0 < den) :
    (num : ℚ) / den = (num / den : ℕ) + ((num % den : ℕ) : ℚ) / den := by
  have hd : (den : ℚ) ≠ 0 := by positivity
  field_simp
  exact_mod_cast (Nat.div_add_mod num den).symm

/-- How far an integer `j` is from a fraction `ρ ∈ [0, 1)`: `0` and `1` are the nearest integers,
and any other is further than one of them. -/
theorem abs_sub_fraction {ρ : ℚ} (h0 : 0 ≤ ρ) (h1 : ρ < 1) (j : ℤ) :
    (j ≤ 0 → ρ ≤ |(j : ℚ) - ρ| ∧ (|(j : ℚ) - ρ| = ρ → j = 0)) ∧
      (1 ≤ j → 1 - ρ ≤ |(j : ℚ) - ρ| ∧ (|(j : ℚ) - ρ| = 1 - ρ → j = 1)) := by
  constructor
  · intro hj
    have hjq : (j : ℚ) ≤ 0 := by exact_mod_cast hj
    rw [abs_of_nonpos (by linarith)]
    refine ⟨by linarith, fun h => ?_⟩
    have : (j : ℚ) = 0 := by linarith
    exact_mod_cast this
  · intro hj
    have hjq : (1 : ℚ) ≤ j := by exact_mod_cast hj
    rw [abs_of_nonneg (by linarith)]
    refine ⟨by linarith, fun h => ?_⟩
    have : (j : ℚ) = 1 := by linarith
    exact_mod_cast this

/-- Of the integers around `q + ρ`, for a fraction `ρ ∈ [0, 1)`: `q` is nearest when `ρ ≤ 1 / 2`,
`q + 1` when `ρ ≥ 1 / 2`, and no other integer is as near. -/
theorem abs_sub_quotient {q : ℕ} {ρ : ℚ} (h0 : 0 ≤ ρ) (h1 : ρ < 1) (k : ℤ) :
    (ρ ≤ 1 / 2 → |(q : ℚ) - (q + ρ)| ≤ |(k : ℚ) - (q + ρ)| ∧
      (|(k : ℚ) - (q + ρ)| = |(q : ℚ) - (q + ρ)| → k = q ∨ (ρ = 1 / 2 ∧ k = q + 1))) ∧
    (1 / 2 ≤ ρ → |((q + 1 : ℕ) : ℚ) - (q + ρ)| ≤ |(k : ℚ) - (q + ρ)| ∧
      (|(k : ℚ) - (q + ρ)| = |((q + 1 : ℕ) : ℚ) - (q + ρ)| →
        k = q + 1 ∨ (ρ = 1 / 2 ∧ k = q))) := by
  obtain ⟨hbelow, habove⟩ := abs_sub_fraction h0 h1 (k - q)
  have hk : |(k : ℚ) - (q + ρ)| = |((k - q : ℤ) : ℚ) - ρ| := by push_cast; ring_nf
  have hq : |(q : ℚ) - (q + ρ)| = ρ := by
    rw [show (q : ℚ) - (q + ρ) = -ρ by ring, abs_neg, abs_of_nonneg h0]
  have hq1 : |((q + 1 : ℕ) : ℚ) - (q + ρ)| = 1 - ρ := by
    rw [show ((q + 1 : ℕ) : ℚ) - (q + ρ) = 1 - ρ by push_cast; ring, abs_of_nonneg (by linarith)]
  rw [hk, hq, hq1]
  constructor
  · intro hρ
    rcases le_or_gt (k - q) 0 with hj | hj
    · exact ⟨(hbelow hj).1, fun he => .inl (by have := (hbelow hj).2 he; omega)⟩
    · obtain ⟨hge, heq⟩ := habove hj
      refine ⟨by linarith, fun he => .inr ⟨by linarith, by have := heq (by linarith); omega⟩⟩
  · intro hρ
    rcases le_or_gt (k - q) 0 with hj | hj
    · obtain ⟨hge, heq⟩ := hbelow hj
      refine ⟨by linarith, fun he => .inr ⟨by linarith, by have := heq (by linarith); omega⟩⟩
    · exact ⟨(habove hj).1, fun he => .inl (by have := (habove hj).2 he; omega)⟩

/-- The three ways `roundDiv` can go: down when the remainder is under half the divisor, up when it
is over, and to the even neighbour at exactly half. -/
theorem roundDiv_cases (num den : ℕ) :
    (2 * (num % den) < den ∧ roundDiv num den = num / den) ∨
      (den < 2 * (num % den) ∧ roundDiv num den = num / den + 1) ∨
      (2 * (num % den) = den ∧ roundDiv num den % 2 = 0 ∧
        (roundDiv num den = num / den ∨ roundDiv num den = num / den + 1)) := by
  unfold roundDiv
  simp only
  split_ifs <;> omega

/-- `roundDiv num den` is an integer nearest to `num / den`, ties to even. -/
theorem roundDiv_nearest (hden : 0 < den) : NearestInteger (num / den) (roundDiv num den) := by
  intro k
  have hdq : (0 : ℚ) < den := by exact_mod_cast hden
  have hrd : num % den < den := Nat.mod_lt num hden
  have hcases := roundDiv_cases num den
  rw [ratio_eq_div_add hden]
  generalize num / den = q at hcases ⊢
  generalize num % den = r at hcases hrd ⊢
  generalize roundDiv num den = s at hcases ⊢
  -- the ratio lies a fraction `r / den ∈ [0, 1)` past the quotient
  have h0 : (0 : ℚ) ≤ r / den := by positivity
  have h1 : (r : ℚ) / den < 1 := by rw [div_lt_one hdq]; exact_mod_cast hrd
  obtain ⟨hdown, hup⟩ := abs_sub_quotient (q := q) h0 h1 k
  rcases hcases with ⟨h, rfl⟩ | ⟨h, rfl⟩ | ⟨h, hev, hs⟩
  · have hρ : (r : ℚ) / den < 1 / 2 := by
      have : (2 * r : ℚ) < den := by exact_mod_cast h
      rw [div_lt_iff₀ hdq]; linarith
    obtain ⟨hle, htie⟩ := hdown hρ.le
    refine ⟨hle, fun he => .inl ?_⟩
    rcases htie he with hk | ⟨hρ', _⟩
    · exact hk
    · linarith
  · have hρ : 1 / 2 < (r : ℚ) / den := by
      have : (den : ℚ) < 2 * r := by exact_mod_cast h
      rw [lt_div_iff₀ hdq]; linarith
    obtain ⟨hle, htie⟩ := hup hρ.le
    refine ⟨hle, fun he => .inl ?_⟩
    rcases htie he with hk | ⟨hρ', _⟩
    · rw [hk]; push_cast; rfl
    · linarith
  · have hρ : (r : ℚ) / den = 1 / 2 := by
      have : (2 * r : ℚ) = den := by exact_mod_cast h
      rw [div_eq_iff hdq.ne']; linarith
    rcases hs with rfl | rfl
    · exact ⟨(hdown hρ.le).1, fun _ => .inr hev⟩
    · exact ⟨(hup hρ.ge).1, fun _ => .inr hev⟩

end RoundDiv

section Nearest

variable {t : ℚ} {s : ℕ}

/-- A nearest integer is at least every integer below the number. -/
theorem le_of_nearestInteger (hs : NearestInteger t s) {a : ℤ} (ha : (a : ℚ) ≤ t) : a ≤ s := by
  by_contra h
  have has : (s : ℚ) + 1 ≤ a := by exact_mod_cast (show (s : ℤ) + 1 ≤ a by omega)
  have hle := (hs a).1
  rw [abs_of_nonpos (by linarith), abs_of_nonpos (by linarith)] at hle
  linarith

/-- A nearest integer is at most every integer above the number. -/
theorem nearestInteger_le (hs : NearestInteger t s) {b : ℤ} (hb : t ≤ b) : (s : ℤ) ≤ b := by
  by_contra h
  have hbs : (b : ℚ) + 1 ≤ s := by exact_mod_cast (show b + 1 ≤ (s : ℤ) by omega)
  have hle := (hs b).1
  rw [abs_of_nonneg (by linarith), abs_of_nonneg (by linarith)] at hle
  linarith

/-- Below `2 ^ 53`, the integer nearest to `t` is `2 ^ 53` exactly when `t` is at least halfway
from `2 ^ 53 - 1`: at the halfway point the tie goes to the even `2 ^ 53`. -/
theorem nearestInteger_eq_two_pow_iff (hs : NearestInteger t s) (ht : t < 2 ^ 53) :
    s = 2 ^ 53 ↔ 2 ^ 53 - 1 / 2 ≤ t := by
  have hle : (s : ℤ) ≤ 2 ^ 53 := nearestInteger_le hs (by push_cast; linarith)
  have habove : |(2 : ℚ) ^ 53 - t| = 2 ^ 53 - t := abs_of_pos (by linarith)
  constructor
  · rintro rfl
    -- `2 ^ 53` is no further from `t` than `2 ^ 53 - 1` is
    have h := (hs (2 ^ 53 - 1)).1
    simp only [Nat.cast_pow, Nat.cast_ofNat, Int.cast_sub, Int.cast_pow, Int.cast_ofNat,
      Int.cast_one, habove] at h
    rcases le_or_gt (2 ^ 53 - 1 : ℚ) t with h1 | h1
    · rw [abs_of_nonpos (show (2 : ℚ) ^ 53 - 1 - t ≤ 0 by linarith)] at h
      linarith
    · rw [abs_of_pos (show (0 : ℚ) < 2 ^ 53 - 1 - t by linarith)] at h
      linarith
  · intro ht'
    by_contra hne
    have hs1 : (s : ℚ) + 1 ≤ 2 ^ 53 := by
      have : (s : ℤ) + 1 ≤ 2 ^ 53 := by omega
      exact_mod_cast this
    have hbelow : |(s : ℚ) - t| = t - s := by
      rw [abs_of_nonpos (show (s : ℚ) - t ≤ 0 by linarith)]
      ring
    obtain ⟨hnear, htie⟩ := hs (2 ^ 53)
    simp only [Int.cast_pow, Int.cast_ofNat, habove, hbelow] at hnear htie
    -- both neighbours are half a unit away, and the tie goes to the odd `2 ^ 53 - 1`
    have hs' : (s : ℚ) + 1 = 2 ^ 53 := by linarith
    have hodd : s + 1 = 2 ^ 53 := by exact_mod_cast hs'
    rcases htie (by linarith) with h | h
    · omega
    · omega

end Nearest

/-! ### The binade of a ratio -/

section Binade

variable {num den : ℕ}

/-- A power of two with an integer exponent, as a ratio of two powers with natural exponents. -/
theorem two_zpow_eq_div (e : ℤ) : (2 : ℚ) ^ e = 2 ^ e.toNat / 2 ^ (-e).toNat := by
  conv_lhs => rw [← Int.toNat_sub_toNat_neg e]
  rw [zpow_sub₀ two_ne_zero, zpow_natCast, zpow_natCast]

/-- The comparison made by `log2Ratio` compares `2 ^ e` with `num / den`. -/
theorem pow_le_ratio_iff (hden : 0 < den) (e : ℤ) :
    den * 2 ^ e.toNat ≤ num * 2 ^ (-e).toNat ↔ (2 : ℚ) ^ e ≤ num / den := by
  rw [two_zpow_eq_div, div_le_div_iff₀ (by positivity) (by positivity), ← Nat.cast_le (α := ℚ)]
  push_cast
  rw [mul_comm (den : ℚ)]

/-- `log2Ratio num den` is the exponent of the binade of `num / den`. -/
theorem log2Ratio_spec (hnum : 0 < num) (hden : 0 < den) :
    (2 : ℚ) ^ log2Ratio num den ≤ num / den ∧ (num : ℚ) / den < 2 ^ (log2Ratio num den + 1) := by
  have hdq : (0 : ℚ) < den := by exact_mod_cast hden
  -- the binary lengths of `num` and `den` bound the ratio within two binades
  have hn1 : (2 : ℚ) ^ num.log2 ≤ num := by exact_mod_cast Nat.log2_self_le hnum.ne'
  have hn2 : (num : ℚ) < 2 ^ (num.log2 + 1) := by exact_mod_cast Nat.lt_log2_self
  have hd1 : (2 : ℚ) ^ den.log2 ≤ den := by exact_mod_cast Nat.log2_self_le hden.ne'
  have hd2 : (den : ℚ) < 2 ^ (den.log2 + 1) := by exact_mod_cast Nat.lt_log2_self
  set e : ℤ := (num.log2 : ℤ) - (den.log2 : ℤ) with he
  have hlo : (2 : ℚ) ^ (e - 1) ≤ num / den := by
    rw [le_div_iff₀ hdq]
    calc (2 : ℚ) ^ (e - 1) * den ≤ 2 ^ (e - 1) * 2 ^ (den.log2 + 1) := by gcongr
      _ = 2 ^ num.log2 := by
          rw [← zpow_natCast, ← zpow_natCast, ← zpow_add₀ two_ne_zero, he]; push_cast; ring_nf
      _ ≤ num := hn1
  have hhi : (num : ℚ) / den < 2 ^ (e + 1) := by
    rw [div_lt_iff₀ hdq]
    calc (num : ℚ) < 2 ^ (num.log2 + 1) := hn2
      _ = 2 ^ (e + 1) * 2 ^ den.log2 := by
          rw [← zpow_natCast, ← zpow_natCast, ← zpow_add₀ two_ne_zero, he]; push_cast; ring_nf
      _ ≤ 2 ^ (e + 1) * den := by gcongr
  unfold log2Ratio
  simp only
  rw [← he]
  split_ifs with h
  · exact ⟨(pow_le_ratio_iff hden e).mp h, hhi⟩
  · refine ⟨hlo, ?_⟩
    rw [sub_add_cancel]
    exact lt_of_not_ge fun h' => h ((pow_le_ratio_iff hden e).mpr h')

/-- Scaling the ratio by `2 ^ -q`, as `ofRatio` does before it rounds. -/
theorem scaled_ratio (hden : 0 < den) (q : ℤ) :
    ((num * 2 ^ (-q).toNat : ℕ) : ℚ) / (den * 2 ^ q.toNat : ℕ) = num / den / 2 ^ q := by
  rw [two_zpow_eq_div]
  push_cast
  field_simp

end Binade

/-! ### Building the value -/

/-- What `ofScaled` builds from a significand `s ≤ 2 ^ 53` at the unit `2 ^ q`, for a unit from
the least subnormal one, `2 ^ -1074`, to that of the last finite binade, `2 ^ 971`, and a
significand below `2 ^ 52` only at the least unit. When `s` carried out of the last binade it is
infinity; otherwise it is the positive finite value `s * 2 ^ q`, with an even fraction when `s` is
even. -/
theorem ofScaled_spec {s : ℕ} {q : ℤ} (hs : s ≤ 2 ^ 53) (hq : -1074 ≤ q) (hq' : q ≤ 971)
    (hsub : s < 2 ^ 52 → q = -1074) :
    (s = 2 ^ 53 ∧ q = 971 → ofScaled s q = infinity false) ∧
    (¬ (s = 2 ^ 53 ∧ q = 971) → ∃ e f, ofScaled s q = finite false e f ∧
      finiteValue false e f = s * 2 ^ q ∧ (s % 2 = 0 → f.val % 2 = 0)) := by
  constructor
  · rintro ⟨rfl, rfl⟩
    rfl
  · intro hfin
    unfold ofScaled ofFields
    by_cases hcarry : s = 2 ^ 53
    · -- the significand carried into the next binade, which is still finite
      have hE : (q + 1076).toNat < 2047 := by omega
      rw [if_pos hcarry, dif_pos hE]
      refine ⟨_, _, rfl, ?_, fun _ => by simp⟩
      simp only [finiteValue_false, significand, scale, hcarry]
      rw [if_neg (by simp; omega), if_neg (by simp; omega)]
      simp only [Nat.mod_self, Nat.add_zero]
      push_cast
      rw [Int.toNat_of_nonneg (by omega), show q + 1076 - 1075 = q + 1 by ring,
        zpow_add_one₀ two_ne_zero]
      ring
    · rw [if_neg hcarry]
      by_cases hlow : s < 2 ^ 52
      · -- a subnormal value, at the least unit
        rw [if_pos hlow, dif_pos (by norm_num)]
        refine ⟨_, _, rfl, ?_, fun h => ?_⟩
        · simp only [finiteValue_false, significand, scale, if_pos, Nat.mod_eq_of_lt hlow,
            hsub hlow]
        · show s % 2 ^ 52 % 2 = 0
          rw [Nat.mod_eq_of_lt hlow]
          exact h
      · -- a normal value
        have hE : (q + 1075).toNat < 2047 := by omega
        rw [if_neg hlow, dif_pos hE]
        refine ⟨_, _, rfl, ?_, fun h => by simp; omega⟩
        simp only [finiteValue_false, significand, scale]
        rw [if_neg (by simp; omega), if_neg (by simp; omega)]
        rw [show 2 ^ 52 + s % 2 ^ 52 = s by omega]
        rw [Int.toNat_of_nonneg (by omega), show q + 1075 - 1075 = q by ring]

/-! ### Nearest among the finite values -/

/-- `|k * 2 ^ q - r|` measured in units of `2 ^ q`. -/
theorem abs_mul_zpow_sub (k r : ℚ) (q : ℤ) : |k * 2 ^ q - r| = 2 ^ q * |k - r / 2 ^ q| := by
  have hp : (0 : ℚ) < 2 ^ q := by positivity
  rw [show k * 2 ^ q - r = 2 ^ q * (k - r / 2 ^ q) by field_simp, abs_mul, abs_of_pos hp]

/-- Every finite value is at least as far from `r ≥ 0` as some point of the grid `2 ^ q ℕ`, and
as far only when it is that point. A negative value is no nearer than zero; a value whose scale
is at least `q` lies on the grid; a value of a smaller scale lies below `2 ^ (q + 52)`, and when
that is at most `r` the grid point `2 ^ (q + 52)` is strictly nearer. -/
theorem exists_grid_nearer {r : ℚ} {q : ℤ} (hr : 0 ≤ r)
    (hoff : -1074 < q → 2 ^ (q + 52) ≤ r) (n : Bool) (e : Fin 2047) (f : Fin (2 ^ 52)) :
    ∃ k : ℕ, |(k : ℚ) * 2 ^ q - r| ≤ |finiteValue n e f - r| ∧
      (|finiteValue n e f - r| = |(k : ℚ) * 2 ^ q - r| → finiteValue n e f = k * 2 ^ q) := by
  have hm : 0 ≤ (significand e f : ℚ) * 2 ^ scale e := by positivity
  cases n with
  | true =>
      -- zero is as near as any value of the other sign
      have hdist : |finiteValue true e f - r| = significand e f * 2 ^ scale e + r := by
        rw [finiteValue_true, abs_of_nonpos (by linarith)]
        ring
      have hzero : |((0 : ℕ) : ℚ) * 2 ^ q - r| = r := by
        rw [Nat.cast_zero, zero_mul, zero_sub, abs_neg, abs_of_nonneg hr]
      refine ⟨0, by rw [hdist, hzero]; linarith, fun h => ?_⟩
      rw [hdist, hzero] at h
      rw [finiteValue_true, Nat.cast_zero, zero_mul]
      linarith
  | false =>
      rw [finiteValue_false]
      by_cases hq : q ≤ scale e
      · -- on the grid
        refine ⟨significand e f * 2 ^ (scale e - q).toNat, le_of_eq ?_, fun _ => ?_⟩
        all_goals
          push_cast
          rw [← zpow_natCast, Int.toNat_of_nonneg (by omega), mul_assoc, ← zpow_add₀ two_ne_zero,
            sub_add_cancel]
      · -- below the grid
        have hlow : -1074 < q := by have := (scale_bounds e).1; omega
        have hr' := hoff hlow
        have hsig : (significand e f : ℚ) < 2 ^ (53 : ℤ) := by
          have := significand_lt e f
          rw [show (2 : ℚ) ^ (53 : ℤ) = 2 ^ (53 : ℕ) from zpow_natCast 2 53]
          exact_mod_cast this
        have hv : (significand e f : ℚ) * 2 ^ scale e < 2 ^ (q + 52) := by
          calc (significand e f : ℚ) * 2 ^ scale e < 2 ^ (53 : ℤ) * 2 ^ scale e := by gcongr
            _ = 2 ^ (scale e + 53) := by rw [← zpow_add₀ two_ne_zero, add_comm]
            _ ≤ 2 ^ (q + 52) := zpow_le_zpow_right₀ (by norm_num) (by omega)
        have hk : ((2 ^ 52 : ℕ) : ℚ) * 2 ^ q = 2 ^ (q + 52) := by
          rw [zpow_add₀ two_ne_zero, mul_comm]; norm_num
        have hlt : |((2 ^ 52 : ℕ) : ℚ) * 2 ^ q - r| <
            |(significand e f : ℚ) * 2 ^ scale e - r| := by
          rw [hk, abs_of_nonpos (by linarith), abs_of_nonpos (by linarith)]
          linarith
        exact ⟨2 ^ 52, hlt.le, fun h => absurd h hlt.ne'⟩

/-- If `s` is an integer nearest to `r / 2 ^ q`, ties to even, and every finite value off the grid
`2 ^ q ℕ` lies below `2 ^ (q + 52) ≤ r`, then a finite value worth `s * 2 ^ q`, with an even
fraction when `s` is even, is the value nearest to `r`. -/
theorem nearestTo_of_grid {r : ℚ} {q : ℤ} {s : ℕ} {e : Fin 2047} {f : Fin (2 ^ 52)}
    (hr : 0 ≤ r) (hbelow : r < overflowThreshold) (hoff : -1074 < q → 2 ^ (q + 52) ≤ r)
    (hs : NearestInteger (r / 2 ^ q) s) (hval : finiteValue false e f = s * 2 ^ q)
    (heven : s % 2 = 0 → f.val % 2 = 0) : NearestTo r e f := by
  have hp : (0 : ℚ) < 2 ^ q := by positivity
  -- no grid point is nearer than `s * 2 ^ q`
  have hgrid : ∀ k : ℕ, |finiteValue false e f - r| ≤ |(k : ℚ) * 2 ^ q - r| := by
    intro k
    rw [hval, abs_mul_zpow_sub, abs_mul_zpow_sub]
    have := (hs k).1
    push_cast at this
    gcongr
  refine ⟨hbelow, fun n e' f' => ?_, fun n e' f' htie hne => ?_⟩
  · obtain ⟨k, hk, -⟩ := exists_grid_nearer hr hoff n e' f'
    exact (hgrid k).trans hk
  · obtain ⟨k, hk, hon⟩ := exists_grid_nearer hr hoff n e' f'
    -- a value as near as the nearest is a grid point as near as `s * 2 ^ q`
    have hkeq : |(k : ℚ) * 2 ^ q - r| = |finiteValue false e f - r| :=
      le_antisymm (htie ▸ hk) (hgrid k)
    have hvk : finiteValue n e' f' = k * 2 ^ q := hon (by rw [htie, hkeq])
    rw [hval, abs_mul_zpow_sub, abs_mul_zpow_sub] at hkeq
    have htie' : |((k : ℤ) : ℚ) - r / 2 ^ q| = |(s : ℚ) - r / 2 ^ q| := by
      push_cast
      exact mul_left_cancel₀ hp.ne' hkeq
    rcases (hs k).2 htie' with hks | hev
    · exact absurd (by rw [hvk, hval, show k = s by exact_mod_cast hks]) hne
    · exact heven hev

/-! ### Rounding a ratio -/

/-- A rational from zero to half the least subnormal value, `2 ^ -1075`, rounds to positive
zero. -/
theorem roundsFrom_zero {r : ℚ} (h0 : 0 ≤ r) (h : r ≤ 2 ^ (-1075 : ℤ)) : RoundsFrom r zero := by
  have hzero : finiteValue false 0 0 = 0 := by simp [significand]
  have hhalf : (2 : ℚ) ^ (-1074 : ℤ) = 2 * 2 ^ (-1075 : ℤ) := by
    rw [show (-1074 : ℤ) = 1 + -1075 by norm_num, zpow_add₀ two_ne_zero, zpow_one]
  refine ⟨?_, fun n e f => ?_, fun _ _ _ _ _ => rfl⟩
  · have h1 : (2 : ℚ) ^ (-1075 : ℤ) ≤ 2 ^ (1023 : ℤ) := zpow_le_zpow_right₀ (by norm_num) (by norm_num)
    linarith [overflowThreshold_bounds.1]
  · rw [hzero, zero_sub, abs_neg, abs_of_nonneg h0]
    rcases Nat.eq_zero_or_pos (significand e f) with hm | hm
    · -- another zero
      rw [show finiteValue n e f = 0 by cases n <;> simp [hm], zero_sub, abs_neg,
        abs_of_nonneg h0]
    · -- a value at least the least subnormal one
      have hlow : (2 : ℚ) ^ (-1074 : ℤ) ≤ |finiteValue n e f| := by
        rw [abs_finiteValue]
        calc (2 : ℚ) ^ (-1074 : ℤ) ≤ 1 * 2 ^ scale e := by
              rw [one_mul]; exact zpow_le_zpow_right₀ (by norm_num) (scale_bounds e).1
          _ ≤ significand e f * 2 ^ scale e := by gcongr; exact_mod_cast hm
      have := abs_sub_abs_le_abs_sub (finiteValue n e f) r
      rw [abs_of_nonneg h0] at this
      linarith

/-- Rounding at the unit of the binade. Let `2 ^ e ≤ r < 2 ^ (e + 1)` with `e < 1024`, let the unit
be `2 ^ q` with `q = max e (-1022) - 52`, and let `s` be an integer nearest to `r / 2 ^ q`, ties to
even. Then `ofScaled s q` is `r` rounded. -/
theorem roundsFrom_ofScaled {r : ℚ} {e : ℤ} {s : ℕ} (hlo : 2 ^ e ≤ r) (hhi : r < 2 ^ (e + 1))
    (he : e < 1024) (hs : NearestInteger (r / 2 ^ (max e (-1022) - 52)) s) :
    RoundsFrom r (ofScaled s (max e (-1022) - 52)) := by
  set q := max e (-1022) - 52 with hq
  have hp : (0 : ℚ) < 2 ^ q := by positivity
  have hr : 0 ≤ r := le_trans (by positivity) hlo
  -- the ratio sits below `2 ^ 53` units, and from `2 ^ 52` units up above the subnormal range
  have ht : r / 2 ^ q < 2 ^ 53 := by
    rw [div_lt_iff₀ hp]
    calc r < 2 ^ (e + 1) := hhi
      _ ≤ 2 ^ (q + 53) := zpow_le_zpow_right₀ (by norm_num) (by omega)
      _ = 2 ^ 53 * 2 ^ q := by rw [zpow_add₀ two_ne_zero, mul_comm]; norm_num
  have hoff : -1074 < q → 2 ^ (q + 52) ≤ r := fun h => by
    rw [show q + 52 = e by omega]; exact hlo
  have hs53 : s ≤ 2 ^ 53 := by
    have := nearestInteger_le hs (b := 2 ^ 53) (by push_cast; exact ht.le)
    omega
  have hsub : s < 2 ^ 52 → q = -1074 := by
    intro hlow
    by_contra hne
    have h52 : ((2 ^ 52 : ℤ) : ℚ) ≤ r / 2 ^ q := by
      rw [le_div_iff₀ hp]
      have := hoff (by omega)
      rw [zpow_add₀ two_ne_zero] at this
      push_cast
      linarith
    have := le_of_nearestInteger hs h52
    omega
  have hlast : q = 971 ∨ e + 1 ≤ 1023 := by omega
  obtain ⟨hinf, hfin⟩ := ofScaled_spec hs53 (by omega) (by omega) hsub
  have hcarry := nearestInteger_eq_two_pow_iff hs ht
  by_cases hover : s = 2 ^ 53 ∧ q = 971
  · -- the carry out of the last binade overflows
    rw [hinf hover]
    show overflowThreshold ≤ r
    have ht' := hcarry.mp hover.1
    rw [hover.2, le_div_iff₀ (by positivity)] at ht'
    rwa [overflowThreshold_eq]
  · obtain ⟨e', f', hx, hval, heven⟩ := hfin hover
    rw [hx]
    refine nearestTo_of_grid hr ?_ hoff hs hval heven
    -- below the threshold: either a binade below the last, or no carry in the last
    rcases hlast with hlast | hlast
    · have hlt : r / 2 ^ q < 2 ^ 53 - 1 / 2 :=
        lt_of_not_ge fun h => hover ⟨hcarry.mpr h, hlast⟩
      rw [hlast, div_lt_iff₀ (by positivity)] at hlt
      rwa [overflowThreshold_eq]
    · calc r < 2 ^ (e + 1) := hhi
        _ ≤ 2 ^ (1023 : ℤ) := zpow_le_zpow_right₀ (by norm_num) hlast
        _ < overflowThreshold := overflowThreshold_bounds.1

/-- **Rounding a ratio.** For `den > 0`, `ofRatio num den` is the binary64 value that rounding
`num / den` to nearest, ties to even, delivers. -/
theorem ofRatio_roundsFrom (num : ℕ) {den : ℕ} (hden : 0 < den) :
    RoundsFrom (num / den) (ofRatio num den) := by
  rcases Nat.eq_zero_or_pos num with rfl | hnum
  · rw [ofRatio, if_pos rfl, Nat.cast_zero, zero_div]
    exact roundsFrom_zero le_rfl (by positivity)
  obtain ⟨hlo, hhi⟩ := log2Ratio_spec hnum hden
  rw [ofRatio, if_neg hnum.ne']
  simp only
  split_ifs with he
  · -- from `2 ^ 1024` up
    show overflowThreshold ≤ num / den
    calc overflowThreshold ≤ 2 ^ (1024 : ℤ) := overflowThreshold_bounds.2.le
      _ ≤ 2 ^ log2Ratio num den := zpow_le_zpow_right₀ (by norm_num) he
      _ ≤ num / den := hlo
  · have hs := @roundDiv_nearest (num * 2 ^ (-(max (log2Ratio num den) (-1022) - 52)).toNat)
      (den * 2 ^ (max (log2Ratio num den) (-1022) - 52).toNat) (by positivity)
    rw [scaled_ratio hden] at hs
    exact roundsFrom_ofScaled hlo hhi (lt_of_not_ge he) hs

end LoxLexer.Binary64
