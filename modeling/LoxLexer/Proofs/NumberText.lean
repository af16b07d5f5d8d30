import LoxLexer.Proofs.ShortestDecimal
import LoxLexer.Token.Basic

/-!
# The text of a number

A number literal is written as `nan`, as `inf` after its sign, or, for a finite value, as its sign
followed by a decimal for its magnitude: `0.0` for zero, and otherwise a shortest decimal that
rounds to the value (`Binary64.shortestMagnitude_spec`). That decimal is written positionally, with
at least one digit after the point, when its leading digit has a decimal exponent from -4 to 15,
and otherwise as one digit, perhaps a point and more digits, `e`, the sign of the exponent and at
least two exponent digits.

This file states that format on its own terms, as rules on the characters of the text and the
value they read as (`PositionalText`, `ExponentText`, `NumberText`), and proves that
`Literal.numberNotation.render` follows it for every value.

## Main definitions

* `PlainDigits ds a`: `ds` are the decimal digits of `a`, with no zero at either end.
* `PositionalText`, `ExponentText`, `DecimalText`: a positive decimal written out.
* `ShortestDigits e f d`: `d` is a shortest decimal for the value with fields `e` and `f`.
* `NumberText x t`: `t` is the text of the binary64 value `x`.

## Main results

* `toDigits_plainDigits`: `Nat.toDigits` writes a number without a trailing zero plainly.
* `layout_decimalText`: the layout of such digits follows `DecimalText`.
* `numberNotation_render_numberText`: every value is written as `NumberText` says.
* `number_literal_text`: so is the literal of every number token.
-/

namespace LoxLexer

open Binary64

/-! ### Digits -/

@[simp] theorem digitsValue_nil : digitsValue [] = 0 := rfl

theorem foldl_digitsValue (ds : List Char) (n : ℕ) :
    ds.foldl (fun n c => 10 * n + (c.toNat - '0'.toNat)) n = n * 10 ^ ds.length + digitsValue ds := by
  induction ds generalizing n with
  | nil => simp
  | cons c ds ih =>
    -- `digitsValue (c :: ds)` is the same fold, started from the first digit
    change ds.foldl (fun n c => 10 * n + (c.toNat - '0'.toNat)) (10 * n + (c.toNat - '0'.toNat)) =
      n * 10 ^ (ds.length + 1) +
        ds.foldl (fun n c => 10 * n + (c.toNat - '0'.toNat)) (10 * 0 + (c.toNat - '0'.toNat))
    rw [ih, ih, pow_succ]
    ring

/-- Digits after digits: the first ones shift by the length of the others. -/
theorem digitsValue_append (xs ys : List Char) :
    digitsValue (xs ++ ys) = digitsValue xs * 10 ^ ys.length + digitsValue ys := by
  rw [digitsValue, List.foldl_append, foldl_digitsValue]
  rfl

theorem digitsValue_cons (c : Char) (ds : List Char) :
    digitsValue (c :: ds) = (c.toNat - '0'.toNat) * 10 ^ ds.length + digitsValue ds := by
  change ds.foldl (fun n c => 10 * n + (c.toNat - '0'.toNat)) (10 * 0 + (c.toNat - '0'.toNat)) = _
  rw [foldl_digitsValue]
  ring

/-- Leading zeros add nothing. -/
@[simp] theorem digitsValue_zeros_append (n : ℕ) (ds : List Char) :
    digitsValue (Notation.zeros n ++ ds) = digitsValue ds := by
  induction n with
  | zero => rfl
  | succ n ih =>
    rw [Notation.zeros, List.replicate_succ, List.cons_append, digitsValue_cons, ← Notation.zeros,
      ih]
    simp

@[simp] theorem digitsValue_zeros (n : ℕ) : digitsValue (Notation.zeros n) = 0 := by
  simpa using digitsValue_zeros_append n []

@[simp] theorem length_zeros (n : ℕ) : (Notation.zeros n).length = n := List.length_replicate

theorem isDigit_of_mem_zeros {n : ℕ} {c : Char} (h : c ∈ Notation.zeros n) : c.isDigit := by
  rw [Notation.zeros, List.mem_replicate] at h
  rw [h.2]
  rfl

theorem digitChar_ne_zero {k : ℕ} (hk : k < 10) (h0 : k ≠ 0) : Nat.digitChar k ≠ '0' := by
  intro h
  have := Nat.toNat_digitChar_of_lt_ten hk
  rw [h] at this
  exact h0 (by simp at this; omega)

/-- `ds` are the decimal digits of the positive natural `a`, the first and the last of them not
zero. -/
structure PlainDigits (ds : List Char) (a : ℕ) : Prop where
  isDigit : ∀ c ∈ ds, c.isDigit
  head : ∃ c rest, ds = c :: rest ∧ c ≠ '0'
  last : ds.getLast? ≠ some '0'
  value : digitsValue ds = a

/-- The last digit comes off the end. -/
theorem toDigits_eq_append (n : ℕ) :
    ∃ init, Nat.toDigits 10 n = init ++ [Nat.digitChar (n % 10)] ∧
      (n < 10 → init = []) ∧ (10 ≤ n → init = Nat.toDigits 10 (n / 10)) := by
  rw [Nat.toDigits_eq_if (by norm_num)]
  split_ifs with h
  · exact ⟨[], by rw [Nat.mod_eq_of_lt h]; rfl, fun _ => rfl, fun h' => absurd h' (by omega)⟩
  · exact ⟨_, rfl, fun h' => absurd h' h, fun _ => rfl⟩

theorem toDigits_value (n : ℕ) : digitsValue (Nat.toDigits 10 n) = n := by
  induction n using Nat.strong_induction_on with
  | _ n ih =>
    obtain ⟨init, hn, hsmall, hbig⟩ := toDigits_eq_append n
    rw [hn, digitsValue_append, digitsValue_cons, digitsValue_nil,
      Nat.toNat_digitChar_of_lt_ten (Nat.mod_lt n (by norm_num))]
    rcases lt_or_ge n 10 with h | h
    · rw [hsmall h]
      simp
      omega
    · rw [hbig h, ih (n / 10) (by omega)]
      simp
      omega

theorem toDigits_head {n : ℕ} (hn : 0 < n) :
    ∃ c rest, Nat.toDigits 10 n = c :: rest ∧ c ≠ '0' := by
  induction n using Nat.strong_induction_on with
  | _ n ih =>
    obtain ⟨init, hn', hsmall, hbig⟩ := toDigits_eq_append n
    rcases lt_or_ge n 10 with h | h
    · rw [hn', hsmall h, Nat.mod_eq_of_lt h]
      exact ⟨_, [], rfl, digitChar_ne_zero h (by omega)⟩
    · obtain ⟨c, rest, hc, hc0⟩ := ih (n / 10) (by omega) (by omega)
      rw [hn', hbig h, hc]
      exact ⟨c, _, rfl, hc0⟩

theorem toDigits_length (n : ℕ) : (Nat.toDigits 10 n).length = Decimal.length n := by
  induction n using Nat.strong_induction_on with
  | _ n ih =>
    obtain ⟨init, hn, hsmall, hbig⟩ := toDigits_eq_append n
    rw [hn, Decimal.length]
    split_ifs with h
    · rw [hsmall h]
      rfl
    · rw [hbig (by omega), List.length_append, ih (n / 10) (by omega)]
      rfl

/-- `Nat.toDigits` writes a positive number with no trailing zero plainly. -/
theorem toDigits_plainDigits {a : ℕ} (ha : 0 < a) (hmod : a % 10 ≠ 0) :
    PlainDigits (Nat.toDigits 10 a) a where
  isDigit _ h := Nat.isDigit_of_mem_toDigits (by norm_num) (by norm_num) h
  head := toDigits_head ha
  last := by
    obtain ⟨init, ha', -, -⟩ := toDigits_eq_append a
    rw [ha', List.getLast?_append, List.getLast?_singleton]
    simpa using digitChar_ne_zero (Nat.mod_lt a (by norm_num)) hmod
  value := toDigits_value a

/-! ### The format -/

/-- `t` writes the rational `v` positionally: digits, a point and digits, with something on each
side of the point, no leading zero before it but a lone `0`, and no trailing zero after it but a
lone `0`. The digits read as one number, over ten to the number of digits after the point, give
`v`. -/
def PositionalText (t : List Char) (v : ℚ) : Prop :=
  ∃ whole fraction : List Char, t = whole ++ '.' :: fraction ∧
    (∀ c ∈ whole ++ fraction, c.isDigit) ∧
    whole ≠ [] ∧ (whole.head? = some '0' → whole = ['0']) ∧
    fraction ≠ [] ∧ (fraction.getLast? = some '0' → fraction = ['0']) ∧
    v = digitsValue (whole ++ fraction) / 10 ^ fraction.length

/-- `t` writes the rational `v` with the decimal exponent `E`: a digit other than zero, a point and
more digits only when there are more, the last of them not zero, then `e`, the sign of `E` and the
digits of `E`, at least two, with no leading zero beyond those two. The digits before `e`, with
the point after the first, are the number that `10 ^ E` scales. -/
def ExponentText (t : List Char) (v : ℚ) (E : ℤ) : Prop :=
  ∃ (lead : Char) (rest power : List Char),
    t = lead :: (if rest = [] then [] else '.' :: rest) ++
      'e' :: (if E < 0 then '-' else '+') :: power ∧
    (∀ c ∈ lead :: rest ++ power, c.isDigit) ∧ lead ≠ '0' ∧ rest.getLast? ≠ some '0' ∧
    2 ≤ power.length ∧ (power.head? = some '0' → power.length = 2) ∧
    digitsValue power = E.natAbs ∧
    v = digitsValue (lead :: rest) * 10 ^ (E - rest.length)

/-- `t` writes the positive rational `v`, whose leading digit has the decimal exponent `E`, that is
`10 ^ E ≤ v < 10 ^ (E + 1)`: positionally when `-4 ≤ E < 16`, and with the exponent `E`
otherwise. -/
def DecimalText (t : List Char) (v : ℚ) : Prop :=
  ∃ E : ℤ, 10 ^ E ≤ v ∧ v < 10 ^ (E + 1) ∧
    (-4 ≤ E ∧ E < 16 → PositionalText t v) ∧ (¬ (-4 ≤ E ∧ E < 16) → ExponentText t v E)

/-- The leading digit of a positive decimal has the decimal exponent
`exponent + length digits - 1`. -/
theorem Decimal.leading_bounds {d : Decimal} (hd : 0 < d.digits) :
    (10 : ℚ) ^ (d.exponent + Decimal.length d.digits - 1) ≤ d.value ∧
      d.value < 10 ^ (d.exponent + Decimal.length d.digits - 1 + 1) := by
  obtain ⟨hlo, hhi⟩ := Decimal.length_spec hd
  have hlo' : (10 : ℚ) ^ (Decimal.length d.digits - 1) ≤ d.digits := by exact_mod_cast hlo
  have hhi' : (d.digits : ℚ) < 10 ^ Decimal.length d.digits := by exact_mod_cast hhi
  have hten : (10 : ℚ) ≠ 0 := by norm_num
  rw [Decimal.value]
  constructor
  · calc (10 : ℚ) ^ (d.exponent + (Decimal.length d.digits : ℤ) - 1)
        = 10 ^ (Decimal.length d.digits - 1) * 10 ^ d.exponent := by
          rw [← zpow_natCast, ← zpow_add₀ hten]
          congr 1
          have := Decimal.length_pos d.digits
          omega
      _ ≤ d.digits * 10 ^ d.exponent := by gcongr
  · calc (d.digits : ℚ) * 10 ^ d.exponent < 10 ^ Decimal.length d.digits * 10 ^ d.exponent := by
          gcongr
      _ = 10 ^ (d.exponent + (Decimal.length d.digits : ℤ) - 1 + 1) := by
          rw [← zpow_natCast, ← zpow_add₀ hten]
          congr 1
          ring

/-! ### The layout of plain digits -/

section Layout

variable {ds : List Char} {a : ℕ}

/-- Below one: `0.`, zeros, and the digits. -/
theorem positionalText_below_one (h : PlainDigits ds a) (k : ℕ) :
    PositionalText ('0' :: '.' :: Notation.zeros k ++ ds) (a / 10 ^ (k + ds.length)) := by
  have hne : ds ≠ [] := by
    obtain ⟨c, rest, rfl, -⟩ := h.head
    exact List.cons_ne_nil c rest
  refine ⟨['0'], Notation.zeros k ++ ds, rfl, fun c hc => ?_, by simp, fun _ => rfl, by simp [hne],
    fun hlast => ?_, ?_⟩
  · simp only [List.singleton_append, List.mem_cons, List.mem_append] at hc
    rcases hc with rfl | hc | hc
    · rfl
    · exact isDigit_of_mem_zeros hc
    · exact h.isDigit c hc
  · rw [List.getLast?_append_of_ne_nil _ hne] at hlast
    exact absurd hlast h.last
  · rw [List.singleton_append, digitsValue_cons, Nat.sub_self, zero_mul, zero_add,
      digitsValue_zeros_append, h.value, List.length_append, length_zeros]

/-- A whole number: the digits, zeros, and `.0`. -/
theorem positionalText_whole (h : PlainDigits ds a) (k : ℕ) :
    PositionalText (ds ++ Notation.zeros k ++ ['.', '0']) (a * 10 ^ k) := by
  obtain ⟨c, rest, rfl, hc⟩ := h.head
  refine ⟨c :: rest ++ Notation.zeros k, ['0'], by simp, fun x hx => ?_, by simp,
    fun hh => absurd (by simpa using hh) hc, by simp, fun _ => rfl, ?_⟩
  · simp only [List.append_assoc, List.mem_append] at hx
    rcases hx with hx | hx | hx
    · exact h.isDigit x hx
    · exact isDigit_of_mem_zeros hx
    · rw [List.mem_singleton.mp hx]
      rfl
  · rw [digitsValue_append, digitsValue_append, digitsValue_zeros, h.value,
      show digitsValue ['0'] = 0 from rfl]
    simp

/-- A point among the digits: the first `p` of them, the point, and the others. -/
theorem positionalText_split (h : PlainDigits ds a) {p : ℕ} (hp : 0 < p) (hpl : p < ds.length) :
    PositionalText (ds.take p ++ '.' :: ds.drop p) (a / 10 ^ (ds.length - p)) := by
  obtain ⟨c, rest, hds, hc⟩ := h.head
  have hdrop : ds.drop p ≠ [] := by
    rw [ne_eq, List.drop_eq_nil_iff]
    omega
  refine ⟨ds.take p, ds.drop p, rfl, by rw [List.take_append_drop]; exact h.isDigit,
    by simp [hds]; omega, fun hh => ?_, hdrop, fun hlast => ?_, ?_⟩
  · -- the first digit is not zero
    rw [hds, List.take_cons hp, List.head?_cons] at hh
    exact absurd (Option.some_inj.mp hh) hc
  · -- the last digit is not zero
    have := h.last
    rw [← List.take_append_drop p ds, List.getLast?_append_of_ne_nil _ hdrop] at this
    exact absurd hlast this
  · rw [List.take_append_drop, h.value, List.length_drop]

/-- With an exponent: the first digit, a point and the other digits if there are any, `e`, the sign
of the exponent, and its digits, padded to two. -/
theorem exponentText_of_plainDigits {c : Char} {rest : List Char} (h : PlainDigits (c :: rest) a)
    (E : ℤ) :
    ExponentText ((if rest = [] then [c] else c :: '.' :: rest) ++
        'e' :: (if E < 0 then '-' else '+') ::
          Notation.zeros (2 - (Nat.toDigits 10 E.natAbs).length) ++ Nat.toDigits 10 E.natAbs)
      (a * 10 ^ (E - rest.length)) E := by
  obtain ⟨c', rest', hcr, hc⟩ := h.head
  obtain ⟨rfl, rfl⟩ := List.cons_eq_cons.mp hcr
  refine ⟨c, rest, Notation.zeros (2 - (Nat.toDigits 10 E.natAbs).length) ++
    Nat.toDigits 10 E.natAbs, by split_ifs <;> simp, fun x hx => ?_, hc, fun hlast => ?_,
    by simp only [List.length_append, length_zeros]; omega,
    fun hhead => ?_, by simp [toDigits_value], by rw [h.value]⟩
  · simp only [List.cons_append, List.mem_cons, List.mem_append] at hx
    rcases hx with rfl | hx | hx | hx
    · exact h.isDigit x (List.mem_cons_self)
    · exact h.isDigit x (List.mem_cons_of_mem c hx)
    · exact isDigit_of_mem_zeros hx
    · exact Nat.isDigit_of_mem_toDigits (by norm_num) (by norm_num) hx
  · -- the last digit of the digits is the last of `rest`
    have hne : rest ≠ [] := by
      rintro rfl
      simp at hlast
    have := h.last
    rw [← List.singleton_append, List.getLast?_append_of_ne_nil _ hne] at this
    exact this hlast
  · -- three exponent digits or more start with a digit other than zero
    rcases lt_or_ge (Nat.toDigits 10 E.natAbs).length 2 with hlt | hge
    · simp
      omega
    · have hE : 0 < E.natAbs := by
        by_contra h0
        rw [show E.natAbs = 0 by omega] at hge
        simp at hge
      obtain ⟨d, ds', hd, hd0⟩ := toDigits_head hE
      rw [show 2 - (Nat.toDigits 10 E.natAbs).length = 0 by omega, hd,
        show Notation.zeros 0 = [] from rfl, List.nil_append, List.head?_cons] at hhead
      exact absurd (Option.some_inj.mp hhead) hd0

/-- **Layout.** The digits of a positive decimal with no trailing zero, laid out in the notation of
number literals with the decimal exponent of the leading digit, write the decimal as
`DecimalText` says. -/
theorem layout_decimalText {d : Decimal} (hd : 0 < d.digits) (hmod : d.digits % 10 ≠ 0) :
    DecimalText (Literal.numberNotation.layout (Nat.toDigits 10 d.digits)
      (d.exponent + (Nat.toDigits 10 d.digits).length - 1)) d.value := by
  have h := toDigits_plainDigits hd hmod
  have hL : (Nat.toDigits 10 d.digits).length = Decimal.length d.digits := toDigits_length _
  generalize Nat.toDigits 10 d.digits = ds at h hL ⊢
  have hlead := Decimal.leading_bounds hd
  rw [← hL] at hlead
  refine ⟨_, hlead.1, hlead.2, fun hplain => ?_, fun hexp => ?_⟩
  · unfold Notation.layout
    rw [if_pos (show Literal.numberNotation.plainFrom ≤ _ ∧ _ < Literal.numberNotation.plainBelow
      from hplain)]
    split_ifs with hneg hwhole
    · -- below one
      have hv : d.value =
          d.digits / 10 ^ ((-(d.exponent + ds.length - 1) - 1).toNat + ds.length) := by
        rw [Decimal.value, ← zpow_natCast, div_eq_mul_inv, ← zpow_neg]
        congr 2
        omega
      rw [hv]
      exact positionalText_below_one h _
    · -- a whole number
      have hv : d.value =
          d.digits * 10 ^ ((d.exponent + ds.length - 1).toNat + 1 - ds.length) := by
        rw [Decimal.value, ← zpow_natCast]
        congr 2
        omega
      rw [hv]
      exact positionalText_whole h _
    · -- a point among the digits
      have hv : d.value =
          d.digits / 10 ^ (ds.length - ((d.exponent + ds.length - 1).toNat + 1)) := by
        rw [Decimal.value, ← zpow_natCast, div_eq_mul_inv, ← zpow_neg]
        congr 2
        omega
      rw [hv]
      exact positionalText_split h (by omega) (by omega)
  · unfold Notation.layout
    rw [if_neg (show ¬ (Literal.numberNotation.plainFrom ≤ _ ∧ _ < Literal.numberNotation.plainBelow)
      from hexp)]
    obtain ⟨c, rest, rfl, -⟩ := h.head
    have hv : d.value = d.digits * 10 ^ (d.exponent + ((c :: rest).length : ℤ) - 1 - rest.length) := by
      rw [Decimal.value]
      congr 2
      simp only [List.length_cons]
      push_cast
      ring
    rw [hv]
    have hlay := exponentText_of_plainDigits h (d.exponent + (c :: rest).length - 1)
    -- the first digit alone, or with a point and the others
    cases rest with
    | nil =>
        rw [if_pos rfl] at hlay
        exact hlay
    | cons r rs =>
        rw [if_neg (List.cons_ne_nil r rs)] at hlay
        exact hlay

end Layout

/-! ### The text of a binary64 value -/

/-- `d` is a shortest decimal for the positive finite value with fields `e` and `f`: it rounds to
the value, no decimal that rounds to the value has fewer significant digits, and of those with as
few it is the nearest to the value. -/
structure ShortestDigits (e : Fin 2047) (f : Fin (2 ^ 52)) (d : Decimal) : Prop where
  roundsFrom : RoundsFrom d.value (finite false e f)
  fewest : ∀ d' : Decimal, RoundsFrom d'.value (finite false e f) →
    d.significantDigits ≤ d'.significantDigits
  nearest : ∀ d' : Decimal, RoundsFrom d'.value (finite false e f) →
    d'.significantDigits = d.significantDigits →
      |d.value - finiteValue false e f| ≤ |d'.value - finiteValue false e f|

/-- The sign of a value as text: `-` for a negative one, nothing otherwise. -/
def signText (negative : Bool) : List Char := if negative then ['-'] else []

/-- `t` is the text of the binary64 value `x`: `nan` for NaN, `inf` after the sign for an infinity,
`0.0` after the sign for a zero, and for any other finite value its sign followed by the text of a
shortest decimal for its magnitude. -/
def NumberText : Binary64 → List Char → Prop
  | .nan, t => t = ['n', 'a', 'n']
  | .infinity negative, t => t = signText negative ++ ['i', 'n', 'f']
  | .finite negative e f, t =>
    ∃ body, t = signText negative ++ body ∧
      if e.val = 0 ∧ f.val = 0 then body = ['0', '.', '0']
      else ∃ d : Decimal, ShortestDigits e f d ∧ DecimalText body d.value

/-- **The text of a number.** Every binary64 value is written as `NumberText` says: NaN as `nan`,
the infinities as `inf` and `-inf`, the zeros as `0.0` and `-0.0`, and every other finite value as
its sign and a shortest decimal that rounds to its magnitude, written positionally when the leading
digit has a decimal exponent from -4 to 15 and with a signed exponent of at least two digits
otherwise. -/
theorem numberNotation_render_numberText (x : Binary64) :
    NumberText x (Literal.numberNotation.render x).toList := by
  cases x with
  | nan => rfl
  | infinity negative => cases negative <;> rfl
  | finite negative e f =>
    simp only [Notation.render]
    by_cases hz : e.val = 0 ∧ f.val = 0
    · refine ⟨['0', '.', '0'], ?_, by rw [if_pos hz]⟩
      rw [if_pos hz, String.toList_append]
      cases negative <;> rfl
    · -- a value other than zero: the digits of its shortest decimal, laid out
      have hm : 0 < significand e f := by
        unfold significand
        split_ifs <;> omega
      obtain ⟨hround, hfew, hnear, hpos, hmod⟩ := shortestMagnitude_spec hm
      refine ⟨Literal.numberNotation.layout (Nat.toDigits 10 (shortestMagnitude e f).digits)
        ((shortestMagnitude e f).exponent + (Nat.toDigits 10 (shortestMagnitude e f).digits).length
          - 1), ?_, ?_⟩
      · rw [if_neg hz, String.toList_append, String.toList_ofList]
        cases negative <;> rfl
      · rw [if_neg hz]
        exact ⟨shortestMagnitude e f, ⟨hround, hfew, fun d' hd' heq => hnear d' hd' heq.le⟩,
          layout_decimalText hpos hmod⟩

-- at `10 ^ 16` and below `10 ^ -4` the exponent is written, with two digits
example : Literal.numberNotation.render (.finite false 1076 ⟨496400372629504, by decide⟩) =
    "1e+16" := by decide +kernel
example : Literal.numberNotation.render (.finite false 1006 ⟨4350837528010089, by decide⟩) =
    "1.5e-05" := by decide +kernel
example : Literal.numberNotation.render (.finite true 1009 ⟨2875098002113325, by decide⟩) =
    "-0.0001" := by decide +kernel

/-- **A number literal as a token prints it.** The literal of a number is printed as the text that
`NumberText` describes for its value. -/
theorem number_literal_text (x : Binary64) :
    ∃ t, NumberText x t ∧ (Literal.number x).render = Text.ofString (String.ofList t) :=
  ⟨_, numberNotation_render_numberText x, by rw [String.ofList_toList]; rfl⟩

end LoxLexer
