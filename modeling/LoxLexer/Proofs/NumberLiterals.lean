import LoxLexer.Proofs.Rounding
import LoxLexer.Proofs.Relex

/-!
# Number literals

A number token's lexeme is a numeral: ASCII digits, then perhaps a point and more digits, of any
length and with leading zeros allowed. Its literal is the exact value of the numeral rounded to
binary64, to nearest with ties to even. From `2 ^ 1024 - 2 ^ 970` up that is infinity, and a
value small enough gives a subnormal value or zero. It is never negative and never NaN.

The literal is computed by `Binary64.ofScientific`. It reads the numeral as `m * 10 ^ e`, settles
huge and tiny values by the decimal length of `m` alone, and rounds the rest as an exact ratio
(`Binary64.ofRatio_roundsFrom`). The wider reader `Binary64.ofText?`, which reads a number text
given by hand, reads every numeral and gives the same value.

## Main definitions

* `digitsNumber`: the number a run of decimal digits stands for.
* `numeralValue`: the exact value of a numeral.

## Main results

* `Binary64.ofScientific_roundsFrom`: `ofScientific m e` is `m * 10 ^ e` rounded.
* `Binary64.ofText?_numeral`: the reader of number text reads a numeral as the scan does.
* `number_literal_rounds_value`: every number token carries its numeral's value, rounded.
-/

namespace LoxLexer

open Grammar Piece

/-! ### Huge and tiny decimals -/

namespace Decimal

/-- A positive natural has `length m` decimal digits. -/
theorem length_spec {m : ℕ} (hm : 0 < m) : 10 ^ (length m - 1) ≤ m ∧ m < 10 ^ length m := by
  induction m using Nat.strong_induction_on with
  | _ m ih =>
    rw [length]
    split_ifs with h
    · simp only [Nat.sub_self, pow_zero, pow_one]
      omega
    · -- one digit more than the number without its last digit
      obtain ⟨hlo, hhi⟩ := ih (m / 10) (by omega) (by omega)
      obtain ⟨L, hL⟩ : ∃ L, length (m / 10) = L + 1 := ⟨_, (Nat.succ_pred_eq_of_pos
        (length_pos (m / 10))).symm⟩
      rw [hL, Nat.add_sub_cancel] at hlo ⊢
      rw [hL] at hhi
      rw [pow_succ] at hhi ⊢
      rw [pow_succ]
      omega

end Decimal

namespace Binary64

/-- `2 ^ 1024 ≤ 10 ^ 310`: a decimal with its leading digit at `10 ^ 310` overflows. -/
theorem two_pow_le_ten_pow : (2 : ℚ) ^ (1024 : ℤ) ≤ 10 ^ (310 : ℤ) := by
  have h : (2 : ℕ) ^ 1024 ≤ 10 ^ 310 := by decide +kernel
  rw [show (1024 : ℤ) = ((1024 : ℕ) : ℤ) from rfl, show (310 : ℤ) = ((310 : ℕ) : ℤ) from rfl,
    zpow_natCast, zpow_natCast]
  exact_mod_cast h

/-- `10 ^ -331 ≤ 2 ^ -1075`: a decimal below `10 ^ -331` rounds to zero. -/
theorem ten_pow_le_two_pow : (10 : ℚ) ^ (-331 : ℤ) ≤ 2 ^ (-1075 : ℤ) := by
  have h : (2 : ℕ) ^ 1075 ≤ 10 ^ 331 := by decide +kernel
  rw [show (-331 : ℤ) = -((331 : ℕ) : ℤ) from rfl, show (-1075 : ℤ) = -((1075 : ℕ) : ℤ) from rfl,
    zpow_neg, zpow_neg, zpow_natCast, zpow_natCast, inv_le_inv₀ (by positivity) (by positivity)]
  exact_mod_cast h

/-- **Reading a decimal.** `ofScientific m e` is `m * 10 ^ e` rounded to nearest, ties to even:
the shortcuts for huge and tiny values agree with the rounding, and the rest is an exact ratio. -/
theorem ofScientific_roundsFrom (m : ℕ) (e : ℤ) : RoundsFrom (m * 10 ^ e) (ofScientific m e) := by
  unfold ofScientific
  dsimp only
  split_ifs with hm htop hbot he
  · rw [hm, Nat.cast_zero, zero_mul]
    exact roundsFrom_zero le_rfl (by positivity)
  all_goals
    have hlen := Decimal.length_spec (Nat.pos_of_ne_zero hm)
  · -- the leading digit is at `10 ^ 310` or above
    show overflowThreshold ≤ m * 10 ^ e
    have hlead : (10 : ℚ) ^ ((Decimal.length m - 1 : ℕ) : ℤ) ≤ m := by
      rw [zpow_natCast]; exact_mod_cast hlen.1
    calc overflowThreshold ≤ 2 ^ (1024 : ℤ) := overflowThreshold_bounds.2.le
      _ ≤ 10 ^ (310 : ℤ) := two_pow_le_ten_pow
      _ ≤ 10 ^ (((Decimal.length m - 1 : ℕ) : ℤ) + e) :=
          zpow_le_zpow_right₀ (by norm_num) (by have := Decimal.length_pos m; omega)
      _ = 10 ^ ((Decimal.length m - 1 : ℕ) : ℤ) * 10 ^ e := zpow_add₀ (by norm_num) _ _
      _ ≤ m * 10 ^ e := by gcongr
  · -- the value lies below `10 ^ -331`
    refine roundsFrom_zero (by positivity) ?_
    have hm' : (m : ℚ) < 10 ^ (Decimal.length m : ℤ) := by
      rw [zpow_natCast]; exact_mod_cast hlen.2
    calc (m : ℚ) * 10 ^ e ≤ 10 ^ (Decimal.length m : ℤ) * 10 ^ e := by gcongr
      _ = 10 ^ ((Decimal.length m : ℤ) + e) := (zpow_add₀ (by norm_num) _ _).symm
      _ ≤ 10 ^ (-331 : ℤ) := zpow_le_zpow_right₀ (by norm_num) (by omega)
      _ ≤ 2 ^ (-1075 : ℤ) := ten_pow_le_two_pow
  · -- a whole number
    have h := ofRatio_roundsFrom (m * 10 ^ e.toNat) Nat.one_pos
    rwa [Nat.cast_one, div_one, Nat.cast_mul, Nat.cast_pow, Nat.cast_ofNat, ← zpow_natCast,
      Int.toNat_of_nonneg (by omega)] at h
  · -- a ratio over a power of ten
    have h := @ofRatio_roundsFrom m (10 ^ (-e).toNat) (by positivity)
    rwa [Nat.cast_pow, Nat.cast_ofNat, ← zpow_natCast, Int.toNat_of_nonneg (by omega),
      div_eq_mul_inv, ← zpow_neg, neg_neg] at h

end Binary64

/-! ### The value of a numeral -/

theorem Text.chars_append (a b : Text) : Text.chars (a ++ b) = Text.chars a ++ Text.chars b :=
  List.filterMap_append

/-- The number that a run of decimal digits stands for, most significant first. -/
def digitsNumber (ds : Text) : ℕ := Nat.ofDigits 10 (ds.map fun c => c.toNat - 48).reverse

/-- The exact value of the numeral with the digits `whole` before its point and `fraction` after
it. -/
def numeralValue (whole fraction : Text) : ℚ :=
  digitsNumber whole + digitsNumber fraction / 10 ^ fraction.length

theorem digitsNumber_append (a b : Text) :
    digitsNumber (a ++ b) = digitsNumber a * 10 ^ b.length + digitsNumber b := by
  simp only [digitsNumber, List.map_append, List.reverse_append, Nat.ofDigits_append,
    List.length_reverse, List.length_map]
  ring

/-- Reading digits one at a time from the left, as `Binary64.digitsValue` does, gives their
number, after what was read before. -/
theorem foldl_chars_digits (ds : Text) (hd : ∀ c ∈ ds, c.isDigit = true) (n : ℕ) :
    (Text.chars ds).foldl (fun n c => 10 * n + (c.toNat - '0'.toNat)) n =
      n * 10 ^ ds.length + digitsNumber ds := by
  induction ds generalizing n with
  | nil => simp [Text.chars, digitsNumber]
  | cons c ds ih =>
      cases c with
      | surrogate => simp [CodePoint.isDigit] at hd
      | scalar ch =>
          have hrest := ih (fun x hx => hd x (List.mem_cons_of_mem _ hx))
          have hcons := digitsNumber_append [.scalar ch] ds
          simp only [List.singleton_append] at hcons
          simp only [Text.chars, List.filterMap_cons, CodePoint.toChar?, List.foldl_cons] at hrest ⊢
          rw [hrest, hcons]
          simp [digitsNumber, CodePoint.toNat, pow_succ]
          ring

theorem digitsValue_chars {ds : Text} (hd : ∀ c ∈ ds, c.isDigit = true) :
    Binary64.digitsValue (Text.chars ds) = digitsNumber ds := by
  rw [Binary64.digitsValue, foldl_chars_digits ds hd 0, zero_mul, zero_add]

theorem length_chars_digits {ds : Text} (hd : ∀ c ∈ ds, c.isDigit = true) :
    (Text.chars ds).length = ds.length := by
  induction ds with
  | nil => rfl
  | cons c ds ih =>
      cases c with
      | surrogate => simp [CodePoint.isDigit] at hd
      | scalar ch =>
          simp only [Text.chars, List.filterMap_cons, CodePoint.toChar?, List.length_cons] at ih ⊢
          rw [ih fun x hx => hd x (List.mem_cons_of_mem _ hx)]

/-- The value of a numeral rounded: the reading of its digits, rounded once. -/
theorem ofNumeral_roundsFrom {whole fraction : Text} (hw : ∀ c ∈ whole, c.isDigit = true)
    (hf : ∀ c ∈ fraction, c.isDigit = true) :
    Binary64.RoundsFrom (numeralValue whole fraction)
      (Binary64.ofNumeral (Text.chars whole) (Text.chars fraction)) := by
  have hvalue : (numeralValue whole fraction : ℚ) =
      (Binary64.digitsValue (Text.chars whole ++ Text.chars fraction) : ℚ) *
        10 ^ (-((Text.chars fraction).length : ℤ)) := by
    have hall : ∀ c ∈ whole ++ fraction, c.isDigit = true := fun c hc =>
      (List.mem_append.mp hc).elim (hw c) (hf c)
    rw [← Text.chars_append, digitsValue_chars hall, length_chars_digits hf,
      digitsNumber_append, numeralValue, zpow_neg, zpow_natCast]
    push_cast
    field_simp
  rw [hvalue]
  exact Binary64.ofScientific_roundsFrom _ _

/-! ### Reading a numeral as number text -/

namespace Binary64

/-- A digit is ASCII, no blank and no underscore. -/
theorem isDigit_facts {d : Char} (hd : d.isDigit = true) :
    d.toNat < 127 ∧ isAsciiBlank d = false ∧ d ≠ '_' := by
  have hb : 48 ≤ d.toNat ∧ d.toNat ≤ 57 := by
    simp only [Char.isDigit, Bool.and_eq_true, decide_eq_true_eq, UInt32.le_iff_toNat_le] at hd
    exact hd
  refine ⟨by omega, ?_, fun h => by rw [h] at hb; simp at hb⟩
  simp only [isAsciiBlank, Bool.or_eq_false_iff, beq_eq_false_iff_ne, Bool.and_eq_false_iff,
    decide_eq_false_iff_not, Char.le_def, UInt32.le_iff_toNat_le]
  refine ⟨fun h => by rw [h] at hb; simp at hb, .inr ?_⟩
  show ¬ d.toNat ≤ 13
  omega

/-- ASCII text is its own ASCII form. -/
theorem asciiForm?_map_scalar {cs : List Char} (h : ∀ c ∈ cs, c.toNat < 127) :
    asciiForm? (cs.map .scalar) = some cs := by
  induction cs with
  | nil => rfl
  | cons c cs ih =>
      have hrest := ih fun x hx => h x (List.mem_cons_of_mem _ hx)
      unfold asciiForm? at hrest ⊢
      simp [List.mapM_cons, h c List.mem_cons_self, hrest]

/-- Text without blanks is its own trimmed form. -/
theorem trimBlanks_of_forall {cs : List Char} (h : ∀ c ∈ cs, isAsciiBlank c = false) :
    trimBlanks cs = cs := by
  have hkeep : ∀ l : List Char, (∀ c ∈ l, isAsciiBlank c = false) →
      l.dropWhile isAsciiBlank = l := by
    intro l hl
    cases l with
    | nil => rfl
    | cons c l => exact List.dropWhile_cons_of_neg (by simp [hl c List.mem_cons_self])
  rw [trimBlanks, hkeep cs h, hkeep cs.reverse (by simpa using h), List.reverse_reverse]

/-- Text without underscores keeps all its characters. -/
theorem dropUnderscores?_of_forall {cs : List Char} (h : '_' ∉ cs) {prev : Option Char}
    (hp : prev ≠ some '_') : dropUnderscores? prev cs = some cs := by
  induction cs generalizing prev with
  | nil => simp [dropUnderscores?, hp]
  | cons c cs ih =>
      have hc : c ≠ '_' := fun h' => h (h' ▸ List.mem_cons_self)
      rw [dropUnderscores?, if_neg hc, if_neg (fun h' => hp h'.1),
        ih (fun h' => h (List.mem_cons_of_mem _ h')) (by simpa using hc), Option.map_some]

/-- Text that starts with a digit has no sign and names neither infinity nor NaN, so it is read as
a decimal. -/
theorem signed?_of_isDigit {d : Char} (hd : d.isDigit = true) (rest : List Char) :
    signed? (d :: rest) = decimal? (d :: rest) := by
  have hlow : d.toLower = d := by
    unfold Char.toLower
    rw [dif_neg]
    simp only [Char.isDigit, Bool.and_eq_true, decide_eq_true_eq] at hd
    rintro ⟨h1, -⟩
    have h2 : d.val ≤ '9'.val := hd.2
    revert h1 h2
    simp [UInt32.le_iff_toNat_le]
    omega
  -- a word that starts with a digit is none of the names
  have hword : ∀ w : String, w.toList.head?.any Char.isDigit = false →
      String.ofList ((d :: rest).map Char.toLower) ≠ w := by
    intro w hw h
    have := congrArg (fun s : String => s.toList.head?) h
    simp only [String.toList_ofList, List.map_cons, List.head?_cons, hlow] at this
    rw [← this] at hw
    simp [hd] at hw
  unfold signed?
  split
  next negative body hsign =>
    split at hsign
    next heq => exact absurd (List.cons.inj heq).1 (by rintro rfl; simp at hd)
    next heq => exact absurd (List.cons.inj heq).1 (by rintro rfl; simp at hd)
    next =>
      obtain ⟨rfl, rfl⟩ := Prod.mk.inj hsign
      simp only
      rw [if_neg, if_neg]
      · simp
      · exact hword "nan" rfl
      · rintro (h | h)
        · exact hword "inf" rfl h
        · exact hword "infinity" rfl h

/-- Digits and points, starting with a digit, are read as a decimal and nothing else. -/
theorem ofText?_of_digits {cs : List Char} {d : Char} {rest : List Char} (hcs : cs = d :: rest)
    (hd : d.isDigit = true) (h : ∀ c ∈ cs, c.isDigit = true ∨ c = '.') :
    ofText? (cs.map .scalar) = decimal? cs := by
  have hfacts : ∀ c ∈ cs, c.toNat < 127 ∧ isAsciiBlank c = false ∧ c ≠ '_' := by
    intro c hc
    rcases h c hc with hc | rfl
    · exact isDigit_facts hc
    · decide
  rw [ofText?, asciiForm?_map_scalar fun c hc => (hfacts c hc).1]
  simp only [Option.bind_eq_bind, Option.bind_some]
  rw [trimBlanks_of_forall fun c hc => (hfacts c hc).2.1,
    dropUnderscores?_of_forall (fun hm => (hfacts _ hm).2.2 rfl) (by simp)]
  simp only [Option.bind_some]
  rw [hcs, signed?_of_isDigit hd]

theorem decimal?_digits {cw : List Char} (hne : cw ≠ []) (hd : ∀ c ∈ cw, c.isDigit = true) :
    decimal? cw = some (ofScientific (digitsValue cw) 0) := by
  unfold decimal?
  rw [List.span_eq_takeWhile_dropWhile, List.takeWhile_eq_self_iff.mpr hd,
    List.dropWhile_eq_nil_iff.mpr hd]
  simp [hne]

theorem decimal?_fraction {cw cf : List Char} (hne : cw ≠ []) (hw : ∀ c ∈ cw, c.isDigit = true)
    (hf : ∀ c ∈ cf, c.isDigit = true) :
    decimal? (cw ++ '.' :: cf) =
      some (ofScientific (digitsValue (cw ++ cf)) (-(cf.length : ℤ))) := by
  have hdot : Char.isDigit '.' = false := by decide
  unfold decimal?
  rw [List.span_eq_takeWhile_dropWhile, takeWhile_append_cons hw hdot,
    dropWhile_append_cons hw hdot]
  simp only
  rw [List.span_eq_takeWhile_dropWhile, List.takeWhile_eq_self_iff.mpr hf,
    List.dropWhile_eq_nil_iff.mpr hf]
  simp [hne]

end Binary64

/-- A run of digits is the text of its characters, each a digit. -/
theorem eq_map_scalar_of_digits {ds : Text} (hd : ∀ c ∈ ds, c.isDigit = true) :
    ds = (Text.chars ds).map .scalar ∧ ∀ ch ∈ Text.chars ds, ch.isDigit = true := by
  induction ds with
  | nil => simp [Text.chars]
  | cons c ds ih =>
      cases c with
      | surrogate => simp [CodePoint.isDigit] at hd
      | scalar ch =>
          obtain ⟨heq, hall⟩ := ih fun x hx => hd x (List.mem_cons_of_mem _ hx)
          have hch : ch.isDigit = true := hd _ List.mem_cons_self
          simp only [Text.chars, List.filterMap_cons, CodePoint.toChar?, List.map_cons,
            List.mem_cons] at heq hall ⊢
          exact ⟨congrArg _ heq, fun x hx => hx.elim (· ▸ hch) (hall x)⟩

/-- The reader of number text reads a numeral, and gives the value the scan gives it. -/
theorem Binary64.ofText?_numeral {l whole fraction : Text} (hne : whole ≠ [])
    (hd : ∀ c ∈ whole ++ fraction, c.isDigit = true)
    (hl : l = whole ∧ fraction = [] ∨ l = whole ++ .scalar '.' :: fraction ∧ fraction ≠ []) :
    Binary64.ofText? l = some (Binary64.ofNumeral (Text.chars whole) (Text.chars fraction)) := by
  obtain ⟨hweq, hwd⟩ := eq_map_scalar_of_digits fun c hc => hd c (List.mem_append_left _ hc)
  obtain ⟨hfeq, hfd⟩ := eq_map_scalar_of_digits fun c hc => hd c (List.mem_append_right _ hc)
  have hcw : Text.chars whole ≠ [] := fun h => hne (by rw [hweq, h]; rfl)
  obtain ⟨d, rest, hdr⟩ := List.exists_cons_of_ne_nil hcw
  have hdd : d.isDigit = true := hwd d (by rw [hdr]; exact List.mem_cons_self)
  rcases hl with ⟨rfl, rfl⟩ | ⟨rfl, -⟩
  · conv_lhs => rw [hweq]
    rw [Binary64.ofText?_of_digits hdr hdd (fun c hc => .inl (hwd c hc)),
      Binary64.decimal?_digits hcw hwd]
    simp [Binary64.ofNumeral, Text.chars]
  · have hcs : whole ++ .scalar '.' :: fraction =
        (Text.chars whole ++ '.' :: Text.chars fraction).map .scalar := by
      rw [List.map_append, List.map_cons, ← hweq, ← hfeq]
    have hall : ∀ c ∈ Text.chars whole ++ '.' :: Text.chars fraction,
        c.isDigit = true ∨ c = '.' := by
      intro c hc
      rcases List.mem_append.mp hc with hc | hc
      · exact .inl (hwd c hc)
      · rcases List.mem_cons.mp hc with rfl | hc
        · exact .inr rfl
        · exact .inl (hfd c hc)
    rw [hcs, Binary64.ofText?_of_digits (by rw [hdr]; rfl) hdd hall,
      Binary64.decimal?_fraction hcw hwd hfd]
    rfl

/-! ### The lexemes of number tokens -/

/-- A number lexeme is digits, or digits, a point and digits. -/
theorem Grammar.Lexeme.number_cases {l : Text} (h : Lexeme .number l) :
    ∃ whole fraction, whole ≠ [] ∧ (∀ c ∈ whole ++ fraction, c.isDigit = true) ∧
      (l = whole ∧ fraction = [] ∨ l = whole ++ .scalar '.' :: fraction ∧ fraction ≠ []) := by
  cases h with
  | symbol hs => simp [symbols] at hs
  | keyword hs => simp [keywords] at hs
  | whole hw hd => exact ⟨_, [], hw, by simpa using hd, .inl ⟨rfl, rfl⟩⟩
  | fraction hw hd hf hfd =>
      exact ⟨_, _, hw, fun c hc => (List.mem_append.mp hc).elim (hd c) (hfd c), .inr ⟨rfl, hf⟩⟩

/-- Every token of a scan before the last is a lexeme of its kind. -/
theorem Scan.lexeme_of_mem_dropLast {s : Text} {t : Token} (ht : t ∈ (scan s).tokens.dropLast) :
    Lexeme t.kind t.lexeme := by
  have hmem : (t.kind, t.lexeme) ∈ (pieces s).filterMap lexeme? := by
    rw [← Scan.map_dropLast_tokens_ofPieces 1]
    exact List.mem_map_of_mem ht
  exact (standsAlone_of_mem_filterMap hmem).1.lexeme

/-- Every token of a scan but the end of input is a lexeme of its kind. -/
theorem Scan.lexeme_of_mem_tokens {s : Text} {t : Token} (ht : t ∈ (scan s).tokens)
    (hk : t.kind ≠ .eof) : Lexeme t.kind t.lexeme := by
  rw [scan, Scan.tokens_ofPieces, List.mem_append, List.mem_singleton] at ht
  rcases ht with ht | rfl
  · exact Scan.lexeme_of_mem_dropLast ht
  · exact absurd rfl hk

/-- The literal of a numeral: its whole digits and its fraction digits, read. -/
theorem Literal.ofLexeme_numeral {l whole fraction : Text}
    (hd : ∀ c ∈ whole ++ fraction, c.isDigit = true)
    (hl : l = whole ∧ fraction = [] ∨ l = whole ++ .scalar '.' :: fraction ∧ fraction ≠ []) :
    Literal.ofLexeme .number l =
      .number (Binary64.ofNumeral (Text.chars whole) (Text.chars fraction)) := by
  have hw : ∀ c ∈ whole, c.isDigit = true := fun c hc => hd c (List.mem_append_left _ hc)
  have hdot : CodePoint.isDigit (.scalar '.') = false := by decide
  rcases hl with ⟨rfl, rfl⟩ | ⟨rfl, -⟩
  · simp [Literal.ofLexeme, List.takeWhile_eq_self_iff.mpr hw, List.dropWhile_eq_nil_iff.mpr hw]
  · simp [Literal.ofLexeme, takeWhile_append_cons hw hdot, dropWhile_append_cons hw hdot]

/-- A number token of a scan is a numeral, and its literal is the numeral's digits read. -/
theorem Scan.numeral_of_mem_tokens {s : Text} {t : Token} (ht : t ∈ (scan s).tokens)
    (hk : t.kind = .number) :
    ∃ whole fraction, whole ≠ [] ∧ (∀ c ∈ whole ++ fraction, c.isDigit = true) ∧
      (t.lexeme = whole ∧ fraction = [] ∨
        t.lexeme = whole ++ .scalar '.' :: fraction ∧ fraction ≠ []) ∧
      t.literal = .number (Binary64.ofNumeral (Text.chars whole) (Text.chars fraction)) := by
  have hlex : Lexeme .number t.lexeme := hk ▸ Scan.lexeme_of_mem_tokens ht (by rw [hk]; decide)
  obtain ⟨whole, fraction, hne, hd, hl⟩ := hlex.number_cases
  refine ⟨whole, fraction, hne, hd, hl, ?_⟩
  rw [Scan.literal_of_mem_tokens ht, hk, Literal.ofLexeme_numeral hd hl]

/-- **Number literals.** Every number token of a scan has for its lexeme a numeral, digits with
perhaps a point and more digits, and for its literal the exact value of the numeral rounded to
binary64, to nearest with ties to even: positive infinity from `2 ^ 1024 - 2 ^ 970` up, and
otherwise the nearest finite value with a positive sign. -/
theorem number_literal_rounds_value (s : Text) :
    ∀ t ∈ (scan s).tokens, t.kind = .number →
      ∃ whole fraction x, whole ≠ [] ∧ (∀ c ∈ whole ++ fraction, c.isDigit = true) ∧
        (t.lexeme = whole ∧ fraction = [] ∨
          t.lexeme = whole ++ .scalar '.' :: fraction ∧ fraction ≠ []) ∧
        t.literal = .number x ∧ Binary64.RoundsFrom (numeralValue whole fraction) x := by
  intro t ht hk
  obtain ⟨whole, fraction, hne, hd, hl, hlit⟩ := Scan.numeral_of_mem_tokens ht hk
  exact ⟨whole, fraction, _, hne, hd, hl, hlit, ofNumeral_roundsFrom
    (fun c hc => hd c (List.mem_append_left _ hc)) (fun c hc => hd c (List.mem_append_right _ hc))⟩

/-- The numeral `0.1`, which no binary64 value equals, is a number token whose literal is its
value rounded. -/
theorem number_literal_rounds_value_tenth :
    ∃ t ∈ (scan (Text.ofString "0.1")).tokens, t.kind = .number ∧
      ∃ whole fraction x, whole ≠ [] ∧ (∀ c ∈ whole ++ fraction, c.isDigit = true) ∧
        (t.lexeme = whole ∧ fraction = [] ∨
          t.lexeme = whole ++ .scalar '.' :: fraction ∧ fraction ≠ []) ∧
        t.literal = .number x ∧ Binary64.RoundsFrom (numeralValue whole fraction) x := by
  let t : Token :=
    ⟨.number, Text.ofString "0.1", Literal.ofLexeme .number (Text.ofString "0.1"), 1⟩
  have ht : t ∈ (scan (Text.ofString "0.1")).tokens := by decide +kernel
  exact ⟨t, ht, rfl, number_literal_rounds_value _ t ht rfl⟩

end LoxLexer
