import Mathlib
import LoxLexer.Scan.Basic

/-!
# The lexical grammar

The tokens of the language described as a grammar, with no reference to how a scan looks for
them: which texts are lexemes of which kind, which lexeme is the longest at the front of a text,
and how a whole source divides into tokens and the gaps between them.

A source is read from the left. Where the rest of it opens with `//`, a comment follows, although
`/` alone is a lexeme. Otherwise, where some lexeme starts, the longest one is the next token. A gap
is made of blanks, line feeds, comments, code points that begin no lexeme, and, at the very end
only, a string that is never closed.

## Main definitions

* `Lexeme k l`: the text `l` is a lexeme of kind `k`.
* `LongestLexeme k l x`: `l` is a lexeme of kind `k` at the front of `x`, and no lexeme at the
  front of `x` is longer.
* `Tokenizes s ts`: the source `s` divides into the tokens `ts`, each the longest lexeme at its
  place, and gaps.

## Main results

* `Lexeme.kind_unique`: a lexeme has one kind.
* `LongestLexeme.unique`: the longest lexeme at the front of a text is unique.
* `beginsNoToken_iff`: the code points that begin no lexeme are exactly those outside the
  punctuation, the quote, the digits and the letters.
-/

namespace LoxLexer.Grammar

/-- The operators and punctuation marks, each spelt out with its kind. -/
def symbols : List (String × TokenKind) :=
  [("(", .leftParen), (")", .rightParen), ("\x7b", .leftBrace), ("\x7d", .rightBrace),
   (",", .comma), (".", .dot), ("-", .minus), ("+", .plus), (";", .semicolon),
   ("/", .slash), ("*", .star),
   ("!", .bang), ("!=", .bangEqual), ("=", .equal), ("==", .equalEqual),
   (">", .greater), (">=", .greaterEqual), ("<", .less), ("<=", .lessEqual)]

/-- The sixteen keywords, each spelt out with its kind. -/
def keywords : List (String × TokenKind) :=
  [("and", .and), ("class", .«class»), ("else", .«else»), ("false", .false),
   ("for", .«for»), ("fun", .«fun»), ("if", .«if»), ("nil", .nil), ("or", .or),
   ("print", .print), ("return", .«return»), ("super", .super), ("this", .this),
   ("true", .true), ("var", .var), ("while", .«while»)]

/-- The characters that an operator or a punctuation mark starts with. -/
def symbolStarts : List Char :=
  ['(', ')', '{', '}', ',', '.', '-', '+', ';', '/', '*', '!', '=', '<', '>']

/-- A code point that may start a word: an ASCII letter or `_`. -/
def IsLetter : CodePoint → Prop
  | .scalar c => c.isAlpha = true ∨ c = '_'
  | .surrogate _ => False

/-- A code point that may stand inside a word: an ASCII letter, `_` or an ASCII digit. -/
def IsWordChar (c : CodePoint) : Prop := IsLetter c ∨ c.isDigit = true

/-- The lexemes of each kind of token. -/
inductive Lexeme : TokenKind → Text → Prop
  /-- An operator or a punctuation mark. -/
  | symbol {s : String} {k : TokenKind} : (s, k) ∈ symbols → Lexeme k (Text.ofString s)
  /-- A string: a quote, a text without a quote, and a quote. -/
  | string {body : Text} : (∀ c ∈ body, c ≠ .scalar '"') →
      Lexeme .string (.scalar '"' :: body ++ [.scalar '"'])
  /-- A whole number: one ASCII digit or more. -/
  | whole {w : Text} : w ≠ [] → (∀ c ∈ w, c.isDigit = true) → Lexeme .number w
  /-- A number with a fraction: digits, a point, and digits. -/
  | fraction {w f : Text} : w ≠ [] → (∀ c ∈ w, c.isDigit = true) → f ≠ [] →
      (∀ c ∈ f, c.isDigit = true) → Lexeme .number (w ++ .scalar '.' :: f)
  /-- A keyword. -/
  | keyword {s : String} {k : TokenKind} : (s, k) ∈ keywords → Lexeme k (Text.ofString s)
  /-- A word that is no keyword: a letter, then letters and digits. -/
  | identifier {c : CodePoint} {w : Text} : IsLetter c → (∀ x ∈ w, IsWordChar x) →
      (∀ s k, (s, k) ∈ keywords → Text.ofString s ≠ c :: w) → Lexeme .identifier (c :: w)

/-- `l` is a lexeme of kind `k` at the front of `x`, and no lexeme at the front of `x` is
longer. -/
structure LongestLexeme (k : TokenKind) (l x : Text) : Prop where
  lexeme : Lexeme k l
  isPrefix : l <+: x
  longest : ∀ k' l', Lexeme k' l' → l' <+: x → l'.length ≤ l.length

/-- A text that opens a comment: it starts with `//`. -/
def OpensComment (x : Text) : Prop := [.scalar '/', .scalar '/'] <+: x

/-- A code point that some lexeme starts with: punctuation, the quote, a digit or a letter. -/
def StartsToken (c : CodePoint) : Prop :=
  (∃ ch ∈ symbolStarts, c = .scalar ch) ∨ c = .scalar '"' ∨ c.isDigit = true ∨ IsLetter c

/-- A code point that no lexeme starts with. -/
def BeginsNoToken (c : CodePoint) : Prop := ∀ k l, ¬ Lexeme k (c :: l)

/-- A blank or a line feed: space, tab, carriage return or line feed. -/
def IsSpace (c : CodePoint) : Prop :=
  c = .scalar ' ' ∨ c = .scalar '\t' ∨ c = .scalar '\r' ∨ c = .scalar '\n'

/-- `Tokenizes s ts`: read from the left, the source `s` gives the tokens `ts`, each with its kind
and its lexeme. Everything between two tokens is a gap. -/
inductive Tokenizes : Text → List (TokenKind × Text) → Prop
  /-- Nothing is left. -/
  | nil : Tokenizes [] []
  /-- The longest lexeme at the front is the next token, unless a comment opens there. -/
  | token {k : TokenKind} {l r : Text} {ts : List (TokenKind × Text)} :
      LongestLexeme k l (l ++ r) → ¬ OpensComment (l ++ r) → Tokenizes r ts →
      Tokenizes (l ++ r) ((k, l) :: ts)
  /-- A blank or a line feed. -/
  | space {c : CodePoint} {r : Text} {ts : List (TokenKind × Text)} :
      IsSpace c → Tokenizes r ts → Tokenizes (c :: r) ts
  /-- A comment, through the line feed that ends it. -/
  | comment {body r : Text} {ts : List (TokenKind × Text)} :
      (∀ c ∈ body, c ≠ .scalar '\n') → Tokenizes r ts →
      Tokenizes (.scalar '/' :: .scalar '/' :: (body ++ .scalar '\n' :: r)) ts
  /-- A comment that runs to the end. -/
  | lastComment {body : Text} : (∀ c ∈ body, c ≠ .scalar '\n') →
      Tokenizes (.scalar '/' :: .scalar '/' :: body) []
  /-- A code point that begins no lexeme. -/
  | stray {c : CodePoint} {r : Text} {ts : List (TokenKind × Text)} :
      BeginsNoToken c → Tokenizes r ts → Tokenizes (c :: r) ts
  /-- A string that is never closed, to the end. -/
  | unclosed {body : Text} : (∀ c ∈ body, c ≠ .scalar '"') → Tokenizes (.scalar '"' :: body) []

/-! ### The tables -/

/-- A property of every member of a list, checked by running through the list. A statement
`∀ c ∈ l, P c` about characters is checked this way and not by an instance that would run through
all characters. -/
theorem forall_mem_of_all {α : Type} {l : List α} {P : α → Prop} [DecidablePred P]
    (h : l.all (fun c => decide (P c)) = true) : ∀ c ∈ l, P c :=
  fun c hc => of_decide_eq_true (List.all_eq_true.mp h c hc)

/-- Each operator is one character that starts punctuation, or one of `! = < >` and `=`. -/
theorem symbols_spelling : ∀ p ∈ symbols,
    (∃ c ∈ symbolStarts, p.1.toList = [c]) ∨
      (∃ c ∈ ['!', '=', '<', '>'], p.1.toList = [c, '=']) := by
  intro p hp
  have hcheck : symbols.all (fun p => symbolStarts.any (fun c => p.1.toList == [c]) ||
      ['!', '=', '<', '>'].any (fun c => p.1.toList == [c, '='])) = true := by
    decide
  simpa using List.all_eq_true.mp hcheck p hp

theorem symbols_kind_unique : ∀ p ∈ symbols, ∀ q ∈ symbols, p.1 = q.1 → p.2 = q.2 := by
  decide

/-- Every character that starts punctuation is an operator by itself. -/
theorem symbolStarts_spelled : ∀ c ∈ symbolStarts, ∃ p ∈ symbols, p.1.toList = [c] :=
  forall_mem_of_all (by decide)

/-- A character that starts punctuation is not the quote, a digit, a letter or a blank. -/
theorem symbolStarts_apart : ∀ c ∈ symbolStarts,
    c ≠ '"' ∧ c.isDigit = false ∧ c.isAlpha = false ∧ c ≠ '_' ∧
      c ≠ ' ' ∧ c ≠ '\t' ∧ c ≠ '\r' ∧ c ≠ '\n' :=
  forall_mem_of_all (by decide)

/-- Keywords are spelt with at least two letters. -/
theorem keywords_spelling :
    ∀ p ∈ keywords, 2 ≤ p.1.toList.length ∧ ∀ c ∈ p.1.toList, c.isAlpha := by
  intro p hp
  have hcheck : keywords.all (fun p =>
      decide (2 ≤ p.1.toList.length) && p.1.toList.all Char.isAlpha) = true := by
    decide
  simpa using List.all_eq_true.mp hcheck p hp

theorem keywords_kind_unique : ∀ p ∈ keywords, ∀ q ∈ keywords, p.1 = q.1 → p.2 = q.2 := by
  decide

theorem ofString_injective {s s' : String} (h : Text.ofString s = Text.ofString s') : s = s' := by
  have hmap : s.toList = s'.toList :=
    (List.map_inj_right (fun _ _ h => CodePoint.scalar.inj h)).mp h
  exact String.toList_inj.mp hmap

theorem ofString_eq_cons {s : String} {c : CodePoint} {m : Text}
    (h : Text.ofString s = c :: m) : ∃ ch rest, s.toList = ch :: rest ∧ c = .scalar ch := by
  unfold Text.ofString at h
  cases hs : s.toList with
  | nil => simp [hs] at h
  | cons ch rest =>
      rw [hs, List.map_cons, List.cons.injEq] at h
      exact ⟨ch, rest, rfl, h.1.symm⟩

/-! ### Character classes -/

theorem isAlpha_iff_toNat {c : Char} : c.isAlpha ↔
    ('A'.toNat ≤ c.toNat ∧ c.toNat ≤ 'Z'.toNat) ∨ ('a'.toNat ≤ c.toNat ∧ c.toNat ≤ 'z'.toNat) := by
  simp [Char.isAlpha, Char.isUpper, Char.isLower, UInt32.le_iff_toNat_le]

/-- No digit is a letter. -/
theorem not_isLetter_of_isDigit {c : CodePoint} (hc : c.isDigit = true) : ¬ IsLetter c := by
  cases c with
  | surrogate _ => simp [IsLetter]
  | scalar ch =>
      intro hl
      have hd : ch.isDigit = true := hc
      rw [Char.isDigit_iff_toNat] at hd
      rcases hl with ha | rfl
      · rw [isAlpha_iff_toNat] at ha
        simp at hd ha
        omega
      · simp at hd

theorem not_isLetter_quote : ¬ IsLetter (.scalar '"') := by
  simp [IsLetter]

theorem not_isLetter_of_symbolStart {c : Char} (hc : c ∈ symbolStarts) :
    ¬ IsLetter (.scalar c) := by
  obtain ⟨-, -, ha, hu, -⟩ := symbolStarts_apart c hc
  simp [IsLetter, ha, hu]

/-! ### What the first code point of a lexeme tells -/

namespace Lexeme

variable {k k' : TokenKind} {c : CodePoint} {m l : Text}

theorem ne_nil (h : Lexeme k l) : l ≠ [] := by
  cases h with
  | symbol hs =>
      rcases symbols_spelling _ hs with ⟨_, -, he⟩ | ⟨_, -, he⟩ <;> simp [Text.ofString, he]
  | string => simp
  | whole hw => exact hw
  | fraction => simp
  | keyword hs =>
      have hlen := (keywords_spelling _ hs).1
      intro he
      simp [Text.ofString] at he
      simp [he] at hlen
  | identifier => simp

/-- What the first code point of a lexeme says about it: an operator starts with punctuation, a
string with the quote, a number with a digit, and a keyword or an identifier with a letter. -/
theorem cases_head (h : Lexeme k (c :: m)) :
    (∃ ch ∈ symbolStarts, c = .scalar ch ∧ ∃ s, (s, k) ∈ symbols ∧ Text.ofString s = c :: m) ∨
    (c = .scalar '"' ∧ k = .string ∧
      ∃ body, (∀ x ∈ body, x ≠ .scalar '"') ∧ m = body ++ [.scalar '"']) ∨
    (c.isDigit = true ∧ k = .number ∧ ((∀ x ∈ m, x.isDigit = true) ∨
      ∃ w f, m = w ++ .scalar '.' :: f ∧ (∀ x ∈ w, x.isDigit = true) ∧ f ≠ [] ∧
        ∀ x ∈ f, x.isDigit = true)) ∨
    (IsLetter c ∧ (∀ x ∈ m, IsWordChar x) ∧
      ((∃ s, (s, k) ∈ keywords ∧ Text.ofString s = c :: m) ∨
        (k = .identifier ∧ ∀ s k', (s, k') ∈ keywords → Text.ofString s ≠ c :: m))) := by
  generalize hl : c :: m = l at h
  cases h with
  | symbol hs =>
      left
      obtain ⟨ch, rest, hsl, rfl⟩ := ofString_eq_cons hl.symm
      refine ⟨ch, ?_, rfl, _, hs, rfl⟩
      rcases symbols_spelling _ hs with ⟨d, hd, he⟩ | ⟨d, hd, he⟩
      · rw [hsl, List.cons.injEq] at he
        rw [he.1]
        exact hd
      · rw [hsl, List.cons.injEq] at he
        rw [he.1]
        simp at hd
        rcases hd with rfl | rfl | rfl | rfl <;> decide
  | string hb =>
      rw [List.cons_append, List.cons.injEq] at hl
      exact .inr (.inl ⟨hl.1, rfl, _, hb, hl.2⟩)
  | whole hw hd =>
      rw [← hl] at hd
      exact .inr (.inr (.inl ⟨hd c (by simp), rfl, .inl fun x hx => hd x (by simp [hx])⟩))
  | @fraction w f hw hd hf hfd =>
      obtain ⟨w0, w', rfl⟩ := List.exists_cons_of_ne_nil hw
      rw [List.cons_append, List.cons.injEq] at hl
      obtain ⟨rfl, rfl⟩ := hl
      refine .inr (.inr (.inl ⟨hd c (by simp), rfl, .inr ⟨w', f, rfl, ?_, hf, hfd⟩⟩))
      exact fun x hx => hd x (by simp [hx])
  | keyword hs =>
      obtain ⟨ch, rest, hsl, rfl⟩ := ofString_eq_cons hl.symm
      have halpha := (keywords_spelling _ hs).2
      rw [hsl] at halpha
      have hm : m = rest.map .scalar := by
        unfold Text.ofString at hl
        rw [hsl, List.map_cons, List.cons.injEq] at hl
        exact hl.2
      refine .inr (.inr (.inr ⟨.inl (halpha ch (by simp)), ?_, .inl ⟨_, hs, rfl⟩⟩))
      intro x hx
      rw [hm, List.mem_map] at hx
      obtain ⟨y, hy, rfl⟩ := hx
      exact .inl (.inl (halpha y (by simp [hy])))
  | identifier hc hw hk =>
      rw [List.cons.injEq] at hl
      obtain ⟨rfl, rfl⟩ := hl
      exact .inr (.inr (.inr ⟨hc, hw, .inr ⟨rfl, hk⟩⟩))

/-- A lexeme starts with punctuation, the quote, a digit or a letter. -/
theorem startsToken_head (h : Lexeme k (c :: m)) : StartsToken c := by
  rcases h.cases_head with ⟨ch, hch, rfl, -⟩ | ⟨rfl, -⟩ | ⟨hd, -⟩ | ⟨hl, -⟩
  · exact .inl ⟨ch, hch, rfl⟩
  · exact .inr (.inl rfl)
  · exact .inr (.inr (.inl hd))
  · exact .inr (.inr (.inr hl))

/-- A lexeme that starts with punctuation is an operator. -/
theorem of_symbolStart {ch : Char} (h : Lexeme k (.scalar ch :: m)) (hch : ch ∈ symbolStarts) :
    ∃ s, (s, k) ∈ symbols ∧ Text.ofString s = .scalar ch :: m := by
  obtain ⟨hq, hd, -⟩ := symbolStarts_apart ch hch
  rcases h.cases_head with ⟨-, -, -, hs⟩ | ⟨he, -⟩ | ⟨he, -⟩ | ⟨hl, -⟩
  · exact hs
  · exact absurd (CodePoint.scalar.inj he) hq
  · exact absurd he (by simpa [CodePoint.isDigit] using hd)
  · exact absurd hl (not_isLetter_of_symbolStart hch)

/-- A lexeme that starts with the quote is a string, closed by the next quote. -/
theorem of_quote (h : Lexeme k (.scalar '"' :: m)) :
    k = .string ∧ ∃ body, (∀ x ∈ body, x ≠ .scalar '"') ∧ m = body ++ [.scalar '"'] := by
  rcases h.cases_head with ⟨ch, hch, he, -⟩ | ⟨-, hs⟩ | ⟨he, -⟩ | ⟨hl, -⟩
  · rw [CodePoint.scalar.injEq] at he
    subst he
    exact absurd rfl (symbolStarts_apart _ hch).1
  · exact hs
  · exact absurd he (by decide)
  · exact absurd hl not_isLetter_quote

/-- A lexeme that starts with a digit is a number: digits, and perhaps a point and digits. -/
theorem of_digit (h : Lexeme k (c :: m)) (hc : c.isDigit = true) :
    k = .number ∧ ((∀ x ∈ m, x.isDigit = true) ∨
      ∃ w f, m = w ++ .scalar '.' :: f ∧ (∀ x ∈ w, x.isDigit = true) ∧ f ≠ [] ∧
        ∀ x ∈ f, x.isDigit = true) := by
  rcases h.cases_head with ⟨ch, hch, rfl, -⟩ | ⟨rfl, -⟩ | ⟨-, hn⟩ | ⟨hl, -⟩
  · exact absurd hc (by simpa [CodePoint.isDigit] using (symbolStarts_apart ch hch).2.1)
  · exact absurd hc (by decide)
  · exact hn
  · exact absurd hl (not_isLetter_of_isDigit hc)

/-- A lexeme that starts with a letter is a word: a keyword if it is spelt as one, and an
identifier otherwise. -/
theorem of_letter (h : Lexeme k (c :: m)) (hc : IsLetter c) :
    (∀ x ∈ m, IsWordChar x) ∧
      ((∃ s, (s, k) ∈ keywords ∧ Text.ofString s = c :: m) ∨
        (k = .identifier ∧ ∀ s k', (s, k') ∈ keywords → Text.ofString s ≠ c :: m)) := by
  rcases h.cases_head with ⟨ch, hch, rfl, -⟩ | ⟨rfl, -⟩ | ⟨hd, -⟩ | ⟨-, hw⟩
  · exact absurd hc (not_isLetter_of_symbolStart hch)
  · exact absurd hc not_isLetter_quote
  · exact absurd hc (not_isLetter_of_isDigit hd)
  · exact hw

/-- A lexeme has one kind. -/
theorem kind_unique (h : Lexeme k l) (h' : Lexeme k' l) : k = k' := by
  obtain ⟨c, m, rfl⟩ := List.exists_cons_of_ne_nil h.ne_nil
  rcases h.startsToken_head with ⟨ch, hch, rfl⟩ | rfl | hd | hl
  · obtain ⟨s, hs, he⟩ := h.of_symbolStart hch
    obtain ⟨s', hs', he'⟩ := h'.of_symbolStart hch
    obtain rfl := ofString_injective (he.trans he'.symm)
    exact symbols_kind_unique _ hs _ hs' rfl
  · exact h.of_quote.1.trans h'.of_quote.1.symm
  · exact (h.of_digit hd).1.trans (h'.of_digit hd).1.symm
  · rcases (h.of_letter hl).2 with ⟨s, hs, he⟩ | ⟨rfl, hnk⟩ <;>
      rcases (h'.of_letter hl).2 with ⟨s', hs', he'⟩ | ⟨rfl, hnk'⟩
    · obtain rfl := ofString_injective (he.trans he'.symm)
      exact keywords_kind_unique _ hs _ hs' rfl
    · exact absurd he (hnk' s k hs)
    · exact absurd he' (hnk s' k' hs')
    · rfl

end Lexeme

/-- The longest lexeme at the front of a text is unique, and so is its kind. -/
theorem LongestLexeme.unique {k k' : TokenKind} {l l' x : Text} (h : LongestLexeme k l x)
    (h' : LongestLexeme k' l' x) : k = k' ∧ l = l' := by
  have hle : l'.length ≤ l.length := h.longest k' l' h'.lexeme h'.isPrefix
  have hge : l.length ≤ l'.length := h'.longest k l h.lexeme h.isPrefix
  have hpre : l <+: l' := List.prefix_of_prefix_length_le h.isPrefix h'.isPrefix hge
  obtain rfl := hpre.eq_of_length (Nat.le_antisymm hge hle)
  exact ⟨h.lexeme.kind_unique h'.lexeme, rfl⟩

/-- The code points that begin no lexeme are exactly those outside the punctuation, the quote,
the digits and the letters. -/
theorem beginsNoToken_iff {c : CodePoint} : BeginsNoToken c ↔ ¬ StartsToken c := by
  constructor
  · rintro hno (⟨ch, hch, rfl⟩ | rfl | hd | hl)
    · obtain ⟨⟨s, k⟩, hs, he⟩ := symbolStarts_spelled ch hch
      apply hno k []
      have hlex := Lexeme.symbol hs
      simpa [Text.ofString, he] using hlex
    · exact hno .string [.scalar '"'] (@Lexeme.string [] (by simp))
    · exact hno .number [] (Lexeme.whole (by simp) (by simpa using hd))
    · refine hno .identifier [] (Lexeme.identifier hl (by simp) ?_)
      intro s k hs he
      have hlen := (keywords_spelling _ hs).1
      simp only [Text.ofString, List.map_eq_cons_iff, List.map_eq_nil_iff] at he
      obtain ⟨a, rest, hsl, -, rfl⟩ := he
      simp [hsl] at hlen
  · intro hst k l hlex
    exact hst hlex.startsToken_head

/-- Blanks and line feeds begin no lexeme. -/
theorem not_startsToken_of_isSpace {c : CodePoint} (hc : IsSpace c) : ¬ StartsToken c := by
  have hblank : ∀ ch ∈ [' ', '\t', '\r', '\n'],
      ch ∉ symbolStarts ∧ ch ≠ '"' ∧ ch.isDigit = false ∧ ch.isAlpha = false ∧ ch ≠ '_' :=
    forall_mem_of_all (by decide)
  obtain ⟨ch, hch, rfl⟩ : ∃ ch ∈ [' ', '\t', '\r', '\n'], c = .scalar ch := by
    rcases hc with rfl | rfl | rfl | rfl <;> exact ⟨_, by simp, rfl⟩
  obtain ⟨hsym, hquote, hdigit, halpha, hunder⟩ := hblank ch hch
  rintro (⟨d, hd, he⟩ | he | hd | hl | hl)
  · exact hsym (CodePoint.scalar.inj he ▸ hd)
  · exact hquote (CodePoint.scalar.inj he)
  · exact Bool.false_ne_true (hdigit.symm.trans hd)
  · exact Bool.false_ne_true (halpha.symm.trans hl)
  · exact hunder hl

end LoxLexer.Grammar
