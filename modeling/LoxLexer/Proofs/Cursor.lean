import LoxLexer.Scan.Cursor
import LoxLexer.Proofs.Termination

/-!
# The lexer's cursor takes the pieces of its source

A lexer that has consumed the first `k` code points of its source has `current = k - 1`. From
there, one call of `scanToken` takes exactly the piece that `Piece.split` takes from the front of
what is left: `current` moves past the piece, the line moves past the piece's counted line feeds,
and the token or the report that the scan makes of the piece is added (`scanToken_split`). Every
read of the call lies inside the source, since each operation is stated at a cursor whose next
index is `k` and reads at most the code points of the piece and the one after it.

The loop makes one call per piece, and a source has no more pieces than code points, so `lex`
never spends its budget: it returns the tokens and the reports of `scan` (`scanTokens_drop`).

## Main definitions

* `Lexer.take`: what a call that takes a piece does to the lexer.

## Main results

* `Lexer.scanToken_split`: one call refines one step of `pieces`.
* `Lexer.scanTokens_drop`: the loop from any place in the source.
* `lex_stays_in_bounds`: `lex` never faults, returns the scan, and ends its tokens with the only
  end-of-input token.
-/

namespace LoxLexer

namespace Lexer

open Piece

@[simp] theorem ok_bind {α β : Type} (a : α) (f : α → Except Fault β) :
    (Except.ok a >>= f) = f a := rfl

@[simp] theorem pure_eq_ok {α : Type} (a : α) : (pure a : Except Fault α) = .ok a := rfl

variable {s : Text} {lx : Lexer} {k : Nat}

/-! ### The operations at a cursor -/

theorem drop_succ_of_cons {i : Nat} {c : CodePoint} {r : Text} (h : s.drop i = c :: r) :
    s.drop (i + 1) = r := by
  rw [← List.tail_drop, h, List.tail_cons]

theorem drop_add_of_drop {i : Nat} {t r : Text} (h : s.drop i = t ++ r) :
    s.drop (i + t.length) = r := by
  rw [← List.drop_drop, h, List.drop_left]

theorem lt_length_of_drop {i : Nat} {c : CodePoint} {r : Text} (h : s.drop i = c :: r) :
    i < s.length := by
  by_contra hi
  rw [List.drop_eq_nil_of_le (by omega)] at h
  cases h

theorem read_of_drop {i : Nat} {c : CodePoint} {r : Text} (h : s.drop i = c :: r) :
    read s i = .ok c := by
  have hget : s[i]? = some c := by rw [← List.head?_drop, h]; rfl
  simp [read, hget]

theorem isAtEnd_iff (hk : lx.current + 1 = k) : isAtEnd s lx = true ↔ s.drop k = [] := by
  rw [List.drop_eq_nil_iff]
  simp only [isAtEnd, decide_eq_true_eq]
  omega

theorem isAtEnd_of_cons {c : CodePoint} {r : Text} (hk : lx.current + 1 = k)
    (h : s.drop k = c :: r) : isAtEnd s lx = false := by
  rw [← Bool.not_eq_true, isAtEnd_iff hk, h]
  exact List.cons_ne_nil c r

theorem peek_of_cons {c : CodePoint} {r : Text} (hk : lx.current + 1 = k)
    (h : s.drop k = c :: r) : peek s lx = .ok c := by
  rw [peek, if_neg (by simp [isAtEnd_of_cons hk h]), hk, read_of_drop h]

theorem peek_of_nil (hk : lx.current + 1 = k) (h : s.drop k = []) : peek s lx = .ok nul := by
  rw [peek, if_pos ((isAtEnd_iff hk).mpr h)]

theorem peekNext_of_cons {c d : CodePoint} {r : Text} (hk : lx.current + 1 = k)
    (h : s.drop k = c :: d :: r) : peekNext s lx = .ok d := by
  have hnext := drop_succ_of_cons h
  have hlen := lt_length_of_drop hnext
  rw [peekNext, if_neg (by omega), show lx.current + 2 = ((k + 1 : Nat) : Int) by omega,
    read_of_drop hnext]

theorem peekNext_of_single {c : CodePoint} (hk : lx.current + 1 = k) (h : s.drop k = [c]) :
    peekNext s lx = .ok nul := by
  -- the code point at `k` is the last one
  have hlen : s.length = k + 1 := by
    have hlt := lt_length_of_drop h
    have := congrArg List.length h
    simp only [List.length_drop, List.length_cons, List.length_nil] at this
    omega
  rw [peekNext, if_pos (by omega)]

theorem advance_of_cons {c : CodePoint} {r : Text} (hk : lx.current + 1 = k)
    (h : s.drop k = c :: r) : advance s lx = .ok (c, { lx with current := k }) := by
  rw [advance, hk, read_of_drop h]
  rfl

theorem matchNext_of_cons {e : CodePoint} {r : Text} (hk : lx.current + 1 = k)
    (h : s.drop k = e :: r) : matchNext s e lx = .ok (true, { lx with current := k }) := by
  rw [matchNext, if_neg (by simp [isAtEnd_of_cons hk h]), hk, read_of_drop h, ok_bind]
  exact if_neg (not_not.mpr rfl)

theorem matchNext_of_ne {e : CodePoint} (hk : lx.current + 1 = k) (h : ∀ r, s.drop k ≠ e :: r) :
    matchNext s e lx = .ok (false, lx) := by
  cases hd : s.drop k with
  | nil => rw [matchNext, if_pos ((isAtEnd_iff hk).mpr hd)]
  | cons c r =>
      have hce : c ≠ e := fun hce => h r (hce ▸ hd)
      rw [matchNext, if_neg (by simp [isAtEnd_of_cons hk hd]), hk, read_of_drop hd, ok_bind]
      exact if_pos hce

/-- A slice of the source read where a text `t` stands. -/
theorem slice_of_drop {lo hi : Int} {t r : Text} (hlo : lo = k) (hhi : hi = k + t.length)
    (hk : k ≤ s.length) (h : s.drop k = t ++ r) : slice s lo hi = .ok t := by
  have hlen : k + t.length ≤ s.length := by
    have := congrArg List.length h
    simp only [List.length_drop, List.length_append] at this
    omega
  rw [slice, if_pos (by omega), show lo.toNat = k by omega, h,
    show (hi - lo).toNat = t.length by omega, List.take_left' rfl]

theorem addToken_of_drop {kind : TokenKind} {literal : Literal} {t r : Text}
    (hs : lx.start + 1 = k) (hc : lx.current + 1 = k + t.length) (hk : k ≤ s.length)
    (h : s.drop k = t ++ r) :
    addToken s kind literal lx =
      .ok { lx with tokens := lx.tokens ++ [⟨kind, t, literal, lx.line⟩] } := by
  rw [addToken, slice_of_drop hs hc hk h]
  rfl

/-! ### The loops -/

/-- `advanceWhile p` consumes the longest run of code points that satisfy `p`, when NUL, which
`peek` gives at the end, does not. -/
theorem advanceWhile_drop {p : CodePoint → Bool} (hp : p nul = false) (l : Text) :
    ∀ {k : Nat} {lx : Lexer}, lx.current + 1 = k → s.drop k = l →
      advanceWhile s p lx = .ok { lx with current := lx.current + (l.takeWhile p).length } := by
  induction l with
  | nil =>
      intro k lx hk h
      rw [advanceWhile, peek_of_nil hk h]
      simp [hp]
  | cons c r ih =>
      intro k lx hk h
      rw [advanceWhile, peek_of_cons hk h]
      by_cases hc : p c
      · simp only [hc, if_true]
        split
        · rename_i c' next hadv
          rw [advance_of_cons hk h] at hadv
          cases hadv
          rw [ih (k := k + 1) (by simp) (drop_succ_of_cons h)]
          simp [hc]
          omega
        · rename_i f hadv
          rw [advance_of_cons hk h] at hadv
          cases hadv
      · simp [hc]

theorem countLine_eq (c : CodePoint) (lx : Lexer) :
    countLine c lx = { lx with line := lx.line + (if c = .scalar '\n' then 1 else 0) } := by
  unfold countLine
  split <;> simp [*]

/-- The body of a string runs to the first quote, or to the end, and its line feeds are counted. -/
theorem stringLoop_drop (l : Text) :
    ∀ {k : Nat} {lx : Lexer}, lx.current + 1 = k → s.drop k = l →
      stringLoop s lx = .ok { lx with
        current := lx.current + (l.takeWhile isStringChar).length
        line := lx.line + (l.takeWhile isStringChar).count (.scalar '\n') } := by
  induction l with
  | nil =>
      intro k lx hk h
      rw [stringLoop, peek_of_nil hk h]
      simp [(isAtEnd_iff hk).mpr h]
  | cons c r ih =>
      intro k lx hk h
      rw [stringLoop, peek_of_cons hk h]
      by_cases hq : c = .scalar '"'
      · subst hq
        simp [isStringChar]
      · have hcur : (countLine c lx).current + 1 = k := by rw [current_countLine]; exact hk
        simp only [ne_eq, hq, not_false_eq_true, isAtEnd_of_cons hk h, and_self, if_true]
        split
        · rename_i c' next hadv
          rw [advance_of_cons hcur h] at hadv
          cases hadv
          rw [ih (k := k + 1) (by simp) (drop_succ_of_cons h), countLine_eq]
          have hs : isStringChar c = true := isStringChar_iff.mpr hq
          simp [hs, List.count_cons]
          omega
        · rename_i f hadv
          rw [advance_of_cons hcur h] at hadv
          cases hadv

/-- The rest of a comment runs through the first line feed, or to the end. The loop looks at the
code point at `current`, which is not a line feed when it starts. -/
theorem skipComment_drop (l : Text) :
    ∀ {j : Nat} {c0 : CodePoint} {lx : Lexer}, lx.current = j → s.drop j = c0 :: l →
      c0 ≠ .scalar '\n' →
      skipComment s lx = .ok { lx with current := lx.current + (throughNewline l).1.length } := by
  induction l with
  | nil =>
      intro j c0 lx hj h hc0
      have hend : isAtEnd s lx = true := (isAtEnd_iff (by omega)).mpr (drop_succ_of_cons h)
      rw [skipComment, show read s lx.current = .ok c0 by rw [hj]; exact read_of_drop h]
      simp [hend, throughNewline]
  | cons c r ih =>
      intro j c0 lx hj h hc0
      have hk : lx.current + 1 = (j + 1 : Nat) := by push_cast; omega
      have hnext := drop_succ_of_cons h
      rw [skipComment, show read s lx.current = .ok c0 by rw [hj]; exact read_of_drop h]
      simp only [ne_eq, hc0, not_false_eq_true, isAtEnd_of_cons hk hnext, and_self, if_true]
      split
      · rename_i c' next hadv
        rw [advance_of_cons hk hnext] at hadv
        cases hadv
        by_cases hc : c = .scalar '\n'
        · -- the loop stops at the line feed it has just consumed
          subst hc
          rw [skipComment, read_of_drop hnext]
          simp [throughNewline]
          omega
        · rw [ih rfl hnext hc]
          simp [throughNewline, hc]
          omega
      · rename_i f hadv
        rw [advance_of_cons hk hnext] at hadv
        cases hadv

theorem readFraction_of_digit {j : Nat} {e : CodePoint} {after : Text}
    (hk : lx.current + 1 = j) (h : s.drop j = .scalar '.' :: e :: after) (he : e.isDigit = true) :
    readFraction s lx =
      .ok { lx with current := lx.current + 2 + (after.takeWhile CodePoint.isDigit).length } := by
  rw [readFraction, peek_of_cons hk h, ok_bind, if_pos rfl, peekNext_of_cons hk h, ok_bind,
    if_pos he, advance_of_cons hk h, ok_bind]
  dsimp only
  rw [advanceWhile_drop (by decide) (e :: after) (k := j + 1) (by simp) (drop_succ_of_cons h)]
  simp [he]
  omega

theorem readFraction_of_not {j : Nat} (hk : lx.current + 1 = j)
    (hno : ∀ e after, s.drop j = .scalar '.' :: e :: after → e.isDigit = false) :
    readFraction s lx = .ok lx := by
  rw [readFraction]
  cases hd : s.drop j with
  | nil =>
      rw [peek_of_nil hk hd, ok_bind, if_neg (by decide)]
      rfl
  | cons c r =>
      rw [peek_of_cons hk hd, ok_bind]
      by_cases hc : c = .scalar '.'
      · subst hc
        rw [if_pos rfl]
        cases r with
        | nil =>
            rw [peekNext_of_single hk hd, ok_bind, if_neg (by decide)]
            rfl
        | cons e after =>
            rw [peekNext_of_cons hk hd, ok_bind, if_neg (by simp [hno e after hd])]
            rfl
      · rw [if_neg hc]
        rfl

/-! ### One call takes one piece -/

/-- What a call that takes the piece `p` does to the lexer: `current` moves past the piece's text
and the line past its counted line feeds, and the token or the report that the scan makes of the
piece is added. -/
def take (lx : Lexer) (p : Piece) : Lexer :=
  let moved : Lexer :=
    { lx with current := lx.current + p.text.length, line := lx.line + p.lines }
  match p with
  | .token kind lexeme =>
    { moved with tokens := lx.tokens ++ [⟨kind, lexeme, Literal.ofLexeme kind lexeme, moved.line⟩] }
  | .stray c => { moved with reports := lx.reports ++ [⟨lx.line, .unexpected c⟩] }
  | .unclosed _ => { moved with reports := lx.reports ++ [⟨moved.line, .unterminated⟩] }
  | _ => moved

@[simp] theorem current_take (lx : Lexer) (p : Piece) :
    (lx.take p).current = lx.current + p.text.length := by
  cases p <;> rfl

@[simp] theorem line_take (lx : Lexer) (p : Piece) : (lx.take p).line = lx.line + p.lines := by
  cases p <;> rfl

theorem ofLexeme_eq_absent {kind : TokenKind} (hs : kind ≠ .string) (hn : kind ≠ .number)
    (l : Text) : Literal.ofLexeme kind l = .absent := by
  unfold Literal.ofLexeme
  split <;> simp_all

/-- A call that ends by adding a token whose lexeme `t` starts where the call started, on the line
reached after the line feeds of `t`. -/
theorem addToken_take {kind : TokenKind} {literal : Literal} {t r : Text} {cur : Int} {line : Nat}
    (hk : lx.current + 1 = k) (hstart : lx.start = lx.current) (hle : k < s.length)
    (hcur : cur + 1 = k + t.length) (hline : line = lx.line + t.count (.scalar '\n'))
    (hlit : Literal.ofLexeme kind t = literal) (h : s.drop k = t ++ r) :
    addToken s kind literal { lx with current := cur, line := line } =
      .ok (lx.take (.token kind t)) := by
  subst hline hlit
  rw [addToken_of_drop (by simp; omega) hcur hle.le h]
  simp only [take, text, lines, Except.ok.injEq, Lexer.mk.injEq, and_true, true_and]
  omega

theorem count_newline_eq_zero {t : Text} (h : ∀ c ∈ t, c.isDigit = true ∨ c = .scalar '.') :
    t.count (.scalar '\n') = 0 :=
  List.count_eq_zero.mpr fun hm => by rcases h _ hm with hd | hd <;> simp_all [CodePoint.isDigit]

/-- The end of a numeral `t`: the reader of number text reads its slice, and the token is added. -/
theorem addNumber_take {t r : Text} (whole fraction : Text) {cur : Int} (hk : lx.current + 1 = k)
    (hstart : lx.start = lx.current) (hle : k < s.length) (hcur : cur + 1 = k + t.length)
    (h : s.drop k = t ++ r) (hne : whole ≠ []) (hd : ∀ c ∈ whole ++ fraction, c.isDigit = true)
    (ht : t = whole ∧ fraction = [] ∨ t = whole ++ .scalar '.' :: fraction ∧ fraction ≠ []) :
    addNumber s { lx with current := cur } = .ok (lx.take (.token .number t)) := by
  have hcount : t.count (.scalar '\n') = 0 := by
    refine count_newline_eq_zero fun c hc => ?_
    rcases ht with ⟨rfl, rfl⟩ | ⟨rfl, -⟩
    · exact .inl (hd c (by simpa using hc))
    · rcases List.mem_append.mp hc with hc | hc
      · exact .inl (hd c (List.mem_append_left _ hc))
      · rcases List.mem_cons.mp hc with rfl | hc
        · exact .inr rfl
        · exact .inl (hd c (List.mem_append_right _ hc))
  rw [addNumber, slice_of_drop (by simp; omega) (by simp; omega) hle.le h, ok_bind,
    Binary64.ofText?_numeral hne hd ht]
  exact addToken_take hk hstart hle hcur (by simp [hcount]) (Literal.ofLexeme_numeral hd ht) h

/-- A numeral: its digits, then a point and digits when a digit follows the point. -/
theorem readNumber_split {d : Char} {rest : Text} (hk : lx.current + 1 = k)
    (hstart : lx.start = lx.current) (h : s.drop k = .scalar d :: rest) (hd : d.isDigit = true) :
    readNumber s { lx with current := k } = .ok (lx.take (splitNumber d rest).1) := by
  have hrest := drop_succ_of_cons h
  have hle := lt_length_of_drop h
  have hsplit := List.takeWhile_append_dropWhile (p := CodePoint.isDigit) (l := rest)
  have hdw := drop_add_of_drop (hrest.trans hsplit.symm)
  have hwhole : ∀ c ∈ .scalar d :: rest.takeWhile CodePoint.isDigit, c.isDigit = true := by
    intro c hc
    rcases List.mem_cons.mp hc with rfl | hc
    · exact hd
    · exact mem_takeWhile_imp hc
  rw [readNumber, advanceWhile_drop (by decide) rest (k := k + 1) (by simp) hrest, ok_bind]
  rcases splitNumber_eq d rest with ⟨e, after, hdrop, he, hsn⟩ | ⟨hno, hsn⟩
  · rw [hdrop] at hdw hsplit
    have hafter := List.takeWhile_append_dropWhile (p := CodePoint.isDigit) (l := after)
    rw [readFraction_of_digit (by simp; omega) hdw he, ok_bind, hsn]
    dsimp only
    refine addNumber_take (r := after.dropWhile CodePoint.isDigit)
      (.scalar d :: rest.takeWhile CodePoint.isDigit)
      (e :: after.takeWhile CodePoint.isDigit) hk hstart hle (by simp; omega) ?_
      (List.cons_ne_nil _ _) ?_ (.inr ⟨by simp, List.cons_ne_nil _ _⟩)
    · rw [h]
      conv_lhs => rw [← hsplit, ← hafter]
      simp
    · intro c hc
      rcases List.mem_append.mp hc with hc | hc
      · exact hwhole c hc
      · rcases List.mem_cons.mp hc with rfl | hc
        · exact he
        · exact mem_takeWhile_imp hc
  · rw [readFraction_of_not (j := k + 1 + (rest.takeWhile CodePoint.isDigit).length)
      (by simp; omega) (by rw [hdw]; exact hno), ok_bind, hsn]
    dsimp only
    refine addNumber_take (r := rest.dropWhile CodePoint.isDigit)
      (.scalar d :: rest.takeWhile CodePoint.isDigit) [] hk hstart hle (by simp; omega) ?_
      (List.cons_ne_nil _ _) (by simpa using hwhole) (.inl ⟨rfl, rfl⟩)
    rw [h]
    conv_lhs => rw [← hsplit]
    rfl

/-- A string: its body through the closing quote, or, never closed, to the end of the source. -/
theorem readString_split {rest : Text} (hk : lx.current + 1 = k) (hstart : lx.start = lx.current)
    (h : s.drop k = .scalar '"' :: rest) :
    readString s { lx with current := k } = .ok (lx.take (splitString rest).1) := by
  have hrest := drop_succ_of_cons h
  have hle := lt_length_of_drop h
  have hsplit := List.takeWhile_append_dropWhile (p := isStringChar) (l := rest)
  have hdw := drop_add_of_drop (hrest.trans hsplit.symm)
  rw [readString, stringLoop_drop rest (k := k + 1) (by simp) hrest, ok_bind]
  rcases splitString_eq rest with ⟨more, hdrop, hss⟩ | ⟨hdrop, hss⟩
  · -- the closing quote comes before the end
    rw [hdrop] at hdw hsplit
    have hlt := lt_length_of_drop hdw
    rw [if_neg (by simp [isAtEnd]; omega), advance_of_cons (by simp; omega) hdw, ok_bind]
    dsimp only
    rw [slice_of_drop (by omega) (by omega) (by omega) (hrest.trans hsplit.symm), ok_bind, hss]
    refine addToken_take hk hstart hle (by simp; omega) (by simp)
      (by simp [Literal.ofLexeme]) (r := more) ?_
    rw [h]
    conv_lhs => rw [← hsplit]
    simp
  · -- the end comes first, and the string is reported
    have hall : rest.takeWhile isStringChar = rest := by simpa [hdrop] using hsplit
    rw [hdrop] at hdw
    rw [if_pos ((isAtEnd_iff (by simp; omega)).mpr hdw), hss]
    simp only [take, report, text, lines, hall, List.length_cons, pure_eq_ok, Except.ok.injEq,
      Lexer.mk.injEq, and_true, true_and]
    omega

theorem ofWord_ne (w : Text) : TokenKind.ofWord w ≠ .string ∧ TokenKind.ofWord w ≠ .number := by
  unfold TokenKind.ofWord
  cases hf : TokenKind.keywords.find? (fun k => decide (Text.ofString k.spelling = w)) with
  | none => exact ⟨by decide, by decide⟩
  | some k =>
      have hk := List.mem_of_find?_eq_some hf
      have hkinds : ∀ k ∈ TokenKind.keywords, k ≠ .string ∧ k ≠ .number := by decide
      exact hkinds k hk

/-- A word: its letters, digits and underscores, a keyword or an identifier. -/
theorem readIdentifier_split {c : Char} {rest : Text} (hk : lx.current + 1 = k)
    (hstart : lx.start = lx.current) (h : s.drop k = .scalar c :: rest)
    (hc : isWordStart c = true) :
    readIdentifier s { lx with current := k } = .ok (lx.take (splitWord c rest).1) := by
  have hrest := drop_succ_of_cons h
  have hle := lt_length_of_drop h
  have hlex : s.drop k = (.scalar c :: rest.takeWhile isWordChar) ++ rest.dropWhile isWordChar := by
    rw [h, List.cons_append, List.takeWhile_append_dropWhile]
  have hcount : (.scalar c :: rest.takeWhile isWordChar).count (.scalar '\n') = 0 := by
    refine List.count_eq_zero.mpr fun hm => ?_
    rcases List.mem_cons.mp hm with he | hm
    · rw [CodePoint.scalar.injEq] at he
      subst he
      simp [isWordStart] at hc
    · exact absurd (mem_takeWhile_imp hm) (by decide)
  rw [readIdentifier, advanceWhile_drop (by decide) rest (k := k + 1) (by simp) hrest, ok_bind,
    slice_of_drop (by simp; omega) (by simp; omega) hle.le hlex, ok_bind]
  exact addToken_take hk hstart hle (by simp; omega) (by simp [hcount])
    (ofLexeme_eq_absent (ofWord_ne _).1 (ofWord_ne _).2 _) hlex

/-- The punctuation that stands alone carries no literal and is no line feed. -/
theorem ofSingle_plain {c : Char} {kind : TokenKind} (h : TokenKind.ofSingle? c = some kind) :
    (kind ≠ .string ∧ kind ≠ .number) ∧ c ≠ '\n' := by
  unfold TokenKind.ofSingle? at h
  split at h <;> (try cases h) <;> decide

/-- The operators `! = < >`, alone or followed by `=`, carry no literal. -/
theorem ofOperator_plain {c : Char} {a b : TokenKind} (h : TokenKind.ofOperator? c = some (a, b)) :
    (a ≠ .string ∧ a ≠ .number) ∧ (b ≠ .string ∧ b ≠ .number) ∧ c ≠ '\n' := by
  unfold TokenKind.ofOperator? at h
  split at h <;> (try cases h) <;> decide

/-- Punctuation of one or two code points, starting with `c`: a token with no literal. -/
theorem addToken_symbol {kind : TokenKind} {c : Char} {t r : Text} {cur : Int}
    (hk : lx.current + 1 = k) (hstart : lx.start = lx.current) (hle : k < s.length)
    (hcur : cur + 1 = k + t.length) (hkind : kind ≠ .string ∧ kind ≠ .number)
    (ht : t = [.scalar c] ∨ t = [.scalar c, .scalar '=']) (hc : c ≠ '\n') (h : s.drop k = t ++ r) :
    addToken s kind .absent { lx with current := cur } = .ok (lx.take (.token kind t)) := by
  have hcount : t.count (.scalar '\n') = 0 := by
    rcases ht with rfl | rfl <;> simp [hc]
  exact addToken_take hk hstart hle hcur (by simp [hcount]) (ofLexeme_eq_absent hkind.1 hkind.2 t) h

/-- **One call takes one piece.** From a lexer that has consumed the first `k` code points, with
`start` set to `current`, a call reads what `Piece.split` takes from what is left, and leaves the
lexer as `take` says; in particular it reads nothing outside the source. -/
theorem scanToken_split {c : CodePoint} {rest : Text} (hk : lx.current + 1 = k)
    (hstart : lx.start = lx.current) (h : s.drop k = c :: rest) :
    scanToken s lx = .ok (lx.take (split c rest).1) := by
  have hle := lt_length_of_drop h
  cases c with
  | surrogate o =>
      rw [scanToken, advance_of_cons hk h, ok_bind]
      simp only [split, take, report, text, lines, List.length_singleton, pure_eq_ok,
        Except.ok.injEq, Lexer.mk.injEq, true_and, and_true]
      omega
  | scalar ch =>
      rw [scanToken, advance_of_cons hk h, ok_bind]
      dsimp only
      show _ = Except.ok (lx.take (splitChar ch rest).1)
      unfold splitChar
      cases hsingle : TokenKind.ofSingle? ch with
      | some kind =>
          -- a code point that stands alone
          dsimp only
          obtain ⟨hplain, hnl⟩ := ofSingle_plain hsingle
          exact addToken_symbol hk hstart hle (by simp) hplain (.inl rfl) hnl h
      | none =>
      cases hop : TokenKind.ofOperator? ch with
      | some pair =>
          -- one of `! = < >`, followed by `=` or alone
          obtain ⟨alone, withEqual⟩ := pair
          dsimp only
          obtain ⟨halone, hpair, hnl⟩ := ofOperator_plain hop
          have hnext := drop_succ_of_cons h
          by_cases hmore : ∃ more, rest = .scalar '=' :: more
          · obtain ⟨more, rfl⟩ := hmore
            rw [matchNext_of_cons (by simp) hnext, ok_bind]
            exact addToken_symbol hk hstart hle (by simp; omega) hpair (.inr rfl) hnl h
          · rw [matchNext_of_ne (by simp) fun r hr => hmore ⟨r, hnext ▸ hr⟩, ok_bind]
            simp only [Bool.false_eq_true, if_false]
            split
            · rename_i more
              exact absurd ⟨more, rfl⟩ hmore
            · exact addToken_symbol hk hstart hle (by simp) halone (.inl rfl) hnl h
      | none =>
        -- a slash, a quote, a blank, a line feed, a digit, a letter, or a code point that starts
        -- nothing: the two definitions test them in the same order
        dsimp only
        split_ifs with hslash hquote hblank hnl hdigit hword
        · -- a comment when another slash follows
          subst hslash
          have hnext := drop_succ_of_cons h
          by_cases hmore : ∃ more, rest = .scalar '/' :: more
          · obtain ⟨more, rfl⟩ := hmore
            rw [matchNext_of_cons (by simp) hnext, ok_bind, if_pos rfl,
              skipComment_drop more (j := k + 1) (by simp) hnext (by decide)]
            simp only [splitSlash, take, text, lines, List.length_cons, Except.ok.injEq,
              Lexer.mk.injEq, true_and, and_true]
            omega
          · rw [matchNext_of_ne (by simp) fun r hr => hmore ⟨r, hnext ▸ hr⟩, ok_bind]
            simp only [Bool.false_eq_true, if_false]
            unfold splitSlash
            split
            · rename_i more
              exact absurd ⟨more, rfl⟩ hmore
            · exact addToken_symbol hk hstart hle (by simp) ⟨by decide, by decide⟩ (.inl rfl)
                (by decide) h
        · subst hquote
          exact readString_split hk hstart h
        · simp only [take, text, lines, pure_eq_ok, Except.ok.injEq, Lexer.mk.injEq, true_and]
          simp; omega
        · subst hnl
          simp only [take, text, lines, pure_eq_ok, Except.ok.injEq, Lexer.mk.injEq, true_and]
          simp; omega
        · exact readNumber_split hk hstart h hdigit
        · exact readIdentifier_split hk hstart h hword
        · simp only [take, report, text, lines, pure_eq_ok, Except.ok.injEq, Lexer.mk.injEq]
          simp; omega

/-! ### The loop -/

/-- Taking a piece, then scanning the pieces after it, adds what the scan of all of them adds. -/
theorem take_ofPieces (lx : Lexer) (p : Piece) (ps : List Piece) :
    (lx.take p).tokens ++ (Scan.ofPieces (lx.take p).line ps).tokens =
        lx.tokens ++ (Scan.ofPieces lx.line (p :: ps)).tokens ∧
      (lx.take p).reports ++ (Scan.ofPieces (lx.take p).line ps).diagnostics =
        lx.reports ++ (Scan.ofPieces lx.line (p :: ps)).diagnostics := by
  cases p <;> simp [take, Scan.ofPieces]

/-- **The loop.** From a lexer that has consumed the first `k` code points, a budget of one call
per piece of what is left is enough, and the loop adds the tokens and the reports of the scan of
what is left, from the lexer's line. The induction follows `pieces`: one call per piece. -/
theorem scanTokens_drop (r : Text) :
    ∀ (budget : Nat) {k : Nat} {lx : Lexer}, (pieces r).length ≤ budget →
      lx.current + 1 = k → s.drop k = r →
      ∃ lx', scanTokens s budget lx = .ok lx' ∧
        lx'.tokens = lx.tokens ++ (Scan.ofPieces lx.line (pieces r)).tokens ∧
        lx'.reports = lx.reports ++ (Scan.ofPieces lx.line (pieces r)).diagnostics := by
  induction r using pieces.induct with
  | case1 =>
      intro budget k lx _ hk h
      unfold scanTokens
      rw [if_pos ((isAtEnd_iff hk).mpr h)]
      exact ⟨_, rfl, by simp [Scan.ofPieces], by simp [Scan.ofPieces]⟩
  | case2 c rest r =>
      rename_i ih
      intro budget k lx hb hk h
      have hpieces := pieces_cons c rest
      cases budget with
      | zero => simp [hpieces] at hb
      | succ budget =>
          let lx1 : Lexer := { lx with start := lx.current }
          have hstep : scanToken s lx1 = .ok (lx1.take (split c rest).1) :=
            scanToken_split hk rfl h
          have hdrop : s.drop (k + (split c rest).1.text.length) = (split c rest).2 :=
            drop_add_of_drop (h.trans (text_split c rest))
          obtain ⟨lx', hrun, htok, hrep⟩ := ih budget (by simpa [hpieces] using hb)
            (show (lx1.take (split c rest).1).current + 1 = _ by simp [lx1]; omega) hdrop
          unfold scanTokens
          rw [if_neg (by simp [isAtEnd_of_cons hk h])]
          dsimp only
          rw [hstep, ok_bind]
          refine ⟨lx', hrun, ?_, ?_⟩
          · rw [htok, (take_ofPieces lx1 _ _).1, hpieces]
          · rw [hrep, (take_ofPieces lx1 _ _).2, hpieces]

/-- A run that finishes within its budget finishes the same way with one more call allowed. -/
theorem scanTokens_succ {budget : Nat} {lx r : Lexer} (h : scanTokens s budget lx = .ok r) :
    scanTokens s (budget + 1) lx = .ok r := by
  induction budget generalizing lx with
  | zero =>
      unfold scanTokens at h ⊢
      split at h
      · rwa [if_pos ‹_›]
      · cases h
  | succ budget ih =>
      unfold scanTokens at h
      rw [scanTokens]
      split at h
      · rwa [if_pos ‹_›]
      · rw [if_neg ‹_›]
        dsimp only at h ⊢
        cases hstep : scanToken s { lx with start := lx.current } with
        | error f => rw [hstep] at h; cases h
        | ok lx1 =>
            rw [hstep, ok_bind] at h
            rw [ok_bind]
            exact ih h

/-- **More budget keeps a finished run.** -/
theorem scanTokens_of_le {budget budget' : Nat} {lx r : Lexer} (h : scanTokens s budget lx = .ok r)
    (hle : budget ≤ budget') : scanTokens s budget' lx = .ok r := by
  induction budget', hle using Nat.le_induction with
  | base => exact h
  | succ n _ ih => exact scanTokens_succ ih

end Lexer

/-- **The lexer reads inside its source and ends.** On every source `lex` returns a state: no index
it reads, by `advance`, `matchNext`, `peek`, `peekNext` or in a comment, and no slice it takes lies
outside the source or below zero, the reader of number text accepts every numeral, and the loop
makes no more calls of `scanToken` than the source has code points; a larger budget gives the
same state. The state holds the tokens and the reports of `scan`, and the tokens end with the
end-of-input token, the only one. -/
theorem lex_stays_in_bounds (s : Text) :
    ∃ lx, lex s = .ok lx ∧
      (∀ budget, s.length ≤ budget → Lexer.scanTokens s budget Lexer.initial = .ok lx) ∧
      lx.tokens = (scan s).tokens ∧ lx.reports = (scan s).diagnostics ∧
      ∃ ts line, lx.tokens = ts ++ [Token.eof line] ∧ ∀ t ∈ ts, t.kind ≠ .eof := by
  obtain ⟨lx, hrun, htok, hrep⟩ := Lexer.scanTokens_drop s s.length (length_pieces_le s)
    (show Lexer.initial.current + 1 = ((0 : Nat) : Int) by rfl) List.drop_zero
  have htok' : lx.tokens = (scan s).tokens := by simpa [Lexer.initial, scan] using htok
  refine ⟨lx, hrun, fun budget hle => Lexer.scanTokens_of_le hrun hle, htok',
    by simpa [Lexer.initial, scan] using hrep, ?_⟩
  rw [htok']
  exact Scan.tokens_eq_append_eof s

end LoxLexer
