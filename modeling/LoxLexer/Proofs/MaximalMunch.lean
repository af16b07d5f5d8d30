import LoxLexer.Proofs.Pieces

/-!
# A scan is the maximal-munch reading of its source

The tokens of a scan, before the end of input, are exactly the reading that `Grammar.Tokenizes`
describes: the source divides into gaps and tokens, each token the longest lexeme at its place
unless a comment opens there, and each with the kind its lexeme has. The reading is unique, so
the grammar alone fixes the tokens of every source.

One direction follows the scan: every piece fits the grammar (`Piece.fits_split`). The other
follows the grammar: at the front of a text, each rule of `Tokenizes` leaves the scan a single
choice of piece, and the longest lexeme at the front is unique.

## Main results

* `tokenizes_pieces`: the token pieces of a source are a reading of it.
* `filterMap_pieces_of_tokenizes`: every reading of a source is its token pieces.
* `tokenizes_iff_scan`: the grammar's readings of a source are exactly the tokens of its scan.
-/

namespace LoxLexer

open Grammar Piece

/-- The token pieces of a source are a reading of it. -/
theorem tokenizes_pieces (s : Text) : Tokenizes s ((pieces s).filterMap lexeme?) := by
  induction s using pieces.induct with
  | case1 => simpa using Tokenizes.nil
  | case2 c rest _ ih =>
      replace ih : Tokenizes (split c rest).2 ((pieces (split c rest).2).filterMap lexeme?) := ih
      obtain ⟨p, r, hs, htext, hfits⟩ := split_spec c rest
      rw [hs] at ih
      rw [pieces_cons, hs, htext]
      cases p with
      | token k l => exact .token hfits.1 hfits.2 ih
      | blank b =>
          refine .space ?_ ih
          rcases hfits with rfl | rfl | rfl <;> simp [IsSpace]
      | newline => exact .space (by simp [IsSpace]) ih
      | comment body =>
          rcases hfits with ⟨b, rfl, hb⟩ | ⟨hb, rfl⟩
          · simpa [text, lexeme?, List.filterMap_cons] using Tokenizes.comment hb ih
          · simpa [text, lexeme?, List.filterMap_cons] using Tokenizes.lastComment hb
      | stray c' => exact .stray hfits.1 ih
      | unclosed body =>
          obtain ⟨hb, rfl⟩ := hfits
          simpa [text, lexeme?, List.filterMap_cons] using Tokenizes.unclosed hb

/-! ### What a scan does with each rule of the grammar -/

/-- A code point that starts no token is passed over: the scan takes it alone and gives no token
for it. -/
theorem split_of_not_startsToken {c : CodePoint} (hc : ¬ StartsToken c) (r : Text) :
    (split c r).2 = r ∧ (split c r).1.lexeme? = none := by
  obtain ⟨p, r', hs, htext, hfits⟩ := split_spec c r
  rw [hs]
  cases p with
  | token k l =>
      obtain ⟨c', m, rfl⟩ := List.exists_cons_of_ne_nil hfits.1.lexeme.ne_nil
      simp only [text, List.cons_append, List.cons.injEq] at htext
      rw [← htext.1] at hfits
      exact absurd hfits.1.lexeme.startsToken_head hc
  | comment body =>
      simp only [text, List.cons_append, List.cons.injEq] at htext
      exact absurd (htext.1 ▸ .inl ⟨'/', by decide, rfl⟩) hc
  | unclosed body =>
      simp only [text, List.cons_append, List.cons.injEq] at htext
      exact absurd (htext.1 ▸ .inr (.inl rfl)) hc
  | blank b => exact ⟨(List.cons.inj htext).2.symm, rfl⟩
  | newline => exact ⟨(List.cons.inj htext).2.symm, rfl⟩
  | stray c' => exact ⟨(List.cons.inj htext).2.symm, rfl⟩

theorem filterMap_pieces_of_not_startsToken {c : CodePoint} (hc : ¬ StartsToken c) (r : Text) :
    (pieces (c :: r)).filterMap lexeme? = (pieces r).filterMap lexeme? := by
  obtain ⟨hr, hp⟩ := split_of_not_startsToken hc r
  rw [pieces_cons, List.filterMap_cons, hp, hr]

/-- The longest lexeme at the front, where no comment opens, is the next piece. -/
theorem pieces_of_longestLexeme {k : TokenKind} {l r : Text} (hl : LongestLexeme k l (l ++ r))
    (hno : ¬ OpensComment (l ++ r)) : pieces (l ++ r) = token k l :: pieces r := by
  obtain ⟨c, m, rfl⟩ := List.exists_cons_of_ne_nil hl.lexeme.ne_nil
  obtain ⟨p, r', hs, htext, hfits⟩ := split_spec c (m ++ r)
  rw [List.cons_append, pieces_cons, hs]
  cases p with
  | token k' l' =>
      simp only [Fits, text] at hfits htext
      rw [← htext] at hfits
      obtain ⟨rfl, rfl⟩ := hl.unique hfits.1
      rw [← List.cons_append] at htext
      rw [List.append_cancel_left htext.symm]
  | blank b =>
      simp only [text, List.singleton_append, List.cons.injEq] at htext
      have hspace : IsSpace c := by
        rcases hfits with rfl | rfl | rfl <;> simp [IsSpace, htext.1]
      exact absurd hl.lexeme.startsToken_head (not_startsToken_of_isSpace hspace)
  | newline =>
      simp only [text, List.singleton_append, List.cons.injEq] at htext
      have hspace : IsSpace c := .inr (.inr (.inr htext.1))
      exact absurd hl.lexeme.startsToken_head (not_startsToken_of_isSpace hspace)
  | comment body =>
      simp only [text, List.cons_append] at htext
      refine absurd ⟨body ++ r', ?_⟩ hno
      simp only [List.cons_append, List.nil_append]
      exact htext.symm
  | stray c' =>
      simp only [text, List.singleton_append, List.cons.injEq] at htext
      exact absurd (htext.1 ▸ hl.lexeme) (hfits.1 k m)
  | unclosed body =>
      obtain ⟨hb, rfl⟩ := hfits
      simp only [text, List.append_nil, List.cons.injEq] at htext
      obtain ⟨rfl, hbody⟩ := htext
      obtain ⟨-, b, -, rfl⟩ := hl.lexeme.of_quote
      exact absurd rfl (hb (.scalar '"') (by rw [← hbody]; simp))

theorem throughNewline_append_newline {body : Text} (hb : ∀ c ∈ body, c ≠ .scalar '\n')
    (r : Text) : throughNewline (body ++ .scalar '\n' :: r) = (body ++ [.scalar '\n'], r) := by
  induction body with
  | nil => simp [throughNewline]
  | cons c body ih =>
      rw [List.cons_append, throughNewline, if_neg (hb c (by simp)),
        ih fun x hx => hb x (by simp [hx])]
      rfl

theorem throughNewline_of_forall_ne {body : Text} (hb : ∀ c ∈ body, c ≠ .scalar '\n') :
    throughNewline body = (body, []) := by
  induction body with
  | nil => rfl
  | cons c body ih =>
      rw [throughNewline, if_neg (hb c (by simp)), ih fun x hx => hb x (by simp [hx])]

/-- A comment is one piece, through its line feed. -/
theorem pieces_of_comment {body : Text} (hb : ∀ c ∈ body, c ≠ .scalar '\n') (r : Text) :
    pieces (.scalar '/' :: .scalar '/' :: (body ++ .scalar '\n' :: r)) =
      comment (body ++ [.scalar '\n']) :: pieces r := by
  rw [pieces_cons, split_slash]
  simp only [splitSlash, throughNewline_append_newline hb]

/-- A comment that runs to the end is the last piece. -/
theorem pieces_of_lastComment {body : Text} (hb : ∀ c ∈ body, c ≠ .scalar '\n') :
    pieces (.scalar '/' :: .scalar '/' :: body) = [comment body] := by
  rw [pieces_cons, split_slash]
  simp only [splitSlash, throughNewline_of_forall_ne hb, pieces_nil]

/-- A string that is never closed is the last piece. -/
theorem pieces_of_unclosed {body : Text} (hb : ∀ c ∈ body, c ≠ .scalar '"') :
    pieces (.scalar '"' :: body) = [unclosed body] := by
  rw [pieces_cons, split_quote]
  rcases splitString_eq body with ⟨more, hd, -⟩ | ⟨-, he⟩
  · have hq : CodePoint.scalar '"' ∈ body :=
      (List.dropWhile_suffix isStringChar (l := body)).subset (by rw [hd]; exact List.mem_cons_self)
    exact absurd rfl (hb _ hq)
  · rw [he, pieces_nil]

/-- Every reading of a source is its token pieces. -/
theorem filterMap_pieces_of_tokenizes {s : Text} {ts : List (TokenKind × Text)}
    (h : Tokenizes s ts) : (pieces s).filterMap lexeme? = ts := by
  induction h with
  | nil => simp
  | token hl hno _ ih =>
      rw [pieces_of_longestLexeme hl hno, List.filterMap_cons, ih]
      rfl
  | space hc _ ih => rw [filterMap_pieces_of_not_startsToken (not_startsToken_of_isSpace hc), ih]
  | comment hb _ ih =>
      rw [pieces_of_comment hb, List.filterMap_cons, ih]
      rfl
  | lastComment hb =>
      rw [pieces_of_lastComment hb]
      rfl
  | stray hc _ ih => rw [filterMap_pieces_of_not_startsToken (beginsNoToken_iff.mp hc), ih]
  | unclosed hb =>
      rw [pieces_of_unclosed hb]
      rfl

/-- **Maximal munch.** A source reads as the tokens `ts` under the lexical grammar exactly when
its scan gives the kinds and lexemes `ts`, followed by the end of input. -/
theorem tokenizes_iff_scan (s : Text) (ts : List (TokenKind × Text)) :
    Tokenizes s ts ↔ (scan s).tokens.map (fun t => (t.kind, t.lexeme)) = ts ++ [(.eof, [])] := by
  have hmap : (scan s).tokens.map (fun t => (t.kind, t.lexeme)) =
      (pieces s).filterMap lexeme? ++ [(.eof, [])] := by
    rw [scan, Scan.tokens_ofPieces, List.map_append, Scan.map_dropLast_tokens_ofPieces]
    rfl
  rw [hmap, List.append_left_inj]
  exact ⟨filterMap_pieces_of_tokenizes, fun h => h ▸ tokenizes_pieces s⟩

end LoxLexer
