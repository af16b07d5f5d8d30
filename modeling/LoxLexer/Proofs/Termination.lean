import LoxLexer.Proofs.LineNumbers
import LoxLexer.Proofs.NumberLiterals

/-!
# A scan takes at most one step per code point

Every step of a scan takes a piece of at least one code point off the front of what is left, so a
source of length `n` is cut into at most `n` pieces, and the piece a step takes is the slice of the
source that starts where the step starts. The tokens end with one end-of-input token, the only one
of its kind.

## Main results

* `length_pieces_le`: a source has no more pieces than code points.
* `slice_of_mem_layout`: each piece is the slice of the source at its offset.
* `Scan.tokens_eq_append_eof`: the tokens are lexemes, then the end of input.
-/

namespace LoxLexer

open Grammar Piece

/-! ### Every step takes at least one code point -/

/-- The piece a step takes is never empty. -/
theorem Piece.text_split_ne_nil (c : CodePoint) (rest : Text) : (split c rest).1.text ≠ [] := by
  intro hnil
  have hlen := congrArg List.length (text_split c rest)
  have hle := length_split_le c rest
  rw [hnil, List.nil_append, List.length_cons] at hlen
  omega

theorem text_ne_nil_of_mem_pieces {s : Text} {p : Piece} (hp : p ∈ pieces s) : p.text ≠ [] := by
  induction s using pieces.induct with
  | case1 => simp at hp
  | case2 c rest _ ih =>
      rw [pieces_cons, List.mem_cons] at hp
      rcases hp with rfl | hp
      · exact text_split_ne_nil c rest
      · exact ih hp

/-- A scan takes at most as many steps as its source has code points. -/
theorem length_pieces_le (s : Text) : (pieces s).length ≤ s.length := by
  induction s using pieces.induct with
  | case1 => simp
  | case2 c rest _ ih =>
      have hrest : (pieces (split c rest).2).length ≤ (split c rest).2.length := ih
      have hle := length_split_le c rest
      rw [pieces_cons, List.length_cons, List.length_cons]
      omega

/-! ### The slices a scan reads -/

/-- The piece at offset `o` of a layout is the slice of the source from `o` on, of the piece's
length, and it ends inside the source. -/
theorem slice_of_mem_layout {s : Text} {o : Nat} {p : Piece} (h : (o, p) ∈ layout s) :
    o + p.text.length ≤ s.length ∧ (s.drop o).take p.text.length = p.text := by
  obtain ⟨pre, post, -, hs, rfl⟩ := layout_split h
  constructor
  · rw [hs, List.length_append, List.length_append]
    omega
  · rw [hs, List.drop_left, List.take_left]

theorem text_ne_nil_of_mem_layout {s : Text} {x : Nat × Piece} (h : x ∈ layout s) :
    x.2.text ≠ [] := by
  obtain ⟨pre, post, hps, -⟩ := layout_split h
  exact text_ne_nil_of_mem_pieces (by rw [hps]; exact List.mem_append_right _ List.mem_cons_self)

/-! ### The end of input -/

/-- No lexeme is read as the end of input. -/
theorem Grammar.Lexeme.kind_ne_eof {k : TokenKind} {l : Text} (h : Lexeme k l) : k ≠ .eof := by
  cases h with
  | symbol hs => rintro rfl; simp [symbols] at hs
  | keyword hs => rintro rfl; simp [keywords] at hs
  | string _ | whole _ _ | fraction _ _ _ _ | identifier _ _ _ => decide

/-- The tokens of a scan are lexemes, then one end-of-input token. -/
theorem Scan.tokens_eq_append_eof (s : Text) :
    ∃ ts line, (scan s).tokens = ts ++ [Token.eof line] ∧ ∀ t ∈ ts, t.kind ≠ .eof :=
  ⟨_, _, Scan.tokens_ofPieces 1 (pieces s), fun _ ht => (Scan.lexeme_of_mem_dropLast ht).kind_ne_eof⟩

end LoxLexer
