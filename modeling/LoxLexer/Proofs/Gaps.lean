import LoxLexer.Proofs.Problems

/-!
# A gap stands for a blank

Where a token could start, a scan passes over blanks, code points that start no token, and
comments with the line feed that ends them. Put a single space in place of any one of these and
the scan gives the same tokens, on the same lines, and the same reports, but for the report of an
unexpected code point that the space took the place of.

The reason is that a step reads what follows its piece as a boundary only. A piece taken from the
front of `m ++ t` whose text lies within `m` is also the piece taken from the front of `m`
(`Piece.split_of_split_append`): the longest lexeme at the front of a text is still the longest
at the front of any part of it that holds the lexeme. So the pieces of a source before a gap are
the pieces of the text before it (`pieces_of_pieces_append`), and a space joins them to the rest
as the seams of `pieces_append_space` do.

## Main definitions

* `Piece.Skipped`: a piece that a scan passes over where a token could start.

## Main results

* `Piece.split_of_split_append`: a step looks no further than its piece.
* `pieces_of_pieces_append`: the pieces before some point of a source are the pieces of the text
  up to there.
* `scan_replace_skipped`: a skipped piece replaced by a space.
-/

namespace LoxLexer

open Grammar Piece

namespace Grammar

/-- The longest lexeme at the front of a text is the longest at the front of any part of it that
holds the lexeme. -/
theorem LongestLexeme.restrict {k : TokenKind} {l x y : Text} (h : LongestLexeme k l x)
    (hl : l <+: y) (hy : y <+: x) : LongestLexeme k l y :=
  ⟨h.lexeme, hl, fun k' l' hl' hpre => h.longest k' l' hl' (hpre.trans hy)⟩

end Grammar

namespace Piece

/-- A piece that a scan passes over where a token could start: a blank, a code point that starts
no token, or a comment with the line feed that ends it, if any. -/
def Skipped : Piece → Prop
  | blank _ | stray _ | comment _ => True
  | _ => False

/-- A piece followed by more text ends within its own text. -/
theorem closed_of_fits {p : Piece} {r : Text} (h : Fits p r) (hr : r ≠ []) : p.Closed := by
  cases p with
  | comment body =>
      rcases h with ⟨b, rfl, -⟩ | ⟨-, rfl⟩
      · simp [Closed]
      · exact absurd rfl hr
  | unclosed body => exact absurd h.2 hr
  | _ => trivial

/-- A step is known from its piece: what it leaves is the rest of the text. -/
theorem split_eq_of_fst {c : CodePoint} {m r : Text} {p : Piece} (h : (split c m).1 = p)
    (ht : c :: m = p.text ++ r) : split c m = (p, r) := by
  have hrest : (split c m).2 = r := by
    have htext := (text_split c m).symm.trans ht
    rw [h] at htext
    exact List.append_cancel_left htext
  exact Prod.ext h hrest

/-- The first piece of a text, read off its pieces. -/
theorem split_eq_of_pieces {c : CodePoint} {m r : Text} {p : Piece} {qs : List Piece}
    (h : pieces (c :: m) = p :: qs) (ht : c :: m = p.text ++ r) : split c m = (p, r) := by
  rw [pieces_cons] at h
  exact split_eq_of_fst (List.cons.inj h).1 ht

/-- **A step looks no further than its piece.** The piece taken from the front of `m ++ t`, when
it leaves `r ++ t`, is also the piece taken from the front of `m`, and it leaves `r`. -/
theorem split_of_split_append {c : CodePoint} {m r t : Text} {p : Piece}
    (h : split c (m ++ t) = (p, r ++ t)) : split c m = (p, r) := by
  have htext : c :: m = p.text ++ r := by
    have h' := text_split c (m ++ t)
    rw [h, ← List.append_assoc, ← List.cons_append] at h'
    exact List.append_cancel_right h'
  have hfits : Fits p (r ++ t) := by
    have h' := fits_split c (m ++ t)
    rwa [h] at h'
  -- a piece that starts no token is taken alone, whatever follows it
  have halone : ¬ StartsToken c → r = m → split c m = (p, r) := by
    intro hc hr
    rw [split_of_not_startsToken_eq hc m (m ++ t), h, hr]
  cases p with
  | token k l =>
      have hpre : l ++ r <+: l ++ (r ++ t) := by
        rw [← List.append_assoc]
        exact List.prefix_append _ _
      have hlong := hfits.1.restrict (List.prefix_append l r) hpre
      have hno : ¬ OpensComment (l ++ r) := fun ho => hfits.2 (ho.trans hpre)
      have hp := pieces_of_longestLexeme hlong hno
      rw [← show c :: m = l ++ r from htext] at hp
      exact split_eq_of_pieces hp htext
  | blank b =>
      simp only [text, List.singleton_append, List.cons.injEq] at htext
      obtain ⟨rfl, rfl⟩ := htext
      apply halone _ rfl
      rcases hfits with rfl | rfl | rfl
      · exact not_startsToken_of_isSpace (.inl rfl)
      · exact not_startsToken_of_isSpace (.inr (.inl rfl))
      · exact not_startsToken_of_isSpace (.inr (.inr (.inl rfl)))
  | newline =>
      simp only [text, List.singleton_append, List.cons.injEq] at htext
      obtain ⟨rfl, rfl⟩ := htext
      exact halone (not_startsToken_of_isSpace (.inr (.inr (.inr rfl)))) rfl
  | stray c' =>
      simp only [text, List.singleton_append, List.cons.injEq] at htext
      obtain ⟨rfl, rfl⟩ := htext
      exact halone (beginsNoToken_iff.mp hfits.1) rfl
  | comment body =>
      rcases hfits with ⟨b, rfl, hb⟩ | ⟨-, hend⟩
      · have hp := pieces_of_comment hb r
        have hsrc : c :: m = .scalar '/' :: .scalar '/' :: (b ++ .scalar '\n' :: r) := by
          simpa [text] using htext
        rw [← hsrc] at hp
        exact split_eq_of_pieces hp htext
      · obtain ⟨rfl, rfl⟩ := List.append_eq_nil_iff.mp hend
        simpa using h
  | unclosed body =>
      obtain ⟨rfl, rfl⟩ := List.append_eq_nil_iff.mp hfits.2
      simpa using h

end Piece

/-- The text of a piece of a source holds its first code point. -/
theorem exists_cons_of_mem_pieces {s : Text} {p : Piece} (hp : p ∈ pieces s) :
    ∃ c m, p.text = c :: m :=
  List.exists_cons_of_ne_nil (text_ne_nil_of_mem_pieces hp)

/-- **The pieces of a front part.** When a source is cut into the pieces `pre` and then more, and
the text of `pre` is followed by more text `t`, the pieces of the text of `pre` alone are `pre`,
and each of them ends within its own text. -/
theorem pieces_of_pieces_append {pre qs : List Piece} {t : Text} (ht : t ≠ [])
    (h : pieces (pre.flatMap text ++ t) = pre ++ qs) :
    pieces (pre.flatMap text) = pre ∧ ∀ p ∈ pre, p.Closed := by
  induction pre with
  | nil => simp
  | cons p pre ih =>
      have hp : p ∈ pieces ((p :: pre).flatMap text ++ t) := by
        rw [h]
        exact List.mem_cons_self
      obtain ⟨c, m, hcm⟩ := exists_cons_of_mem_pieces hp
      have hsrc : (p :: pre).flatMap text ++ t = c :: ((m ++ pre.flatMap text) ++ t) := by
        simp [hcm]
      rw [hsrc, List.cons_append] at h
      have hs : split c ((m ++ pre.flatMap text) ++ t) = (p, pre.flatMap text ++ t) :=
        split_eq_of_pieces h (by simp [hcm])
      have hrest : pieces (pre.flatMap text ++ t) = pre ++ qs := by
        rw [pieces_cons, hs] at h
        exact (List.cons.inj h).2
      have hfits : Fits p (pre.flatMap text ++ t) := by
        have h' := fits_split c ((m ++ pre.flatMap text) ++ t)
        rwa [hs] at h'
      obtain ⟨hpre, hclosed⟩ := ih hrest
      refine ⟨?_, ?_⟩
      · rw [List.flatMap_cons, hcm, List.cons_append, pieces_cons, split_of_split_append hs, hpre]
      · intro q hq
        rcases List.mem_cons.mp hq with rfl | hq
        · exact closed_of_fits hfits (by simp [ht])
        · exact hclosed q hq

/-- The pieces after a first piece are the pieces of the text it leaves. -/
theorem pieces_of_pieces_cons {p : Piece} {r : Text} {qs : List Piece}
    (h : pieces (p.text ++ r) = p :: qs) (hp : p.text ≠ []) : pieces r = qs := by
  obtain ⟨c, m, hcm⟩ := List.exists_cons_of_ne_nil hp
  rw [hcm, List.cons_append] at h
  have hs := split_eq_of_pieces h (by rw [hcm, List.cons_append])
  rw [pieces_cons, hs] at h
  exact (List.cons.inj h).2

namespace Scan

/-- A skipped piece moves a scan by no line and gives no token; it reports its problem, if any,
on the line where it stands. -/
theorem ofPieces_skipped {p : Piece} (hp : p.Skipped) (line : Nat) (ps : List Piece) :
    (ofPieces line (p :: ps)).tokens = (ofPieces line ps).tokens ∧
      (ofPieces line (p :: ps)).diagnostics =
        (p.problem?.map (Diagnostic.mk line)).toList ++ (ofPieces line ps).diagnostics := by
  cases p with
  | blank | comment | stray => simp [ofPieces, lines, problem?]
  | token | newline | unclosed => exact hp.elim

end Scan

/-- **A gap stands for a blank.** Let a piece `p` of a source `s` be a blank, a code point that
starts no token, or a comment with the line feed that ends it, if any, between the pieces `pre`
and `post`. Put a single space in its place. The tokens stay the same, with their kinds, lexemes,
literals and lines. The reports stay the same, but that the report of `p`, if it is an unexpected
code point, is gone: it stood after the reports of the text before `p`, on the line of `p`. -/
theorem scan_replace_skipped {s : Text} {pre post : List Piece} {p : Piece}
    (hs : pieces s = pre ++ p :: post) (hp : p.Skipped) :
    s = pre.flatMap text ++ p.text ++ post.flatMap text ∧
    (scan (pre.flatMap text ++ .scalar ' ' :: post.flatMap text)).tokens = (scan s).tokens ∧
    ∃ rest, (scan s).diagnostics = (scan (pre.flatMap text)).diagnostics ++
        (p.problem?.map (Diagnostic.mk (1 + newlinesBefore s (pre.flatMap text).length))).toList ++
          rest ∧
      (scan (pre.flatMap text ++ .scalar ' ' :: post.flatMap text)).diagnostics =
        (scan (pre.flatMap text)).diagnostics ++ rest := by
  have hsrc : s = pre.flatMap text ++ p.text ++ post.flatMap text := by
    conv_lhs => rw [← flatMap_text_pieces s, hs]
    simp
  have hne : p.text ≠ [] := text_ne_nil_of_mem_pieces (by rw [hs]; simp)
  -- the text before the gap keeps its pieces, and so does the text after it
  obtain ⟨hpre, hclosed⟩ := pieces_of_pieces_append (t := p.text ++ post.flatMap text)
    (by simp [hne]) (by rw [← List.append_assoc, ← hsrc, hs])
  have hpost : pieces (post.flatMap text) = post :=
    pieces_of_pieces_cons (pieces_text_append s hs) hne
  have hspace : pieces (pre.flatMap text ++ .scalar ' ' :: post.flatMap text) =
      pre ++ blank ' ' :: post := by
    rw [pieces_append_space (by rw [hpre]; exact hclosed) (.inl rfl), hpre, pieces_cons,
      split_blank (.inl rfl), hpost]
  -- the line where the gap stands, counted along the source
  have hline : 1 + linesOf pre = 1 + newlinesBefore s (pre.flatMap text).length := by
    have hf : CountsLines (newlinesBefore s) 0 pre := fun x hx =>
      countsLines_newlinesBefore x (by
        rw [hs, placeFrom_append]
        exact List.mem_append_left _ hx)
    simpa using Scan.eof_ofPieces_walk (newlinesBefore s) pre 0 hf
  obtain ⟨hgap, hgapd⟩ := Scan.ofPieces_skipped hp (1 + linesOf pre) post
  obtain ⟨hblank, hblankd⟩ := Scan.ofPieces_skipped (p := blank ' ') trivial (1 + linesOf pre) post
  refine ⟨hsrc, ?_, (Scan.ofPieces (1 + linesOf pre) post).diagnostics, ?_, ?_⟩
  · rw [scan, scan, hspace, hs, Scan.tokens_ofPieces_append, Scan.tokens_ofPieces_append, hgap,
      hblank]
  · rw [scan, scan, hs, hpre, Scan.diagnostics_ofPieces_append, hgapd, hline, List.append_assoc]
  · rw [scan, scan, hspace, hpre, Scan.diagnostics_ofPieces_append, hblankd]
    rfl

/-- In `1.@x` the `@` stands between the point and the word. A space in its place leaves the
tokens `1`, `.` and `x` as they were, and takes away the one report, of the `@` on line 1. -/
theorem scan_replace_skipped_after_point :
    pieces (Text.ofString "1.@x") = [token .number (Text.ofString "1"),
        token .dot (Text.ofString ".")] ++ stray (.scalar '@') ::
          [token .identifier (Text.ofString "x")] ∧
      (stray (.scalar '@')).Skipped ∧
      (scan (Text.ofString "1. x")).tokens = (scan (Text.ofString "1.@x")).tokens ∧
      ∃ rest, (scan (Text.ofString "1.@x")).diagnostics =
          (scan (Text.ofString "1.")).diagnostics ++ ⟨1, .unexpected (.scalar '@')⟩ :: rest ∧
        (scan (Text.ofString "1. x")).diagnostics = (scan (Text.ofString "1.")).diagnostics ++ rest := by
  have hs : pieces (Text.ofString "1.@x") = [token .number (Text.ofString "1"),
      token .dot (Text.ofString ".")] ++ stray (.scalar '@') ::
        [token .identifier (Text.ofString "x")] := by
    decide +kernel
  have hpre : [token .number (Text.ofString "1"), token .dot (Text.ofString ".")].flatMap text =
      Text.ofString "1." := by
    decide
  have hline : 1 + newlinesBefore (Text.ofString "1.@x") (Text.ofString "1.").length = 1 := by
    decide +kernel
  obtain ⟨-, htok, rest, hd, hd'⟩ := scan_replace_skipped hs trivial
  refine ⟨hs, trivial, htok, rest, ?_, hd'⟩
  rw [hd, hpre, hline]
  simp [problem?]

end LoxLexer
