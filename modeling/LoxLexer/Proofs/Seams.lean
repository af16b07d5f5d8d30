import LoxLexer.Proofs.MaximalMunch

/-!
# Sources joined by a blank or a line feed

Put a blank or a line feed between two sources `a` and `b`. If `a` ends outside any string and
outside any comment, the scan of the whole is the scan of `a`, without its end of input, followed
by the scan of `b`, with every line of `b` moved down by the lines of `a` and by one more for a
line feed. So the state of a scan between two tokens is its line alone: the lookahead at the end
of `a` sees the separator as it would see the end of the input.

The reason lies in the grammar. A blank or a line feed stands in no lexeme but a string, and a
string ends at its first closing quote, so the longest lexeme at the front of a text is still the
longest when a blank and anything else follow the text (`LongestLexeme.append_space`). A code
point that starts no token is taken alone whatever follows, and a comment closed by a line feed
ends there.

## Main definitions

* `Piece.Closed`: a piece that ends within its own text, whatever follows.

## Main results

* `pieces_append_space`: the pieces of `a ++ c :: b` for a blank or line feed `c`.
* `scan_append_space`: the scan of `a ++ c :: b`.
-/

namespace LoxLexer

open Grammar Piece

/-! ### The grammar at a blank -/

namespace Grammar

/-- Every character of an operator starts punctuation. -/
theorem symbols_chars : ∀ p ∈ symbols, ∀ c ∈ p.1.toList, c ∈ symbolStarts := by
  intro p hp
  have hcheck :
      symbols.all (fun p => p.1.toList.all fun c => decide (c ∈ symbolStarts)) = true := by
    decide
  simpa using List.all_eq_true.mp hcheck p hp

/-- Every code point of a lexeme other than a string starts a token itself: punctuation, a
digit, the point of a fraction or a letter. -/
theorem Lexeme.startsToken_of_mem {k : TokenKind} {l : Text} {c : CodePoint} (h : Lexeme k l)
    (hk : k ≠ .string) (hc : c ∈ l) : StartsToken c := by
  cases h with
  | symbol hs =>
      obtain ⟨ch, hch, rfl⟩ := List.mem_map.mp hc
      exact .inl ⟨ch, symbols_chars _ hs ch hch, rfl⟩
  | string => exact absurd rfl hk
  | whole _ hd => exact .inr (.inr (.inl (hd c hc)))
  | fraction _ hw _ hf =>
      rcases List.mem_append.mp hc with hc | hc
      · exact .inr (.inr (.inl (hw c hc)))
      · rcases List.mem_cons.mp hc with rfl | hc
        · exact .inl ⟨'.', by decide, rfl⟩
        · exact .inr (.inr (.inl (hf c hc)))
  | keyword hs =>
      obtain ⟨ch, hch, rfl⟩ := List.mem_map.mp hc
      exact .inr (.inr (.inr (.inl ((keywords_spelling _ hs).2 ch hch))))
  | identifier hl hw =>
      rcases List.mem_cons.mp hc with rfl | hc
      · exact .inr (.inr (.inr hl))
      · rcases hw c hc with hl | hd
        · exact .inr (.inr (.inr hl))
        · exact .inr (.inr (.inl hd))

/-- A lexeme of a string is a quote, a text without a quote, and a quote. -/
theorem Lexeme.of_string {l : Text} (h : Lexeme .string l) :
    ∃ body, (∀ c ∈ body, c ≠ .scalar '"') ∧ l = .scalar '"' :: body ++ [.scalar '"'] := by
  cases h with
  | symbol hs => simp [symbols] at hs
  | string hb => exact ⟨_, hb, rfl⟩
  | keyword hs => simp [keywords] at hs

/-- Two strings at the front of one text are one string: each ends at the first quote after the
opening one. -/
theorem Lexeme.eq_of_string {l l' x : Text} (h : Lexeme .string l) (h' : Lexeme .string l')
    (hl : l <+: x) (hl' : l' <+: x) : l = l' := by
  obtain ⟨b, hb, rfl⟩ := h.of_string
  obtain ⟨b', hb', rfl⟩ := h'.of_string
  obtain ⟨t, ht⟩ := hl
  obtain ⟨t', ht'⟩ := hl'
  have hsame : b ++ .scalar '"' :: t = b' ++ .scalar '"' :: t' := by
    simpa using ht.trans ht'.symm
  obtain ⟨rfl, -⟩ := eq_of_append_cons_eq hsame (fun hm => hb _ hm rfl) (fun hm => hb' _ hm rfl)
  rfl

theorem mem_of_prefix_append_cons {l x y : Text} {c : CodePoint} (h : l <+: x ++ c :: y)
    (hlen : x.length < l.length) : c ∈ l := by
  obtain ⟨j, hj⟩ : ∃ j, l.length = x.length + (j + 1) := ⟨l.length - x.length - 1, by omega⟩
  rw [List.prefix_iff_eq_take.mp h, hj, List.take_length_add_append, List.take_succ_cons]
  simp

/-- **The seam.** The longest lexeme at the front of a text is still the longest when a blank or
a line feed and anything else follow the text. -/
theorem LongestLexeme.append_space {k : TokenKind} {l x y : Text} {c : CodePoint}
    (h : LongestLexeme k l x) (hc : IsSpace c) : LongestLexeme k l (x ++ c :: y) := by
  have hlx : l <+: x ++ c :: y := h.isPrefix.trans (List.prefix_append _ _)
  refine ⟨h.lexeme, hlx, fun k' l' hl' hpre => ?_⟩
  by_cases hlen : l'.length ≤ x.length
  · exact h.longest k' l' hl' (List.prefix_of_prefix_length_le hpre (List.prefix_append _ _) hlen)
  -- a lexeme that runs past the end of `x` holds `c`, so it is a string, and so is `l`
  have hk' : k' = .string := by
    by_cases hk : k' = .string
    · exact hk
    · have hmem : c ∈ l' := mem_of_prefix_append_cons hpre (by omega)
      exact absurd (hl'.startsToken_of_mem hk hmem) (not_startsToken_of_isSpace hc)
  subst hk'
  obtain ⟨b', -, rfl⟩ := hl'.of_string
  obtain ⟨c0, m, rfl⟩ := List.exists_cons_of_ne_nil h.lexeme.ne_nil
  have hhead : c0 = .scalar '"' := by
    obtain ⟨t, ht⟩ := hlx
    obtain ⟨t', ht'⟩ := hpre
    have hsame := ht.trans ht'.symm
    simp only [List.cons_append, List.cons.injEq] at hsame
    exact hsame.1
  subst hhead
  obtain ⟨rfl, -⟩ := h.lexeme.of_quote
  exact Nat.le_of_eq (congrArg List.length (Lexeme.eq_of_string h.lexeme hl' hlx hpre).symm)

/-- A blank or a line feed after a text opens no comment that the text does not open. -/
theorem not_opensComment_append_space {x y : Text} {c : CodePoint} (hx : x ≠ [])
    (h : ¬ OpensComment x) (hc : IsSpace c) : ¬ OpensComment (x ++ c :: y) := by
  rintro ⟨t, ht⟩
  obtain ⟨a, z, rfl⟩ := List.exists_cons_of_ne_nil hx
  cases z with
  | nil =>
      simp only [List.cons_append, List.nil_append, List.cons.injEq] at ht
      rw [← ht.2.1] at hc
      exact not_startsToken_of_isSpace hc (.inl ⟨'/', by decide, rfl⟩)
  | cons b z =>
      simp only [List.cons_append, List.nil_append, List.cons.injEq] at ht
      obtain ⟨rfl, rfl, -⟩ := ht
      exact h ⟨z, rfl⟩

end Grammar

/-! ### Pieces before a blank -/

namespace Piece

/-- A piece that ends within its own text, whatever follows: every piece but a comment that runs
to the end and a string never closed. -/
def Closed : Piece → Prop
  | comment body => body.getLast? = some (.scalar '\n')
  | unclosed _ => False
  | _ => True

/-- A code point that starts no token is taken alone, as a piece that does not depend on what
follows it. -/
theorem split_of_not_startsToken_eq {c : CodePoint} (hc : ¬ StartsToken c) (x y : Text) :
    split c x = ((split c y).1, x) := by
  cases c with
  | surrogate _ => rfl
  | scalar ch =>
      have hsym : ch ∉ symbolStarts := fun h => hc (.inl ⟨ch, h, rfl⟩)
      have hs : TokenKind.ofSingle? ch = none := by
        rcases hk : TokenKind.ofSingle? ch with _ | k
        · rfl
        · exact absurd (ofSingle_spec hk).2.1 hsym
      have ho : TokenKind.ofOperator? ch = none := by
        rcases hk : TokenKind.ofOperator? ch with _ | ⟨a, b⟩
        · rfl
        · exact absurd (ofOperator_spec hk).2.2.1 hsym
      have hslash : ch ≠ '/' := fun h => hsym (h ▸ by decide)
      have hquote : ch ≠ '"' := fun h => hc (.inr (.inl (congrArg _ h)))
      have hdigit : ¬ ch.isDigit = true := fun h => hc (.inr (.inr (.inl h)))
      have hword : ¬ isWordStart ch = true :=
        fun h => hc (.inr (.inr (.inr (isWordStart_iff.mp h))))
      show splitChar ch x = ((splitChar ch y).1, x)
      simp only [splitChar, hs, ho, if_neg hslash, if_neg hquote, if_neg hdigit, if_neg hword]
      by_cases hb : ch = ' ' ∨ ch = '\r' ∨ ch = '\t'
      · simp only [if_pos hb]
      · by_cases hn : ch = '\n'
        · simp only [if_neg hb, if_pos hn]
        · simp only [if_neg hb, if_neg hn]

end Piece

/-- A closed piece at the front is taken the same way when a blank or a line feed and anything
else follow the text. -/
theorem pieces_cons_append_space {c : CodePoint} {rest : Text} (hp : (split c rest).1.Closed)
    {sp : CodePoint} (hsp : IsSpace sp) (b : Text) :
    pieces (c :: (rest ++ sp :: b)) = (split c rest).1 :: pieces ((split c rest).2 ++ sp :: b) := by
  obtain ⟨p, r, hs, htext, hfits⟩ := split_spec c rest
  rw [hs] at hp ⊢
  -- a piece that starts no token is taken alone; the others end within their text
  have hgap : ¬ StartsToken c → r = rest →
      pieces (c :: (rest ++ sp :: b)) = p :: pieces (r ++ sp :: b) := by
    intro hc hr
    rw [pieces_cons, split_of_not_startsToken_eq hc _ rest, hs, hr]
  cases p with
  | token k l =>
      have hlong := hfits.1.append_space (y := b) hsp
      have hno := not_opensComment_append_space (y := b)
        (List.append_ne_nil_of_left_ne_nil hfits.1.lexeme.ne_nil r) hfits.2 hsp
      rw [List.append_assoc] at hlong hno
      rw [← List.cons_append, htext, List.append_assoc]
      exact pieces_of_longestLexeme hlong hno
  | blank ch =>
      simp only [text, List.singleton_append, List.cons.injEq] at htext
      apply hgap _ htext.2.symm
      rw [htext.1]
      rcases hfits with rfl | rfl | rfl
      · exact not_startsToken_of_isSpace (.inl rfl)
      · exact not_startsToken_of_isSpace (.inr (.inl rfl))
      · exact not_startsToken_of_isSpace (.inr (.inr (.inl rfl)))
  | newline =>
      simp only [text, List.singleton_append, List.cons.injEq] at htext
      apply hgap _ htext.2.symm
      rw [htext.1]
      exact not_startsToken_of_isSpace (.inr (.inr (.inr rfl)))
  | stray c' =>
      simp only [text, List.singleton_append, List.cons.injEq] at htext
      apply hgap _ htext.2.symm
      rw [htext.1]
      exact beginsNoToken_iff.mp hfits.1
  | comment body =>
      rcases hfits with ⟨body, rfl, hb⟩ | ⟨hb, -⟩
      · simp only [text, List.cons_append, List.cons.injEq] at htext
        rw [htext.1, htext.2]
        simp only [List.cons_append, List.append_assoc]
        exact pieces_of_comment hb _
      · -- a comment closed by a line feed holds one
        have hmem : CodePoint.scalar '\n' ∈ body := List.mem_of_getLast? hp
        exact absurd rfl (hb _ hmem)
  | unclosed body => exact hp.elim

/-- Joined by a blank or a line feed to a source whose pieces are all closed, a text is cut into
the pieces of the source, then its own pieces. -/
theorem pieces_append_space {a : Text} (ha : ∀ p ∈ pieces a, p.Closed) {sp : CodePoint}
    (hsp : IsSpace sp) (b : Text) : pieces (a ++ sp :: b) = pieces a ++ pieces (sp :: b) := by
  induction a using pieces.induct with
  | case1 => rw [List.nil_append, pieces_nil, List.nil_append]
  | case2 c rest _ ih =>
      rw [pieces_cons] at ha ⊢
      have hhead : (split c rest).1.Closed := ha _ List.mem_cons_self
      have hrest := ih fun p hp => ha p (List.mem_cons_of_mem _ hp)
      rw [List.cons_append, pieces_cons_append_space hhead hsp, hrest, List.cons_append]

/-! ### The scan of the whole -/

namespace Scan

/-- A string never closed among the pieces is reported. -/
theorem unterminated_of_unclosed_mem {body : Text} (line : Nat) (ps : List Piece)
    (h : unclosed body ∈ ps) : ∃ d ∈ (ofPieces line ps).diagnostics, d.problem = .unterminated := by
  induction ps generalizing line with
  | nil => simp at h
  | cons p ps ih =>
      rcases List.mem_cons.mp h with rfl | h
      · exact ⟨_, List.mem_cons_self, rfl⟩
      · obtain ⟨d, hd, hp⟩ := ih (line + linesOf [p]) h
        refine ⟨d, ?_, hp⟩
        rw [← List.singleton_append, diagnostics_ofPieces_append]
        exact List.mem_append_right _ hd

/-- The piece of a blank or a line feed moves a scan by its line only. -/
theorem ofPieces_space {c : CodePoint} (hc : IsSpace c) (line : Nat) (b : Text) :
    ofPieces line (pieces (c :: b)) =
      ofPieces (line + if c = .scalar '\n' then 1 else 0) (pieces b) := by
  rcases hc with rfl | rfl | rfl | rfl <;> rw [pieces_cons] <;> rfl

end Scan

/-- A source that ends outside any string and any comment has only closed pieces. -/
theorem closed_of_mem_pieces {a : Text}
    (hstr : ∀ d ∈ (scan a).diagnostics, d.problem ≠ .unterminated)
    (hcom : ∀ body, comment body ∈ pieces a → body.getLast? = some (.scalar '\n')) :
    ∀ p ∈ pieces a, p.Closed := by
  intro p hp
  cases p with
  | comment body => exact hcom body hp
  | unclosed body =>
      obtain ⟨d, hd, hu⟩ := Scan.unterminated_of_unclosed_mem 1 _ hp
      exact hstr d hd hu
  | _ => trivial

/-- **Sources joined by a blank or a line feed.** Let `a` end outside any string and any
comment, with its end of input on line `La`. Then the tokens of `a ++ sep :: b` are those of
`a` before its end of input, followed by those of `b` moved down by `La - 1` lines, and one more
if `sep` is a line feed; the problems are those of `a`, followed by those of `b` moved down as
much. -/
theorem scan_append_space {a b : Text} {sep : CodePoint} {La : Nat} (hsep : IsSpace sep)
    (hLa : (scan a).tokens.getLast? = some (Token.eof La))
    (hstr : ∀ d ∈ (scan a).diagnostics, d.problem ≠ .unterminated)
    (hcom : ∀ body, comment body ∈ pieces a → body.getLast? = some (.scalar '\n')) :
    (scan (a ++ sep :: b)).tokens = (scan a).tokens.dropLast ++
        (scan b).tokens.map (fun t => { t with
          line := t.line + (La - 1 + if sep = .scalar '\n' then 1 else 0) }) ∧
      (scan (a ++ sep :: b)).diagnostics = (scan a).diagnostics ++
        (scan b).diagnostics.map (fun d => { d with
          line := d.line + (La - 1 + if sep = .scalar '\n' then 1 else 0) }) := by
  have hpieces := pieces_append_space (closed_of_mem_pieces hstr hcom) hsep b
  have hend : 1 + linesOf (pieces a) = La := by
    rw [scan, Scan.tokens_ofPieces, List.getLast?_concat] at hLa
    exact congrArg Token.line (Option.some.inj hLa)
  have hstart : 1 + linesOf (pieces a) + (if sep = .scalar '\n' then 1 else 0) =
      1 + (La - 1 + if sep = .scalar '\n' then 1 else 0) := by
    omega
  constructor
  · rw [scan, hpieces, Scan.tokens_ofPieces_append, Scan.ofPieces_space hsep, hstart,
      Scan.tokens_ofPieces_add]
    rfl
  · rw [scan, hpieces, Scan.diagnostics_ofPieces_append, Scan.ofPieces_space hsep, hstart,
      Scan.diagnostics_ofPieces_add]
    rfl

/-- Joining the two lines `x // c` and `1.` to `5 @` with a line feed: the line feed that closes
the comment does not count, and `1.` ends before the line feed as it ends at the end of its
source. -/
theorem scan_append_space_after_comment :
    IsSpace (.scalar '\n') ∧
      (scan (Text.ofString "x // c\n1.")).tokens.getLast? = some (Token.eof 1) ∧
      (∀ d ∈ (scan (Text.ofString "x // c\n1.")).diagnostics, d.problem ≠ .unterminated) ∧
      (∀ body, comment body ∈ pieces (Text.ofString "x // c\n1.") →
        body.getLast? = some (.scalar '\n')) ∧
      (scan (Text.ofString "x // c\n1." ++ .scalar '\n' :: Text.ofString "5 @")).tokens =
          (scan (Text.ofString "x // c\n1.")).tokens.dropLast ++
            (scan (Text.ofString "5 @")).tokens.map (fun t => { t with line := t.line + 1 }) ∧
      (scan (Text.ofString "x // c\n1." ++ .scalar '\n' :: Text.ofString "5 @")).diagnostics =
          (scan (Text.ofString "x // c\n1.")).diagnostics ++
            (scan (Text.ofString "5 @")).diagnostics.map
              (fun d => { d with line := d.line + 1 }) := by
  have hsep : IsSpace (.scalar '\n') := .inr (.inr (.inr rfl))
  have hLa : (scan (Text.ofString "x // c\n1.")).tokens.getLast? = some (Token.eof 1) := by
    decide +kernel
  have hstr : ∀ d ∈ (scan (Text.ofString "x // c\n1.")).diagnostics,
      d.problem ≠ .unterminated := by
    decide +kernel
  have hpieces : pieces (Text.ofString "x // c\n1.") =
      [token .identifier (Text.ofString "x"), blank ' ', comment (Text.ofString " c\n"),
        token .number (Text.ofString "1"), token .dot (Text.ofString ".")] := by
    decide +kernel
  have hcom : ∀ body, comment body ∈ pieces (Text.ofString "x // c\n1.") →
      body.getLast? = some (.scalar '\n') := by
    intro body hmem
    simp only [hpieces, List.mem_cons, reduceCtorEq, comment.injEq, List.not_mem_nil,
      false_or, or_false] at hmem
    rw [hmem]
    rfl
  have h := scan_append_space (b := Text.ofString "5 @") hsep hLa hstr hcom
  exact ⟨hsep, hLa, hstr, hcom, by simpa using h⟩

end LoxLexer
