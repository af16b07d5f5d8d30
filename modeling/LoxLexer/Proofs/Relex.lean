import LoxLexer.Proofs.Seams

/-!
# Scanning the lexemes again

Join the lexemes of the tokens of a scan with single spaces and scan the result: it reports
nothing, and it gives the same tokens again, each with its kind, its lexeme and its literal, in
order and followed by the end of input. Only the lines may change.

Each lexeme of a scan is the longest lexeme of itself, and it opens no comment (`Piece.Fits`).
A space after it keeps it the longest (`LongestLexeme.append_space`) and opens no comment, so the
scan of the joined text takes each lexeme as it stands, and each space as a blank. The literal of
a token is computed from its kind and its lexeme alone (`literal_of_mem_tokens`), so it comes back
as well.

## Main definitions

* `joinLexemes`: the lexemes of a list of tokens, joined by single spaces.

## Main results

* `pieces_intercalate`: the pieces of lexemes joined by spaces.
* `scan_joinLexemes`: scanning the joined lexemes of a scan gives its tokens back.
-/

namespace LoxLexer

open Grammar Piece

/-- The lexemes of the tokens, joined by single spaces. -/
def joinLexemes (ts : List Token) : Text := List.intercalate [.scalar ' '] (ts.map Token.lexeme)

/-! ### Every token carries the literal of its lexeme -/

namespace Scan

/-- The literal of every token of a scan, the end of input included, is the literal of its kind
and its lexeme. -/
theorem literal_of_mem_tokens {line : Nat} {ps : List Piece} {t : Token}
    (ht : t ∈ (ofPieces line ps).tokens) : t.literal = Literal.ofLexeme t.kind t.lexeme := by
  induction ps generalizing line with
  | nil =>
      simp only [ofPieces, List.mem_singleton] at ht
      rw [ht]
      rfl
  | cons p ps ih =>
      cases p with
      | token k l =>
          simp only [ofPieces, List.mem_cons] at ht
          rcases ht with rfl | ht
          · rfl
          · exact ih ht
      | _ => exact ih ht

/-- Kind, lexeme and literal of the tokens of a scan, from their kinds and lexemes. -/
theorem map_tokens_ofPieces (line : Nat) (ps : List Piece) :
    (ofPieces line ps).tokens.map (fun t => (t.kind, t.lexeme, t.literal)) =
      ((ofPieces line ps).tokens.map fun t => (t.kind, t.lexeme)).map
        fun x => (x.1, x.2, Literal.ofLexeme x.1 x.2) := by
  rw [List.map_map]
  apply List.map_congr_left
  intro t ht
  rw [literal_of_mem_tokens ht]
  rfl

end Scan

/-! ### Lexemes joined by spaces -/

/-- A lexeme that is the longest in one place is the longest lexeme of itself. -/
theorem Grammar.LongestLexeme.self {k : TokenKind} {l x : Text} (h : LongestLexeme k l x) :
    LongestLexeme k l l :=
  ⟨h.lexeme, List.prefix_refl l,
    fun k' l' hl' hpre => h.longest k' l' hl' (hpre.trans h.isPrefix)⟩

/-- What a token of a scan says of its own lexeme: the longest lexeme of itself, and no comment. -/
def StandsAlone (t : TokenKind × Text) : Prop := LongestLexeme t.1 t.2 t.2 ∧ ¬ OpensComment t.2

/-- Every token of a source stands alone. -/
theorem standsAlone_of_mem_filterMap {s : Text} {t : TokenKind × Text}
    (ht : t ∈ (pieces s).filterMap lexeme?) : StandsAlone t := by
  obtain ⟨p, hp, hpt⟩ := List.mem_filterMap.mp ht
  cases p with
  | token k l =>
      cases hpt
      obtain ⟨pre, post, hps⟩ := List.append_of_mem hp
      have hfits := fits_pieces s hps
      exact ⟨hfits.1.self, fun ho => hfits.2 (ho.trans (List.prefix_append _ _))⟩
  | _ => cases hpt

/-- Lexemes that stand alone, joined by spaces, are taken one by one, with a blank between two. -/
theorem pieces_intercalate {ts : List (TokenKind × Text)} (h : ∀ t ∈ ts, StandsAlone t) :
    pieces (List.intercalate [.scalar ' '] (ts.map Prod.snd)) =
      (ts.map fun t => token t.1 t.2).intersperse (blank ' ') := by
  induction ts with
  | nil => simp
  | cons t ts ih =>
      have ht := h t List.mem_cons_self
      have hrest := ih fun u hu => h u (List.mem_cons_of_mem _ hu)
      cases ts with
      | nil =>
          have hlast :=
            pieces_of_longestLexeme (r := []) (by simpa using ht.1) (by simpa using ht.2)
          simpa using hlast
      | cons u us =>
          -- the lexeme `t.2` is followed by a space and the rest of the joined text
          generalize hy : List.intercalate [.scalar ' '] ((u :: us).map Prod.snd) = y at hrest
          have hjoin : List.intercalate [.scalar ' '] ((t :: u :: us).map Prod.snd) =
              t.2 ++ .scalar ' ' :: y := by
            rw [← hy]
            simp
          have hspace : IsSpace (.scalar ' ') := .inl rfl
          have hblank : pieces (.scalar ' ' :: y) = blank ' ' :: pieces y := by
            rw [pieces_cons]
            rfl
          rw [hjoin, pieces_of_longestLexeme (ht.1.append_space hspace)
            (not_opensComment_append_space ht.1.lexeme.ne_nil ht.2 hspace), hblank, hrest]
          rfl

/-- The token pieces of lexemes joined by spaces are the lexemes. -/
theorem filterMap_intersperse (ts : List (TokenKind × Text)) :
    ((ts.map fun t => token t.1 t.2).intersperse (blank ' ')).filterMap lexeme? = ts := by
  induction ts with
  | nil => rfl
  | cons t ts ih =>
      cases ts with
      | nil => rfl
      | cons u us => exact congrArg (t :: ·) ih

/-- Lexemes joined by spaces hold no problem. -/
theorem diagnostics_intersperse (line : Nat) (ts : List (TokenKind × Text)) :
    (Scan.ofPieces line ((ts.map fun t => token t.1 t.2).intersperse (blank ' '))).diagnostics =
      [] := by
  induction ts generalizing line with
  | nil => rfl
  | cons t ts ih =>
      cases ts with
      | nil => rfl
      | cons u us => exact ih _

/-- Scanning lexemes that stand alone, joined by spaces, reports nothing and gives the lexemes
back with their kinds. -/
theorem scan_intercalate {ts : List (TokenKind × Text)} (h : ∀ t ∈ ts, StandsAlone t) :
    (scan (List.intercalate [.scalar ' '] (ts.map Prod.snd))).diagnostics = [] ∧
      (scan (List.intercalate [.scalar ' '] (ts.map Prod.snd))).tokens.map
        (fun t => (t.kind, t.lexeme)) = ts ++ [(.eof, [])] := by
  rw [scan, pieces_intercalate h]
  refine ⟨diagnostics_intersperse 1 ts, ?_⟩
  rw [Scan.tokens_ofPieces, List.map_append, Scan.map_dropLast_tokens_ofPieces,
    filterMap_intersperse]
  rfl

/-- **Scanning the lexemes again.** Join the lexemes of the tokens of a scan by single spaces:
the scan of the result reports nothing, and its tokens have the kinds, the lexemes and the
literals of the tokens of the first scan, in order, followed by the end of input. -/
theorem scan_joinLexemes (s : Text) :
    (scan (joinLexemes (scan s).tokens.dropLast)).diagnostics = [] ∧
      (scan (joinLexemes (scan s).tokens.dropLast)).tokens.map
          (fun t => (t.kind, t.lexeme, t.literal)) =
        (scan s).tokens.dropLast.map (fun t => (t.kind, t.lexeme, t.literal)) ++
          [(.eof, [], .absent)] := by
  have hpairs : (scan s).tokens.dropLast.map (fun t => (t.kind, t.lexeme)) =
      (pieces s).filterMap lexeme? := Scan.map_dropLast_tokens_ofPieces 1 _
  have hjoin : joinLexemes (scan s).tokens.dropLast =
      List.intercalate [.scalar ' '] (((pieces s).filterMap lexeme?).map Prod.snd) := by
    rw [joinLexemes, ← hpairs, List.map_map]
    rfl
  obtain ⟨hdiag, htokens⟩ := scan_intercalate fun _ ht => standsAlone_of_mem_filterMap ht
  refine ⟨hjoin ▸ hdiag, ?_⟩
  have hfirst : (scan s).tokens.dropLast.map (fun t => (t.kind, t.lexeme, t.literal)) =
      ((pieces s).filterMap lexeme?).map fun x => (x.1, x.2, Literal.ofLexeme x.1 x.2) := by
    rw [← hpairs, List.map_map]
    apply List.map_congr_left
    intro t ht
    rw [Scan.literal_of_mem_tokens (List.dropLast_subset _ ht)]
    rfl
  rw [hfirst, hjoin, scan, Scan.map_tokens_ofPieces, ← scan, htokens, List.map_append]
  rfl

end LoxLexer
