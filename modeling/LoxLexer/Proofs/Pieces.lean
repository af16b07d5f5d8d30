import LoxLexer.Proofs.Step

/-!
# Scans of lists of pieces

`Scan.ofPieces` walks a list of pieces with the current line. This module gives its algebra: the
tokens always end with the end of input, on the line the pieces lead to; the scan of two lists
of pieces, one after the other, is the scan of the first without its end of input followed by
the scan of the second from the line where the first ends; and a scan that starts `k` lines later
has every line moved by `k`. The scan of a source is such a walk over `pieces`, so every fact
about a whole scan is proved here once, over lists of pieces.

## Main definitions

* `Piece.lexeme?`: the kind and the lexeme of a piece that is a token.
* `Piece.linesOf`: how many lines a list of pieces moves a scan forward.

## Main results

* `fits_pieces`: every piece of a source fits what follows it.
* `Scan.tokens_ofPieces`: the tokens end with the end of input.
* `Scan.tokens_ofPieces_append`, `Scan.diagnostics_ofPieces_append`: scanning two lists of
  pieces one after the other.
* `Scan.tokens_ofPieces_add`, `Scan.diagnostics_ofPieces_add`: starting later.
-/

namespace LoxLexer

namespace Piece

/-- The kind and the lexeme of a piece that is a token. -/
def lexeme? : Piece → Option (TokenKind × Text)
  | token k l => some (k, l)
  | _ => none

/-- How many lines a list of pieces moves a scan forward. -/
def linesOf (ps : List Piece) : Nat := (ps.map lines).sum

@[simp] theorem linesOf_nil : linesOf [] = 0 := rfl

@[simp] theorem linesOf_cons (p : Piece) (ps : List Piece) :
    linesOf (p :: ps) = p.lines + linesOf ps := by
  simp [linesOf]

@[simp] theorem linesOf_append (ps qs : List Piece) :
    linesOf (ps ++ qs) = linesOf ps + linesOf qs := by
  simp [linesOf]

end Piece

@[simp] theorem pieces_nil : pieces [] = [] := by
  rw [pieces]

theorem pieces_cons (c : CodePoint) (rest : Text) :
    pieces (c :: rest) = (Piece.split c rest).1 :: pieces (Piece.split c rest).2 := by
  rw [pieces]

/-- The pieces of a source give the source back. -/
theorem flatMap_text_pieces (s : Text) : (pieces s).flatMap Piece.text = s := by
  induction s using pieces.induct with
  | case1 => simp
  | case2 c rest _ ih =>
      rw [pieces_cons, List.flatMap_cons, ih]
      exact (Piece.text_split c rest).symm

/-- Every piece of a source fits what follows it. -/
theorem fits_pieces (s : Text) :
    ∀ {pre post : List Piece} {p : Piece}, pieces s = pre ++ p :: post →
      Piece.Fits p (post.flatMap Piece.text) := by
  induction s using pieces.induct with
  | case1 =>
      intro pre post p h
      simp at h
  | case2 c rest r =>
      -- the hypothesis about the rest comes after the step's own value
      rename_i ih
      intro pre post p h
      rw [pieces_cons] at h
      cases pre with
      | nil =>
          obtain ⟨rfl, rfl⟩ := List.cons.inj h
          rw [flatMap_text_pieces]
          exact Piece.fits_split c rest
      | cons q pre => exact ih (List.cons.inj h).2

namespace Scan

open Piece

variable (line k : Nat) (ps qs : List Piece)

/-- The tokens of a scan end with the end of input, on the line the pieces lead to. -/
theorem tokens_ofPieces :
    (ofPieces line ps).tokens =
      (ofPieces line ps).tokens.dropLast ++ [Token.eof (line + linesOf ps)] := by
  induction ps generalizing line with
  | nil => rfl
  | cons p ps ih =>
      have hrest := ih (line + p.lines)
      rw [Nat.add_assoc] at hrest
      cases p with
      | token kind lexeme =>
          simp only [ofPieces, linesOf_cons]
          rw [List.dropLast_cons_of_ne_nil (by rw [hrest]; simp), List.cons_append, ← hrest]
      | _ => simpa [ofPieces] using hrest

theorem tokens_ofPieces_ne_nil : (ofPieces line ps).tokens ≠ [] := by
  rw [tokens_ofPieces]
  simp

/-- Leaving out the end of input, the tokens of a scan are the token pieces, in order. -/
theorem map_dropLast_tokens_ofPieces :
    (ofPieces line ps).tokens.dropLast.map (fun t => (t.kind, t.lexeme)) =
      ps.filterMap lexeme? := by
  induction ps generalizing line with
  | nil => rfl
  | cons p ps ih =>
      cases p with
      | token kind lexeme =>
          simp only [ofPieces]
          rw [List.dropLast_cons_of_ne_nil (tokens_ofPieces_ne_nil _ _), List.map_cons, ih]
          rfl
      | _ => simpa [ofPieces, lexeme?, List.filterMap_cons] using ih _

/-- Scanning two lists of pieces one after the other: the tokens of the first without its end
of input, then the tokens of the second from the line where the first ends. -/
theorem tokens_ofPieces_append :
    (ofPieces line (ps ++ qs)).tokens =
      (ofPieces line ps).tokens.dropLast ++ (ofPieces (line + linesOf ps) qs).tokens := by
  induction ps generalizing line with
  | nil => rfl
  | cons p ps ih =>
      have hrest := ih (line + p.lines)
      rw [Nat.add_assoc] at hrest
      cases p with
      | token kind lexeme =>
          simp only [ofPieces, List.cons_append, linesOf_cons]
          rw [List.dropLast_cons_of_ne_nil (tokens_ofPieces_ne_nil _ _), hrest]
          rfl
      | _ => simpa [ofPieces] using hrest

/-- The problems found in two lists of pieces are those of the first, then those of the second
from the line where the first ends. -/
theorem diagnostics_ofPieces_append :
    (ofPieces line (ps ++ qs)).diagnostics =
      (ofPieces line ps).diagnostics ++ (ofPieces (line + linesOf ps) qs).diagnostics := by
  induction ps generalizing line with
  | nil => rfl
  | cons p ps ih =>
      have hrest := ih (line + p.lines)
      rw [Nat.add_assoc] at hrest
      cases p <;> simpa [ofPieces] using hrest

/-- A scan that starts `k` lines later puts every token `k` lines later. -/
theorem tokens_ofPieces_add :
    (ofPieces (line + k) ps).tokens =
      (ofPieces line ps).tokens.map fun t => { t with line := t.line + k } := by
  induction ps generalizing line with
  | nil => simp [ofPieces, Token.eof]
  | cons p ps ih =>
      have hrest := ih (line + p.lines)
      rw [show line + p.lines + k = line + k + p.lines by omega] at hrest
      cases p with
      | token kind lexeme =>
          simp only [ofPieces]
          rw [hrest, List.map_cons]
          -- the token itself is on the line where its lexeme ends, moved as much
          congr 1
          simp only [Token.mk.injEq, true_and]
          omega
      | _ => exact hrest

/-- A scan that starts `k` lines later reports every problem `k` lines later. -/
theorem diagnostics_ofPieces_add :
    (ofPieces (line + k) ps).diagnostics =
      (ofPieces line ps).diagnostics.map fun d => { d with line := d.line + k } := by
  induction ps generalizing line with
  | nil => rfl
  | cons p ps ih =>
      have hrest := ih (line + p.lines)
      rw [show line + p.lines + k = line + k + p.lines by omega] at hrest
      cases p with
      | stray c =>
          simp only [ofPieces]
          rw [hrest, List.map_cons]
      | unclosed body =>
          simp only [ofPieces]
          rw [hrest, List.map_cons]
          congr 1
          simp only [Diagnostic.mk.injEq, and_true]
          omega
      | _ => exact hrest

end Scan

end LoxLexer
