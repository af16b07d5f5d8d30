import Mathlib.Data.List.Forall2
import LoxLexer.Proofs.Pieces

/-!
# Line numbers

A scan counts lines as it goes: a line feed that stands between tokens starts a new line, and so
does a line feed inside a string, closed or not; the line feed that ends a comment does not. So
the line of every report is fixed by the source alone. Let `newlinesBefore s p` count the line
feeds of `s[0:p]`, leaving out those that close a comment. Then a token whose lexeme ends just
before `e` is on line `1 + newlinesBefore s e`, a code point that starts no token at `p` is
reported on line `1 + newlinesBefore s p`, and the end of input and a string never closed are on
line `1 + newlinesBefore s s.length`. Since the count only grows, lines never go back.

The positions come from the layout of the source: its pieces, each placed where its text starts.
The proof walks the layout once, for any count of lines that each placed piece moves by the lines
of the piece (`tokens_ofPieces_walk`), and then shows that `newlinesBefore` is such a count.

## Main definitions

* `layout s`: the pieces of `s`, each with the position where it starts.
* `newlinesBefore s p`: the line feeds before `p` that count.
* `tokenEnds s`, `problemSites s`: where each token ends and where each problem is reported.

## Main results

* `Scan.tokens_ofPieces_walk`: the lines of a scan along any count of lines.
* `newlinesBefore_placed`: across a piece of the layout, the count grows by the piece's lines.
* `scan_lines`: every line of a scan is one more than the count at its place.
-/

namespace LoxLexer

open Grammar Piece

namespace Piece

/-- The pieces of a list, each with the position where its text starts; the first starts at
`o`. -/
def placeFrom : Nat → List Piece → List (Nat × Piece)
  | _, [] => []
  | o, p :: ps => (o, p) :: placeFrom (o + p.text.length) ps

/-- Whether a piece is a comment that a line feed closes. -/
def closesComment : Piece → Bool
  | comment body => body.getLast? == some (.scalar '\n')
  | _ => false

/-- The position just after the lexeme of a placed token. -/
def tokenEnd? : Nat × Piece → Option Nat
  | (o, token _ l) => some (o + l.length)
  | _ => none

/-- Where a placed piece reports a problem: a code point that starts no token where it stands,
and a string never closed where it ends. -/
def problemSite? : Nat × Piece → Option Nat
  | (o, stray _) => some o
  | (o, unclosed body) => some (o + 1 + body.length)
  | _ => none

/-- The position of the line feed that closes a placed comment. -/
def commentEnd? (x : Nat × Piece) : Option Nat :=
  if x.2.closesComment then some (x.1 + x.2.text.length - 1) else none

theorem placeFrom_append (o : Nat) (ps qs : List Piece) :
    placeFrom o (ps ++ qs) = placeFrom o ps ++ placeFrom (o + (ps.flatMap text).length) qs := by
  induction ps generalizing o with
  | nil => rfl
  | cons p ps ih =>
      simp only [List.cons_append, placeFrom, ih, List.flatMap_cons, List.length_append,
        Nat.add_assoc]

/-- A placed piece sits after the pieces before it. -/
theorem mem_placeFrom {o q : Nat} {p : Piece} {ps : List Piece} (h : (q, p) ∈ placeFrom o ps) :
    ∃ pre post, ps = pre ++ p :: post ∧ q = o + (pre.flatMap text).length := by
  induction ps generalizing o with
  | nil => simp [placeFrom] at h
  | cons p' ps ih =>
      rcases List.mem_cons.mp h with he | hm
      · obtain ⟨rfl, rfl⟩ := Prod.mk.inj he
        exact ⟨[], ps, rfl, by simp⟩
      · obtain ⟨pre, post, rfl, rfl⟩ := ih hm
        refine ⟨p' :: pre, post, rfl, ?_⟩
        simp only [List.flatMap_cons, List.length_append]
        omega

/-- Every placed piece lies within the text of the list. -/
theorem bounds_placeFrom {o : Nat} {ps : List Piece} {x : Nat × Piece} (h : x ∈ placeFrom o ps) :
    o ≤ x.1 ∧ x.1 + x.2.text.length ≤ o + (ps.flatMap text).length := by
  obtain ⟨q, p⟩ := x
  obtain ⟨pre, post, rfl, rfl⟩ := mem_placeFrom h
  simp only [List.flatMap_append, List.flatMap_cons, List.length_append]
  omega

/-- The line feed that closes a placed comment lies within the text of the list. -/
theorem bounds_commentEnd {o : Nat} {ps : List Piece} {x : Nat × Piece} {c : Nat}
    (h : x ∈ placeFrom o ps) (hc : commentEnd? x = some c) :
    x.1 ≤ c ∧ c + 1 = x.1 + x.2.text.length ∧ c < o + (ps.flatMap text).length := by
  obtain ⟨hlo, hhi⟩ := bounds_placeFrom h
  unfold commentEnd? at hc
  split at hc
  · next hclose =>
      cases hc
      obtain ⟨q, p⟩ := x
      cases p <;> simp [closesComment] at hclose
      simp only [text, List.length_cons] at hhi ⊢
      omega
  · cases hc

/-- Placed pieces do not overlap: a position lies within one of them at most. -/
theorem eq_of_mem_placeFrom {o c : Nat} {ps : List Piece} {x y : Nat × Piece}
    (hx : x ∈ placeFrom o ps) (hy : y ∈ placeFrom o ps)
    (hcx : x.1 ≤ c ∧ c < x.1 + x.2.text.length) (hcy : y.1 ≤ c ∧ c < y.1 + y.2.text.length) :
    x = y := by
  induction ps generalizing o with
  | nil => simp [placeFrom] at hx
  | cons p ps ih =>
      simp only [placeFrom, List.mem_cons] at hx hy
      rcases hx with rfl | hx <;> rcases hy with rfl | hy
      · rfl
      · have hafter := (bounds_placeFrom hy).1
        dsimp only at hcx hafter
        omega
      · have hafter := (bounds_placeFrom hx).1
        dsimp only at hcy hafter
        omega
      · exact ih hx hy

/-- Counting the positions of a code point counts the code point. -/
theorem length_filter_getElem? (t : Text) (a : CodePoint) :
    ((List.range t.length).filter fun i => t[i]? = some a).length = t.count a := by
  induction t with
  | nil => rfl
  | cons b t ih =>
      rw [List.length_cons, List.range_succ_eq_map, List.filter_cons, List.filter_map,
        List.count_cons]
      by_cases hb : b = a
      · simp [hb, Function.comp_def, ih]
      · simp [hb, Function.comp_def, ih]

/-- Across a piece that fits, the line feeds that do not close it as a comment are as many as
the lines it moves a scan. -/
theorem length_filter_newlines {x : Nat × Piece} {r : Text} (hfit : Fits x.2 r) :
    ((List.range x.2.text.length).filter fun i =>
      x.2.text[i]? = some (.scalar '\n') ∧ commentEnd? x ≠ some (x.1 + i)).length = x.2.lines := by
  obtain ⟨o, p⟩ := x
  cases p with
  | comment body =>
      -- no line feed counts: the only one there can be closes the comment
      simp only [lines, List.length_eq_zero_iff, List.filter_eq_nil_iff, List.mem_range,
        decide_eq_true_eq, not_and, ne_eq, Decidable.not_not]
      intro i hi hnl
      rcases hfit with ⟨b, rfl, hb⟩ | ⟨hb, -⟩
      · have hlen : (comment (b ++ [.scalar '\n'])).text.length = b.length + 3 := by
          simp [text]
        by_cases hfront : i < b.length + 2
        · have htext : (comment (b ++ [.scalar '\n'])).text =
              (.scalar '/' :: .scalar '/' :: b) ++ [.scalar '\n'] := rfl
          rw [htext, List.getElem?_append_left (by simp only [List.length_cons]; omega)] at hnl
          have hmem : CodePoint.scalar '\n' ∈ b := by simpa using List.mem_of_getElem? hnl
          exact absurd rfl (hb _ hmem)
        · have hlast : i = b.length + 2 := by omega
          simp [commentEnd?, closesComment, hlen, hlast]
      · have hmem : CodePoint.scalar '\n' ∈ body := by simpa [text] using List.mem_of_getElem? hnl
        exact absurd rfl (hb _ hmem)
  | token k l =>
      simp only [commentEnd?, closesComment, text, lines]
      simpa using length_filter_getElem? l _
  | blank b =>
      rcases hfit with rfl | rfl | rfl <;> rfl
  | newline => rfl
  | stray c =>
      simp only [commentEnd?, closesComment, text, lines]
      simpa [List.count_singleton] using hfit.2
  | unclosed body =>
      simp only [commentEnd?, closesComment, text, lines]
      simpa [List.count_cons] using length_filter_getElem? (.scalar '"' :: body) (.scalar '\n')

end Piece

/-! ### Walking the layout -/

namespace Piece

/-- `f` counts lines along the pieces placed from `o`: across each piece, it grows by the lines
of the piece. -/
def CountsLines (f : Nat → Nat) (o : Nat) (ps : List Piece) : Prop :=
  ∀ x ∈ placeFrom o ps, f (x.1 + x.2.text.length) = f x.1 + x.2.lines

theorem countsLines_cons {f : Nat → Nat} {o : Nat} {p : Piece} {ps : List Piece} :
    CountsLines f o (p :: ps) ↔
      f (o + p.text.length) = f o + p.lines ∧ CountsLines f (o + p.text.length) ps := by
  simp [CountsLines, placeFrom]

end Piece

namespace Scan

section Walk

variable (f : Nat → Nat)

/-- **The walk.** Along any count of lines `f` that each placed piece moves by the lines of the
piece, a scan started on line `1 + f o` puts each token on line `1 + f e`, where `e` is the end
of its lexeme. -/
theorem tokens_ofPieces_walk (ps : List Piece) (o : Nat)
    (hf : CountsLines f o ps) :
    (ofPieces (1 + f o) ps).tokens.dropLast =
      (placeFrom o ps).filterMap fun x => match x.2 with
        | token k l => some ⟨k, l, Literal.ofLexeme k l, 1 + f (x.1 + l.length)⟩
        | _ => none := by
  induction ps generalizing o with
  | nil => rfl
  | cons p ps ih =>
      obtain ⟨hp, htail⟩ := countsLines_cons.mp hf
      have hrest := ih (o + p.text.length) htail
      rw [hp, ← Nat.add_assoc] at hrest
      cases p with
      | token k l =>
          simp only [ofPieces, placeFrom, List.filterMap_cons]
          rw [List.dropLast_cons_of_ne_nil (tokens_ofPieces_ne_nil _ _), hrest]
          simp only [text] at hp ⊢
          rw [hp, Nat.add_assoc]
      | _ => simpa [ofPieces, placeFrom, List.filterMap_cons] using hrest

/-- Along the same count, each problem is reported on line `1 + f p`, where `p` is its site. -/
theorem diagnostics_ofPieces_walk (ps : List Piece) (o : Nat)
    (hf : CountsLines f o ps) :
    (ofPieces (1 + f o) ps).diagnostics =
      (placeFrom o ps).filterMap fun x => match x.2 with
        | stray c => some ⟨1 + f x.1, .unexpected c⟩
        | unclosed body => some ⟨1 + f (x.1 + 1 + body.length), .unterminated⟩
        | _ => none := by
  induction ps generalizing o with
  | nil => rfl
  | cons p ps ih =>
      obtain ⟨hp, htail⟩ := countsLines_cons.mp hf
      have hrest := ih (o + p.text.length) htail
      rw [hp, ← Nat.add_assoc] at hrest
      cases p with
      | unclosed body =>
          have hend : o + 1 + body.length = o + (unclosed body).text.length := by
            simp only [text, List.length_cons]
            omega
          simp only [ofPieces, placeFrom, List.filterMap_cons, hrest]
          rw [hend, hp, Nat.add_assoc]
      | _ => simpa [ofPieces, placeFrom, List.filterMap_cons] using hrest

/-- Along the same count, the end of input is on line `1 + f` at the end of the pieces. -/
theorem eof_ofPieces_walk (ps : List Piece) (o : Nat)
    (hf : CountsLines f o ps) :
    1 + f o + linesOf ps = 1 + f (o + (ps.flatMap text).length) := by
  induction ps generalizing o with
  | nil => simp
  | cons p ps ih =>
      obtain ⟨hp, htail⟩ := countsLines_cons.mp hf
      have hrest := ih (o + p.text.length) htail
      simp only [linesOf_cons, List.flatMap_cons, List.length_append]
      rw [← Nat.add_assoc, ← Nat.add_assoc o, ← hrest, hp]
      omega

end Walk

/-! ### Lines only grow -/

variable (line : Nat) (ps : List Piece)

theorem le_line_of_mem_tokens {t : Token} (ht : t ∈ (ofPieces line ps).tokens) : line ≤ t.line := by
  induction ps generalizing line with
  | nil =>
      simp only [ofPieces, List.mem_singleton] at ht
      rw [ht]
      exact Nat.le_refl _
  | cons p ps ih =>
      cases p with
      | token k l =>
          simp only [ofPieces, List.mem_cons] at ht
          rcases ht with rfl | ht
          · exact Nat.le_add_right _ _
          · exact Nat.le_of_add_right_le (ih _ ht)
      | _ => exact Nat.le_of_add_right_le (ih _ ht)

/-- The tokens of a scan come in order of their lines. -/
theorem pairwise_tokens : (ofPieces line ps).tokens.Pairwise (fun t u => t.line ≤ u.line) := by
  induction ps generalizing line with
  | nil => simp [ofPieces]
  | cons p ps ih =>
      cases p with
      | token k l =>
          refine List.pairwise_cons.mpr ⟨fun u hu => ?_, ih _⟩
          exact le_line_of_mem_tokens _ _ hu
      | _ => exact ih _

theorem le_line_of_mem_diagnostics {d : Diagnostic} (hd : d ∈ (ofPieces line ps).diagnostics) :
    line ≤ d.line := by
  induction ps generalizing line with
  | nil => simp [ofPieces] at hd
  | cons p ps ih =>
      cases p with
      | stray c =>
          simp only [ofPieces, List.mem_cons] at hd
          rcases hd with rfl | hd
          · exact Nat.le_refl _
          · exact Nat.le_of_add_right_le (ih _ hd)
      | unclosed body =>
          simp only [ofPieces, List.mem_cons] at hd
          rcases hd with rfl | hd
          · exact Nat.le_add_right _ _
          · exact Nat.le_of_add_right_le (ih _ hd)
      | _ => exact Nat.le_of_add_right_le (ih _ hd)

/-- The problems of a scan come in order of their lines. -/
theorem pairwise_diagnostics :
    (ofPieces line ps).diagnostics.Pairwise (fun d e => d.line ≤ e.line) := by
  induction ps generalizing line with
  | nil => simp [ofPieces]
  | cons p ps ih =>
      cases p with
      | stray c =>
          refine List.pairwise_cons.mpr ⟨fun e he => ?_, ih _⟩
          exact Nat.le_of_add_right_le (le_line_of_mem_diagnostics _ _ he)
      | unclosed body =>
          refine List.pairwise_cons.mpr ⟨fun e he => ?_, ih _⟩
          exact le_line_of_mem_diagnostics _ _ he
      | _ => exact ih _

end Scan

/-! ### The layout of a source -/

/-- The pieces of a source, each with the position where it starts. -/
def layout (s : Text) : List (Nat × Piece) := placeFrom 0 (pieces s)

/-- Where the lexemes of the tokens of a source end. -/
def tokenEnds (s : Text) : List Nat := (layout s).filterMap tokenEnd?

/-- Where the problems of a source are reported. -/
def problemSites (s : Text) : List Nat := (layout s).filterMap problemSite?

/-- The positions of the line feeds that close a comment. -/
def commentEnds (s : Text) : List Nat := (layout s).filterMap commentEnd?

/-- The line feeds of `s` before position `p` that start a new line: all but those that close a
comment. -/
def newlinesBefore (s : Text) (p : Nat) : Nat :=
  ((List.range p).filter fun q => s[q]? = some (.scalar '\n') ∧ q ∉ commentEnds s).length

/-- Where a problem is reported in a source: a code point that starts no token where it stands,
and a string never closed at the end of the source. -/
def Problem.SitsAt (s : Text) : Problem → Nat → Prop
  | .unexpected c, p => s[p]? = some c
  | .unterminated, p => p = s.length

/-- A placed piece stands in its source at its position, between the pieces before and after
it. -/
theorem layout_split {s : Text} {o : Nat} {p : Piece} (h : (o, p) ∈ layout s) :
    ∃ pre post, pieces s = pre ++ p :: post ∧
      s = pre.flatMap text ++ (p.text ++ post.flatMap text) ∧ o = (pre.flatMap text).length := by
  obtain ⟨pre, post, hps, rfl⟩ := mem_placeFrom h
  refine ⟨pre, post, hps, ?_, Nat.zero_add _⟩
  calc s = (pieces s).flatMap text := (flatMap_text_pieces s).symm
    _ = pre.flatMap text ++ (p.text ++ post.flatMap text) := by
        rw [hps, List.flatMap_append, List.flatMap_cons]

theorem getElem?_of_mem_layout {s : Text} {o i : Nat} {p : Piece} (h : (o, p) ∈ layout s)
    (hi : i < p.text.length) : s[o + i]? = p.text[i]? := by
  obtain ⟨pre, post, -, hs, rfl⟩ := layout_split h
  rw [hs, List.getElem?_append_right (Nat.le_add_right _ _), Nat.add_sub_cancel_left,
    List.getElem?_append_left hi]

theorem take_of_mem_layout {s : Text} {o : Nat} {p : Piece} (h : (o, p) ∈ layout s) :
    s.take (o + p.text.length) = s.take o ++ p.text := by
  obtain ⟨pre, post, -, hs, rfl⟩ := layout_split h
  rw [hs, List.take_length_add_append, List.take_left, List.take_left]

/-- A string never closed runs to the end of its source. -/
theorem end_of_unclosed_mem_layout {s : Text} {o : Nat} {body : Text}
    (h : (o, unclosed body) ∈ layout s) : o + 1 + body.length = s.length := by
  obtain ⟨pre, post, hps, hs, rfl⟩ := layout_split h
  have hrest : post.flatMap text = [] := (fits_pieces s hps).2
  rw [hs, hrest]
  simp only [text, List.append_nil, List.length_append, List.length_cons]
  omega

/-- Within a placed piece, a line feed closes a comment only if it closes that piece. -/
theorem mem_commentEnds {s : Text} {x : Nat × Piece} {i : Nat} (hx : x ∈ layout s)
    (hi : i < x.2.text.length) : x.1 + i ∈ commentEnds s ↔ commentEnd? x = some (x.1 + i) := by
  constructor
  · intro h
    obtain ⟨y, hy, hc⟩ := List.mem_filterMap.mp h
    have hb := bounds_commentEnd hy hc
    have hyx : y = x := eq_of_mem_placeFrom hy hx ⟨hb.1, by omega⟩ ⟨Nat.le_add_right _ _, by omega⟩
    subst hyx
    exact hc
  · intro h
    exact List.mem_filterMap.mpr ⟨x, hx, h⟩

/-! ### Counting lines -/

section Count

variable (s : Text)

@[simp] theorem newlinesBefore_zero : newlinesBefore s 0 = 0 := rfl

/-- The count only grows. -/
theorem newlinesBefore_mono {p q : Nat} (h : p ≤ q) : newlinesBefore s p ≤ newlinesBefore s q :=
  ((List.range_sublist.mpr h).filter _).length_le

theorem newlinesBefore_add (a n : Nat) :
    newlinesBefore s (a + n) = newlinesBefore s a +
      ((List.range n).filter fun i =>
        s[a + i]? = some (.scalar '\n') ∧ a + i ∉ commentEnds s).length := by
  simp only [newlinesBefore, List.range_add, List.filter_append, List.filter_map,
    List.length_append, List.length_map]
  rfl

variable {s}

/-- Across a piece of the layout, the count grows by the lines of the piece. -/
theorem newlinesBefore_placed {x : Nat × Piece} (hx : x ∈ layout s) :
    newlinesBefore s (x.1 + x.2.text.length) = newlinesBefore s x.1 + x.2.lines := by
  obtain ⟨o, p⟩ := x
  obtain ⟨pre, post, hps, -, -⟩ := layout_split hx
  rw [newlinesBefore_add, ← length_filter_newlines (fits_pieces s hps)]
  congr 1
  refine congrArg List.length (List.filter_congr fun i hi => ?_)
  have hi' : i < p.text.length := List.mem_range.mp hi
  simp only [getElem?_of_mem_layout hx hi', mem_commentEnds hx hi', ne_eq]

/-- So the count of line feeds counts lines along the layout, and the walk applies to it. -/
theorem countsLines_newlinesBefore : CountsLines (newlinesBefore s) 0 (pieces s) :=
  fun _ hx => newlinesBefore_placed hx

end Count

/-! ### Every line of a scan -/

/-- Two lists picked out of one list, entry by entry, are related entry by entry. -/
theorem forall₂_filterMap {α β γ : Type} {R : β → γ → Prop} {f : α → Option β}
    {g : α → Option γ} {xs : List α} (h : ∀ x ∈ xs, Option.Rel R (f x) (g x)) :
    List.Forall₂ R (xs.filterMap f) (xs.filterMap g) := by
  induction xs with
  | nil => exact .nil
  | cons x xs ih =>
      have hrest := ih fun y hy => h y (List.mem_cons_of_mem x hy)
      have hx := h x List.mem_cons_self
      rw [List.filterMap_cons, List.filterMap_cons]
      generalize f x = a, g x = b at hx ⊢
      cases hx with
      | some hab => exact .cons hab hrest
      | none => exact hrest

variable (s : Text)

theorem tokens_scan :
    (scan s).tokens.dropLast = (layout s).filterMap fun x => match x.2 with
      | token k l => some ⟨k, l, Literal.ofLexeme k l, 1 + newlinesBefore s (x.1 + l.length)⟩
      | _ => none := by
  have h := Scan.tokens_ofPieces_walk (newlinesBefore s) (pieces s) 0
    countsLines_newlinesBefore
  rwa [newlinesBefore_zero, Nat.add_zero] at h

theorem diagnostics_scan :
    (scan s).diagnostics = (layout s).filterMap fun x => match x.2 with
      | stray c => some ⟨1 + newlinesBefore s x.1, .unexpected c⟩
      | unclosed body => some ⟨1 + newlinesBefore s (x.1 + 1 + body.length), .unterminated⟩
      | _ => none := by
  have h := Scan.diagnostics_ofPieces_walk (newlinesBefore s) (pieces s) 0
    countsLines_newlinesBefore
  rwa [newlinesBefore_zero, Nat.add_zero] at h

/-- Each token is on the line after the line feeds that count before the end of its lexeme. -/
theorem forall₂_tokens_scan :
    List.Forall₂ (fun t e => t.lexeme <:+ s.take e ∧ t.line = 1 + newlinesBefore s e)
      (scan s).tokens.dropLast (tokenEnds s) := by
  rw [tokens_scan, tokenEnds]
  apply forall₂_filterMap
  rintro ⟨o, p⟩ hx
  cases p with
  | token k l =>
      have htake : s.take (o + l.length) = s.take o ++ l := take_of_mem_layout hx
      refine .some ⟨?_, rfl⟩
      show l <:+ s.take (o + l.length)
      rw [htake]
      exact List.suffix_append _ _
  | _ => exact .none

/-- Each problem is reported on the line after the line feeds that count before its site. -/
theorem forall₂_diagnostics_scan :
    List.Forall₂ (fun d p => d.problem.SitsAt s p ∧ d.line = 1 + newlinesBefore s p)
      (scan s).diagnostics (problemSites s) := by
  rw [diagnostics_scan, problemSites]
  apply forall₂_filterMap
  rintro ⟨o, p⟩ hx
  cases p with
  | stray c =>
      have hat : s[o + 0]? = some c := getElem?_of_mem_layout hx (Nat.zero_lt_succ _)
      exact .some ⟨hat, rfl⟩
  | unclosed body => exact .some ⟨end_of_unclosed_mem_layout hx, rfl⟩
  | _ => exact .none

/-- The end of input is on the line after all the line feeds that count. -/
theorem getLast?_tokens_scan :
    (scan s).tokens.getLast? = some (Token.eof (1 + newlinesBefore s s.length)) := by
  have h := Scan.eof_ofPieces_walk (newlinesBefore s) (pieces s) 0
    countsLines_newlinesBefore
  rw [newlinesBefore_zero, Nat.add_zero, Nat.zero_add, flatMap_text_pieces] at h
  rw [scan, Scan.tokens_ofPieces, List.getLast?_concat, h]

/-- **Line numbers.** Let `newlinesBefore s p` count the line feeds before position `p` of `s`
that do not close a comment. Every token is on line `1 + newlinesBefore s e`, where its lexeme
ends before `e`; every code point that starts no token is reported on line
`1 + newlinesBefore s p`, where it stands at `p`; the end of input, and a string never closed, are
on line `1 + newlinesBefore s s.length`. As the count only grows, so do the lines of the tokens
and of the problems. -/
theorem scan_line_numbers :
    List.Forall₂ (fun t e => t.lexeme <:+ s.take e ∧ t.line = 1 + newlinesBefore s e)
        (scan s).tokens.dropLast (tokenEnds s) ∧
      List.Forall₂ (fun d p => d.problem.SitsAt s p ∧ d.line = 1 + newlinesBefore s p)
        (scan s).diagnostics (problemSites s) ∧
      (scan s).tokens.getLast? = some (Token.eof (1 + newlinesBefore s s.length)) ∧
      (∀ p q, p ≤ q → newlinesBefore s p ≤ newlinesBefore s q) ∧
      (scan s).tokens.Pairwise (fun t u => t.line ≤ u.line) ∧
      (scan s).diagnostics.Pairwise (fun d e => d.line ≤ e.line) :=
  ⟨forall₂_tokens_scan s, forall₂_diagnostics_scan s, getLast?_tokens_scan s,
    fun _ _ => newlinesBefore_mono s, Scan.pairwise_tokens _ _, Scan.pairwise_diagnostics _ _⟩

example : newlinesBefore (Text.ofString "a\n// c\nb") 8 = 1 := by decide +kernel

end LoxLexer
