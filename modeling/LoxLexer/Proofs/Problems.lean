import LoxLexer.Proofs.Termination

/-!
# The problems a scan reports

A step of the scan reports a problem in two cases only. A code point where a step starts that is
none of the punctuation `( ) { } , . - + ; * / ! = < >`, the quote, a blank, a line feed, an
ASCII digit, an ASCII letter or `_` is unexpected: it is reported on its line, and the next step
starts right after it. A quote where a step starts, with no quote after it, opens a string that
is never closed: it is reported once, on the last line and after every other report, and gives
no token. The code points inside strings and comments start no step, so they are never reported.

## Main definitions

* `isKnown`: the code points a step knows what to do with.
* `stepStarts`: the offsets where the steps of a scan start.
* `reportAt`: what a step that starts at an offset reports, read off the source.
* `EndsInString`: the source ends inside a string.

## Main results

* `Piece.problem?_split`: what one step reports, from the code point it starts with.
* `diagnostics_eq_filterMap_reportAt`: the reports of a scan, step by step.
* `scan_reports_problems`: the reports of a scan, the unexpected code points first.
-/

namespace LoxLexer

open Grammar Piece

/-- A code point that a step of the scan knows what to do with: punctuation, the quote, a blank,
a line feed, an ASCII digit, an ASCII letter or `_`. -/
def isKnown : CodePoint → Bool
  | .scalar c => c ∈ symbolStarts || c == '"' || c == ' ' || c == '\t' || c == '\r' ||
      c == '\n' || c.isDigit || c.isAlpha || c == '_'
  | .surrogate _ => false

/-- The known code points are those that start a token, and the blanks and line feeds. -/
theorem isKnown_iff {c : CodePoint} : isKnown c = true ↔ StartsToken c ∨ IsSpace c := by
  cases c with
  | surrogate _ => simp [isKnown, StartsToken, IsSpace, IsLetter, CodePoint.isDigit]
  | scalar ch =>
      simp only [isKnown, StartsToken, IsSpace, IsLetter, CodePoint.isDigit, Bool.or_eq_true,
        decide_eq_true_eq, beq_iff_eq, CodePoint.scalar.injEq, exists_eq_right']
      tauto

/-- The problem a piece reports: an unexpected code point, or a string never closed. -/
def Piece.problem? : Piece → Option Problem
  | stray c => some (.unexpected c)
  | unclosed _ => some .unterminated
  | _ => none

@[simp] theorem Piece.problem?_eq_unexpected {p : Piece} {c : CodePoint} :
    p.problem? = some (.unexpected c) ↔ p = stray c := by
  cases p <;> simp [problem?]

@[simp] theorem Piece.problem?_eq_unterminated {p : Piece} :
    p.problem? = some .unterminated ↔ ∃ b, p = unclosed b := by
  cases p <;> simp [problem?]

/-- A blank is a piece of its own. -/
theorem Piece.split_blank {b : Char} (hb : b = ' ' ∨ b = '\t' ∨ b = '\r') (rest : Text) :
    split (.scalar b) rest = (blank b, rest) := by
  rcases hb with rfl | rfl | rfl <;> rfl

/-- What one step reports: an unexpected code point if it does not know the code point it starts
with, a string never closed if that is a quote with no quote after it, and nothing otherwise. -/
theorem Piece.problem?_split (c : CodePoint) (rest : Text) :
    (split c rest).1.problem? =
      if isKnown c = false then some (.unexpected c)
      else if c = .scalar '"' ∧ .scalar '"' ∉ rest then some .unterminated else none := by
  obtain ⟨p, r, hs, htext, hfits⟩ := split_spec c rest
  rw [hs]
  cases p with
  | token k l =>
      obtain ⟨hl, -⟩ := hfits
      obtain ⟨c', m, rfl⟩ := List.exists_cons_of_ne_nil hl.lexeme.ne_nil
      simp only [text, List.cons_append, List.cons.injEq] at htext
      obtain ⟨rfl, rfl⟩ := htext
      have hknown : isKnown c = true := isKnown_iff.mpr (.inl hl.lexeme.startsToken_head)
      -- a lexeme that starts with the quote is a string, closed inside what follows
      have hclosed : ¬ (c = .scalar '"' ∧ .scalar '"' ∉ m ++ r) := by
        rintro ⟨rfl, hq⟩
        obtain ⟨-, body, -, rfl⟩ := hl.lexeme.of_quote
        exact hq (by simp)
      rw [if_neg (by simp [hknown]), if_neg hclosed]
      rfl
  | blank b =>
      simp only [text, List.singleton_append, List.cons.injEq] at htext
      obtain ⟨rfl, -⟩ := htext
      rcases hfits with rfl | rfl | rfl <;> rfl
  | newline =>
      simp only [text, List.singleton_append, List.cons.injEq] at htext
      obtain ⟨rfl, -⟩ := htext
      rfl
  | comment body =>
      simp only [text, List.cons_append, List.cons.injEq] at htext
      obtain ⟨rfl, -⟩ := htext
      rfl
  | stray d =>
      simp only [text, List.singleton_append, List.cons.injEq] at htext
      obtain ⟨rfl, rfl⟩ := htext
      obtain ⟨hno, hnl⟩ := hfits
      have hunknown : isKnown c = false := by
        rw [Bool.eq_false_iff, ne_eq, isKnown_iff]
        rintro (hst | hsp)
        · exact beginsNoToken_iff.mp hno hst
        · have hblank : ∀ b, (b = ' ' ∨ b = '\t' ∨ b = '\r') → c ≠ .scalar b := by
            rintro b hb rfl
            rw [split_blank hb] at hs
            cases hs
          rcases hsp with h | h | h | h
          · exact hblank ' ' (.inl rfl) h
          · exact hblank '\t' (.inr (.inl rfl)) h
          · exact hblank '\r' (.inr (.inr rfl)) h
          · exact hnl h
      rw [if_pos hunknown]
      rfl
  | unclosed body =>
      obtain ⟨hq, rfl⟩ := hfits
      simp only [text, List.append_nil, List.cons.injEq] at htext
      obtain ⟨rfl, rfl⟩ := htext
      rw [if_neg (by decide), if_pos ⟨rfl, fun h => hq _ h rfl⟩]
      rfl

/-! ### The step at each offset -/

/-- The offsets where the steps of a scan start. -/
def stepStarts (s : Text) : List Nat := (layout s).map Prod.fst

/-- The problem a step that starts at offset `o` of `s` reports, read off the source. -/
def problemAt (s : Text) (o : Nat) : Option Problem :=
  s[o]?.bind fun c =>
    if isKnown c = false then some (.unexpected c)
    else if c = .scalar '"' ∧ .scalar '"' ∉ s.drop (o + 1) then some .unterminated else none

theorem problemAt_of_getElem? {s : Text} {o : Nat} {c : CodePoint} (hc : s[o]? = some c) :
    problemAt s o =
      if isKnown c = false then some (.unexpected c)
      else if c = .scalar '"' ∧ .scalar '"' ∉ s.drop (o + 1) then some .unterminated else none := by
  rw [problemAt, hc, Option.bind_some]

/-- The pieces of a source from any of its pieces on are the pieces of the text from there. -/
theorem pieces_text_append (s : Text) :
    ∀ {pre post : List Piece} {p : Piece}, pieces s = pre ++ p :: post →
      pieces (p.text ++ post.flatMap text) = p :: post := by
  induction s using pieces.induct with
  | case1 =>
      intro pre post p h
      simp at h
  | case2 c rest r =>
      rename_i ih
      intro pre post p h
      rw [pieces_cons] at h
      cases pre with
      | nil =>
          obtain ⟨rfl, rfl⟩ := List.cons.inj h
          rw [flatMap_text_pieces, ← text_split, pieces_cons]
      | cons q pre => exact ih (List.cons.inj h).2

/-- The piece at offset `o` of a layout is the piece a step takes from the source at `o`. -/
theorem split_of_mem_layout {s : Text} {o : Nat} {p : Piece} (h : (o, p) ∈ layout s) :
    ∃ c, s[o]? = some c ∧ (split c (s.drop (o + 1))).1 = p := by
  obtain ⟨pre, post, hps, hs, rfl⟩ := layout_split h
  have hsuf := pieces_text_append s hps
  obtain ⟨c, m, hcm⟩ : ∃ c m, p.text = c :: m :=
    List.exists_cons_of_ne_nil (text_ne_nil_of_mem_layout h)
  have hdrop : s.drop (pre.flatMap text).length = c :: (m ++ post.flatMap text) := by
    rw [hs, List.drop_left, hcm, List.cons_append]
  refine ⟨c, ?_, ?_⟩
  · rw [← List.head?_drop, hdrop, List.head?_cons]
  · rw [← List.drop_drop, hdrop, List.drop_one, List.tail_cons]
    rw [hcm, List.cons_append, pieces_cons] at hsuf
    exact (List.cons.inj hsuf).1

/-- The problem a placed piece reports is the problem read off the source at its offset. -/
theorem problem?_of_mem_layout {s : Text} {o : Nat} {p : Piece} (h : (o, p) ∈ layout s) :
    p.problem? = problemAt s o := by
  obtain ⟨c, hc, rfl⟩ := split_of_mem_layout h
  rw [problem?_split, problemAt_of_getElem? hc]

/-- The report of a step that starts at offset `o` of `s`: an unexpected code point on the line
where it stands, and a string never closed on the last line. -/
def reportAt (s : Text) (o : Nat) : Option Diagnostic :=
  (problemAt s o).map fun q => ⟨1 + newlinesBefore s (if q = .unterminated then s.length else o), q⟩

/-- **The reports of a scan, step by step.** Each step reports what is read off the source where
it starts. -/
theorem diagnostics_eq_filterMap_reportAt (s : Text) :
    (scan s).diagnostics = (stepStarts s).filterMap (reportAt s) := by
  rw [diagnostics_scan, stepStarts, List.filterMap_map]
  apply List.filterMap_congr
  rintro ⟨o, p⟩ hx
  have hprob := problem?_of_mem_layout hx
  simp only [Function.comp, reportAt, ← hprob]
  cases p with
  | stray c => rfl
  | unclosed body =>
      show some _ = some _
      rw [end_of_unclosed_mem_layout hx]
      rfl
  | token | blank | newline | comment => rfl

/-- The step after a placed piece starts where the piece ends, unless the source ends there. -/
theorem next_of_mem_layout {s : Text} {o : Nat} {p : Piece} (hx : (o, p) ∈ layout s) :
    o + p.text.length ∈ stepStarts s ∨ o + p.text.length = s.length := by
  obtain ⟨pre, post, hps, hs, rfl⟩ := layout_split hx
  cases post with
  | nil =>
      right
      rw [hs, List.flatMap_nil, List.append_nil, List.length_append]
  | cons q post =>
      left
      rw [stepStarts, layout, hps, placeFrom_append]
      exact List.mem_map.mpr ⟨(_, q), List.mem_append_right _ (by simp [placeFrom]), rfl⟩

/-- A code point a step does not know is a piece of its own, and the next step starts right after
it. -/
theorem next_of_unknown {s : Text} {o : Nat} {c : CodePoint} (ho : o ∈ stepStarts s)
    (hc : s[o]? = some c) (hk : isKnown c = false) : o + 1 ∈ stepStarts s ∨ o + 1 = s.length := by
  obtain ⟨⟨o', p⟩, hx, rfl⟩ := List.mem_map.mp ho
  have hprob := problem?_of_mem_layout hx
  rw [problemAt_of_getElem? hc, if_pos hk, problem?_eq_unexpected] at hprob
  subst hprob
  exact next_of_mem_layout hx

/-- A quote where a step starts, with no quote after it, opens a string never closed. -/
theorem unclosed_of_quote {s : Text} {o : Nat} (ho : o ∈ stepStarts s)
    (hq : s[o]? = some (.scalar '"')) (hno : .scalar '"' ∉ s.drop (o + 1)) :
    ∃ b, (o, unclosed b) ∈ layout s := by
  obtain ⟨⟨o', p⟩, hx, rfl⟩ := List.mem_map.mp ho
  have hprob := problem?_of_mem_layout hx
  rw [problemAt_of_getElem? hq, if_neg (by decide), if_pos ⟨rfl, hno⟩,
    problem?_eq_unterminated] at hprob
  obtain ⟨b, rfl⟩ := hprob
  exact ⟨b, hx⟩

/-- A string never closed runs to the end, so every token ends before it starts. -/
theorem tokenEnds_le_of_unclosed {s : Text} {o : Nat} {b : Text} (hx : (o, unclosed b) ∈ layout s) :
    ∀ e ∈ tokenEnds s, e ≤ o := by
  intro e he
  obtain ⟨⟨o', p⟩, hy, hpe⟩ := List.mem_filterMap.mp he
  cases p with
  | token k l =>
      simp only [tokenEnd?, Option.some.injEq] at hpe
      subst hpe
      have hend := end_of_unclosed_mem_layout hx
      have hfit := (slice_of_mem_layout hy).1
      have hlen : 0 < l.length := List.length_pos_of_ne_nil (text_ne_nil_of_mem_layout hy)
      by_contra hlt
      -- otherwise the token and the string would share the code point at `max o o'`
      have hsame := eq_of_mem_placeFrom (c := max o o') hx hy
        ⟨le_max_left _ _, by simp only [text, List.length_cons] at hfit ⊢; omega⟩
        ⟨le_max_right _ _, by simp only [text] at hfit ⊢; omega⟩
      cases hsame
  | blank | newline | comment | stray | unclosed => simp [tokenEnd?] at hpe

/-! ### A string never closed is reported last -/

/-- A source ends inside a string: a quote where a step starts has no quote after it. -/
def EndsInString (s : Text) : Prop :=
  ∃ o ∈ stepStarts s, s[o]? = some (.scalar '"') ∧ .scalar '"' ∉ s.drop (o + 1)

instance : DecidablePred EndsInString := fun s =>
  inferInstanceAs (Decidable (∃ o ∈ stepStarts s, _ ∧ _))

/-- A source ends inside a string exactly when one of its pieces is a string never closed. -/
theorem endsInString_iff {s : Text} : EndsInString s ↔ ∃ o b, (o, unclosed b) ∈ layout s := by
  constructor
  · rintro ⟨o, ho, hq, hno⟩
    obtain ⟨b, hx⟩ := unclosed_of_quote ho hq hno
    exact ⟨o, b, hx⟩
  · rintro ⟨o, b, hx⟩
    obtain ⟨c, hc, -⟩ := split_of_mem_layout hx
    have hprob : some .unterminated = problemAt s o := problem?_of_mem_layout hx
    rw [problemAt_of_getElem? hc] at hprob
    split_ifs at hprob with hk hu
    · cases hprob
    · exact ⟨o, List.mem_map_of_mem hx, by rw [hc, hu.1], hu.2⟩

/-- A string never closed is the last piece of a source: the pieces are pieces that are no such
string, then perhaps one that is. -/
theorem pieces_eq_append_unclosed (s : Text) :
    ∃ qs tail, pieces s = qs ++ tail ∧ (∀ p ∈ qs, ∀ b, p ≠ unclosed b) ∧
      (tail = [] ∨ ∃ b, tail = [unclosed b]) := by
  induction s using pieces.induct with
  | case1 => exact ⟨[], [], by simp, by simp, .inl rfl⟩
  | case2 c rest _ ih =>
      obtain ⟨qs, tail, hps, hqs, htail⟩ := ih
      by_cases hu : ∃ b, (split c rest).1 = unclosed b
      · obtain ⟨b, hb⟩ := hu
        -- a string never closed takes all that is left
        have hr : (split c rest).2 = [] := by
          have hfits := fits_split c rest
          rw [hb] at hfits
          exact hfits.2
        refine ⟨[], [unclosed b], ?_, by simp, .inr ⟨b, rfl⟩⟩
        rw [pieces_cons, hb, hr, pieces_nil]
        rfl
      · refine ⟨(split c rest).1 :: qs, tail, ?_, ?_, htail⟩
        · rw [pieces_cons, List.cons_append]
          exact congrArg _ hps
        · intro p hp b
          rcases List.mem_cons.mp hp with rfl | hp
          · exact fun h => hu ⟨b, h⟩
          · exact hqs p hp b

/-- The report of a step, if it is an unexpected code point. -/
def unexpectedAt (s : Text) (o : Nat) : Option Diagnostic :=
  s[o]?.bind fun c => if isKnown c then none else some ⟨1 + newlinesBefore s o, .unexpected c⟩

/-- A step that takes no string never closed reports an unexpected code point at most. -/
theorem reportAt_of_ne_unclosed {s : Text} {o : Nat} {p : Piece} (hx : (o, p) ∈ layout s)
    (hp : ∀ b, p ≠ unclosed b) : reportAt s o = unexpectedAt s o := by
  obtain ⟨c, hc, -⟩ := split_of_mem_layout hx
  have hprob := problem?_of_mem_layout hx
  rw [problemAt_of_getElem? hc] at hprob
  rw [reportAt, unexpectedAt, problemAt_of_getElem? hc, hc, Option.bind_some]
  cases hk : isKnown c with
  | false => simp
  | true =>
      have hu : ¬ (c = .scalar '"' ∧ .scalar '"' ∉ s.drop (o + 1)) := by
        intro hu
        rw [hk, if_neg (by decide), if_pos hu, problem?_eq_unterminated] at hprob
        obtain ⟨b, rfl⟩ := hprob
        exact hp b rfl
      simp [hu]

/-- The step that takes a string never closed reports it, on the last line, and nothing else. -/
theorem reportAt_of_unclosed {s : Text} {o : Nat} {b : Text} (hx : (o, unclosed b) ∈ layout s) :
    reportAt s o = some ⟨1 + newlinesBefore s s.length, .unterminated⟩ ∧ unexpectedAt s o = none := by
  obtain ⟨c, hc, -⟩ := split_of_mem_layout hx
  have hprob : some .unterminated = problemAt s o := problem?_of_mem_layout hx
  refine ⟨by rw [reportAt, ← hprob]; rfl, ?_⟩
  rw [problemAt_of_getElem? hc] at hprob
  rw [unexpectedAt, hc, Option.bind_some]
  cases hk : isKnown c with
  | false =>
      rw [hk, if_pos rfl] at hprob
      cases hprob
  | true => rfl

/-- The reports of a scan are its unexpected code points, in order, and then, if the source ends
inside a string, that string. -/
theorem filterMap_reportAt (s : Text) :
    (stepStarts s).filterMap (reportAt s) =
      (stepStarts s).filterMap (unexpectedAt s) ++
        if EndsInString s then [⟨1 + newlinesBefore s s.length, .unterminated⟩] else [] := by
  obtain ⟨qs, tail, hps, hqs, htail⟩ := pieces_eq_append_unclosed s
  have hlayout : layout s = placeFrom 0 qs ++ placeFrom (qs.flatMap text).length tail := by
    rw [layout, hps, placeFrom_append, Nat.zero_add]
  have hfront : (placeFrom 0 qs).filterMap (reportAt s ∘ Prod.fst) =
      (placeFrom 0 qs).filterMap (unexpectedAt s ∘ Prod.fst) := by
    apply List.filterMap_congr
    rintro ⟨o, p⟩ hx
    obtain ⟨pre, post, hq, -⟩ := mem_placeFrom hx
    exact reportAt_of_ne_unclosed (hlayout ▸ List.mem_append_left _ hx)
      (hqs p (by rw [hq]; exact List.mem_append_right _ List.mem_cons_self))
  rcases htail with rfl | ⟨b, rfl⟩
  · have hno : ¬ EndsInString s := by
      rw [endsInString_iff]
      rintro ⟨o, b, hx⟩
      rw [hlayout, placeFrom, List.append_nil] at hx
      obtain ⟨pre, post, hq, -⟩ := mem_placeFrom hx
      exact hqs _ (by rw [hq]; exact List.mem_append_right _ List.mem_cons_self) b rfl
    rw [stepStarts, hlayout, placeFrom, List.append_nil, List.filterMap_map, List.filterMap_map,
      hfront, if_neg hno, List.append_nil]
  · have hx : ((qs.flatMap text).length, unclosed b) ∈ layout s := by
      rw [hlayout]
      exact List.mem_append_right _ List.mem_cons_self
    obtain ⟨hrep, hunexp⟩ := reportAt_of_unclosed hx
    rw [stepStarts, hlayout, List.filterMap_map, List.filterMap_map, List.filterMap_append,
      List.filterMap_append, hfront, if_pos (endsInString_iff.mpr ⟨_, b, hx⟩)]
    simp only [placeFrom, List.filterMap_cons, List.filterMap_nil, Function.comp_apply, hrep,
      hunexp, List.append_nil]

/-- **The problems of a scan.** The reports of a scan are, in source order, one
`Unexpected character ' c '.` on its line for each code point `c` where a step starts that the
scan does not know, and then, exactly when the source ends inside a string, one
`Unterminated string.` on the last line. After an unexpected code point the scan goes on with the
next one, and a string never closed gives no token: every token ends before its quote. -/
theorem scan_reports_problems (s : Text) :
    (scan s).diagnostics.map (fun d => (d.line, d.problem.message)) =
        (stepStarts s).filterMap (fun o => s[o]?.bind fun c =>
          if isKnown c then none
          else some (1 + newlinesBefore s o,
            Text.ofString "Unexpected character ' " ++ [c] ++ Text.ofString " '.")) ++
        (if EndsInString s then
          [(1 + newlinesBefore s s.length, Text.ofString "Unterminated string.")] else []) ∧
    (∀ o ∈ stepStarts s, ∀ c, s[o]? = some c → isKnown c = false →
      o + 1 ∈ stepStarts s ∨ o + 1 = s.length) ∧
    (∀ o ∈ stepStarts s, s[o]? = some (.scalar '"') → .scalar '"' ∉ s.drop (o + 1) →
      ∀ e ∈ tokenEnds s, e ≤ o) := by
  refine ⟨?_, fun o ho c hc hk => next_of_unknown ho hc hk, fun o ho hq hno => ?_⟩
  · rw [diagnostics_eq_filterMap_reportAt, filterMap_reportAt, List.map_append,
      List.map_filterMap]
    congr 1
    · apply List.filterMap_congr
      intro o _
      rw [unexpectedAt]
      cases s[o]? with
      | none => rfl
      | some c =>
          rw [Option.bind_some, Option.bind_some]
          split_ifs <;> rfl
    · split_ifs <;> rfl
  · obtain ⟨b, hx⟩ := unclosed_of_quote ho hq hno
    exact tokenEnds_le_of_unclosed hx

/-- In `a@"b`, the `@` is reported and the scan goes on with the quote after it, which opens a
string never closed: the one token before it ends before the quote. -/
theorem scan_reports_problems_stray_then_open :
    (1 ∈ stepStarts (Text.ofString "a@\"b") ∧
      (Text.ofString "a@\"b")[1]? = some (.scalar '@') ∧ isKnown (.scalar '@') = false ∧
      (2 ∈ stepStarts (Text.ofString "a@\"b") ∨ 2 = (Text.ofString "a@\"b").length)) ∧
    (2 ∈ stepStarts (Text.ofString "a@\"b") ∧
      (Text.ofString "a@\"b")[2]? = some (.scalar '"') ∧
      .scalar '"' ∉ (Text.ofString "a@\"b").drop 3 ∧
      ∀ e ∈ tokenEnds (Text.ofString "a@\"b"), e ≤ 2) := by
  have h1 : 1 ∈ stepStarts (Text.ofString "a@\"b") := by decide +kernel
  have h2 : 2 ∈ stepStarts (Text.ofString "a@\"b") := by decide +kernel
  have hat : (Text.ofString "a@\"b")[1]? = some (.scalar '@') := by decide +kernel
  have hq : (Text.ofString "a@\"b")[2]? = some (.scalar '"') := by decide +kernel
  have hno : .scalar '"' ∉ (Text.ofString "a@\"b").drop 3 := by decide +kernel
  have hk : isKnown (.scalar '@') = false := by decide
  exact ⟨⟨h1, hat, hk, (scan_reports_problems _).2.1 1 h1 _ hat hk⟩,
    ⟨h2, hq, hno, (scan_reports_problems _).2.2 2 h2 hq hno⟩⟩

end LoxLexer
