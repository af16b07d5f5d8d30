import LoxLexer.Session.Command
import LoxLexer.Proofs.LineNumbers

/-!
# The prompt

The prompt reads its input a line at a time and runs each line as a source of its own. The lines
it reads are the pieces of the input between line feeds, where a last piece counts only when it is
not empty (`promptLines`): no line holds a line feed, and the lines, each followed by a line feed,
give back the input, with a line feed added at its end when it has none (`promptLines_iff`).

The loop reads, runs and clears its record of problems one line at a time; what it prints comes
to a closed form (`Prompt.loop_eq`): `> ` and the output of each line, then `> ` and a line feed.
Reading a line and then the rest of the input prints what the line prints and then what the rest
prints (`promptTranscript_line`), so no line depends on the lines before it; and as a line holds
no line feed, every line number the prompt prints is 1.

## Main definitions

* `promptLines`: the lines of an input, cut at its line feeds.
* `promptTranscript`: the text of the prompt, in closed form.
* `closeLastLine`: the input with its last line closed by a line feed.

## Main results

* `promptLines_line`, `promptLines_last`: reading one line.
* `promptLines_iff`: the lines the prompt reads, described without the reader.
* `Prompt.loop_eq`, `Outcome.ofPrompt_eq`: the prompt loop in closed form.
* `scan_lines_eq_one`: a text without line feeds is scanned on line 1.
* `prompt_session`: what the prompt prints, and how it ends.
-/

namespace LoxLexer

/-! ### Fields between separators -/

section Fields

variable {α : Type} [DecidableEq α] {sep : α}

theorem fields_of_not_mem {l : List α} (hl : sep ∉ l) : fields sep l = [l] := by
  induction l with
  | nil => rfl
  | cons c l ih =>
      have hc : c ≠ sep := fun h => hl (h ▸ List.mem_cons_self)
      rw [fields, if_neg hc, ih fun h => hl (List.mem_cons_of_mem c h)]
      rfl

theorem fields_append_cons {l : List α} (hl : sep ∉ l) (rest : List α) :
    fields sep (l ++ sep :: rest) = l :: fields sep rest := by
  induction l with
  | nil => rw [List.nil_append, fields, if_pos rfl]
  | cons c l ih =>
      have hc : c ≠ sep := fun h => hl (h ▸ List.mem_cons_self)
      rw [List.cons_append, fields, if_neg hc, ih fun h => hl (List.mem_cons_of_mem c h)]
      rfl

end Fields

/-! ### The lines of the input -/

/-- The lines of an input: the pieces between line feeds, where a last piece counts only when it
is not empty. -/
def promptLines (input : Text) : List Text :=
  let pieces := fields (.scalar '\n') input
  if pieces.getLast? = some [] then pieces.dropLast else pieces

/-- What the prompt prints for its input, in closed form: `> ` and the output of each line, then
`> ` and a line feed. -/
def promptTranscript (input : Text) : Text :=
  (promptLines input).flatMap (fun line => promptMark ++ (Run.ofSource line).output) ++
    promptMark ++ lineFeed

example : promptLines (Text.ofString "") = [] ∧
    promptLines (Text.ofString "a\n") = [Text.ofString "a"] ∧
    promptLines (Text.ofString "a\nb") = [Text.ofString "a", Text.ofString "b"] ∧
    promptLines (Text.ofString "\n") = [[]] := by
  decide +kernel

@[simp] theorem promptLines_nil : promptLines [] = [] := rfl

/-- A last line without a line feed is read when it is not empty. -/
theorem promptLines_last {l : Text} (hl : .scalar '\n' ∉ l) (hne : l ≠ []) :
    promptLines l = [l] := by
  rw [promptLines, fields_of_not_mem hl]
  simp [hne]

/-- Reading one line: the text up to the first line feed, then the lines of what follows it. -/
theorem promptLines_line {l : Text} (hl : .scalar '\n' ∉ l) (rest : Text) :
    promptLines (l ++ .scalar '\n' :: rest) = l :: promptLines rest := by
  obtain ⟨f, fs, hf⟩ := fields_eq_cons (.scalar '\n') rest
  rw [promptLines, promptLines, fields_append_cons hl, hf]
  simp only [List.getLast?_cons_cons, List.dropLast_cons_cons]
  split_ifs <;> rfl

/-- A text that holds a line feed is a line without one, the line feed, and the rest. -/
theorem exists_first_lineFeed {u : Text} (h : .scalar '\n' ∈ u) :
    ∃ l rest, u = l ++ .scalar '\n' :: rest ∧ .scalar '\n' ∉ l := by
  have hsplit := List.takeWhile_append_dropWhile (p := fun c => c != .scalar '\n') (l := u)
  cases hd : u.dropWhile (fun c => c != .scalar '\n') with
  | nil =>
      have hall := Piece.all_of_dropWhile_eq_nil hd _ h
      simp at hall
  | cons y t =>
      have hy : y = .scalar '\n' := by simpa using Piece.dropWhile_head hd
      refine ⟨u.takeWhile (fun c => c != .scalar '\n'), t, ?_, fun hm => ?_⟩
      · rw [hd, hy] at hsplit
        exact hsplit.symm
      · simpa using Piece.mem_takeWhile_imp hm

/-- The input with its last line closed: a line feed is added at the end of an input that is not
empty and does not end with one. -/
def closeLastLine (u : Text) : Text :=
  if u = [] ∨ u.getLast? = some (.scalar '\n') then u else u ++ lineFeed

theorem closeLastLine_line (l rest : Text) :
    closeLastLine (l ++ .scalar '\n' :: rest) = l ++ .scalar '\n' :: closeLastLine rest := by
  by_cases hr : rest = []
  · subst hr
    simp [closeLastLine]
  · have hlast : (l ++ .scalar '\n' :: rest).getLast? = rest.getLast? := by
      rw [List.getLast?_append_of_ne_nil _ (List.cons_ne_nil _ _),
        List.getLast?_cons, List.getLast?_eq_some_getLast hr, Option.getD_some]
    unfold closeLastLine
    rw [hlast]
    split_ifs <;> simp_all [lineFeed]

/-- Lines without line feeds are read back from the text they make, each followed by a line
feed. -/
theorem eq_of_flatMap_append_lineFeed {ls ls' : List Text} (h : ∀ l ∈ ls, .scalar '\n' ∉ l)
    (h' : ∀ l ∈ ls', .scalar '\n' ∉ l)
    (heq : ls.flatMap (· ++ lineFeed) = ls'.flatMap (· ++ lineFeed)) : ls = ls' := by
  induction ls generalizing ls' with
  | nil =>
      cases ls' with
      | nil => rfl
      | cons l' ls' => simp [lineFeed] at heq
  | cons l ls ih =>
      cases ls' with
      | nil => simp [lineFeed] at heq
      | cons l' ls' =>
          simp only [List.flatMap_cons, lineFeed, List.append_assoc, List.singleton_append]
            at heq
          obtain ⟨rfl, hrest⟩ :=
            Piece.eq_of_append_cons_eq heq (h l List.mem_cons_self) (h' l' List.mem_cons_self)
          rw [ih (fun x hx => h x (List.mem_cons_of_mem _ hx))
            (fun x hx => h' x (List.mem_cons_of_mem _ hx)) hrest]

/-- The lines the prompt reads hold no line feed, and each followed by a line feed they give back
the input with its last line closed. -/
theorem promptLines_spec (u : Text) :
    (∀ l ∈ promptLines u, .scalar '\n' ∉ l) ∧
      (promptLines u).flatMap (· ++ lineFeed) = closeLastLine u := by
  -- by induction on the length: each step reads the input up to its first line feed
  induction hn : u.length using Nat.strongRecOn generalizing u with
  | _ n ih =>
    by_cases hmem : .scalar '\n' ∈ u
    · obtain ⟨l, rest, rfl, hl⟩ := exists_first_lineFeed hmem
      have hlen : rest.length < n := by
        rw [← hn, List.length_append, List.length_cons]
        omega
      obtain ⟨hno, hjoin⟩ := ih rest.length hlen rest rfl
      rw [promptLines_line hl, closeLastLine_line, List.flatMap_cons, hjoin]
      refine ⟨fun x hx => ?_, by simp [lineFeed]⟩
      rcases List.mem_cons.mp hx with rfl | hx
      · exact hl
      · exact hno x hx
    · by_cases hne : u = []
      · subst hne
        simp [closeLastLine]
      · have hend : u.getLast? ≠ some (.scalar '\n') := fun h => hmem (List.mem_of_getLast? h)
        rw [promptLines_last hmem hne]
        simp [closeLastLine, hne, hend, hmem]

/-- **The lines of the prompt.** The lines the prompt reads are the only list of texts without
line feeds that, each followed by a line feed, give back the input with its last line closed. -/
theorem promptLines_iff (u : Text) (ls : List Text) :
    ((∀ l ∈ ls, .scalar '\n' ∉ l) ∧ ls.flatMap (· ++ lineFeed) = closeLastLine u) ↔
      ls = promptLines u := by
  obtain ⟨hno, hjoin⟩ := promptLines_spec u
  constructor
  · rintro ⟨hls, hjoin'⟩
    exact eq_of_flatMap_append_lineFeed hls hno (hjoin'.trans hjoin.symm)
  · rintro rfl
    exact ⟨hno, hjoin⟩

/-! ### The prompt loop -/

theorem readLine_eq_none {u : Text} : readLine u = none ↔ u = [] := by
  cases u with
  | nil => simp [readLine]
  | cons c more =>
      simp only [readLine, reduceCtorEq, iff_false]
      split
      · simp
      · split <;> simp

/-- A line read holds no line feed, and it ends at the first line feed of the input or, when there
is none, at the end of the input. -/
theorem readLine_spec {u l rest : Text} (h : readLine u = some (l, rest)) :
    .scalar '\n' ∉ l ∧ (u = l ++ .scalar '\n' :: rest ∨ u = l ∧ l ≠ [] ∧ rest = []) := by
  induction u generalizing l rest with
  | nil => cases h
  | cons c more ih =>
      simp only [readLine] at h
      split at h
      · rename_i hc
        cases h
        exact ⟨List.not_mem_nil, .inl (by simp [hc])⟩
      · rename_i hc
        split at h
        · rename_i line more' hr
          cases h
          obtain ⟨hl, hu⟩ := ih hr
          refine ⟨fun hm => ?_, ?_⟩
          · rcases List.mem_cons.mp hm with he | hm
            · exact hc he.symm
            · exact hl hm
          · rcases hu with rfl | ⟨rfl, -, rfl⟩
            · exact .inl rfl
            · exact .inr ⟨rfl, List.cons_ne_nil _ _, rfl⟩
        · rename_i hr
          cases h
          obtain rfl := readLine_eq_none.mp hr
          exact ⟨fun hm => hc (List.mem_singleton.mp hm).symm,
            .inr ⟨rfl, List.cons_ne_nil _ _, rfl⟩⟩

/-- A read takes the first of the lines of the input. -/
theorem promptLines_of_readLine {u l rest : Text} (h : readLine u = some (l, rest)) :
    promptLines u = l :: promptLines rest := by
  obtain ⟨hl, rfl | ⟨rfl, hne, rfl⟩⟩ := readLine_spec h
  · exact promptLines_line hl rest
  · rw [promptLines_last hl hne, promptLines_nil]

/-- **The prompt in closed form.** From any state the loop reads all of its input and adds what
`promptTranscript` says to what was printed; a problem stays recorded only when no line is
read. -/
theorem Prompt.loop_eq (p : Prompt) :
    p.loop = ⟨[], p.output ++ promptTranscript p.input, p.hadError && p.input.isEmpty⟩ := by
  fun_induction Prompt.loop p with
  | case1 p h =>
      obtain hu := readLine_eq_none.mp h
      simp [promptTranscript, hu, List.append_assoc]
  | case2 p line rest h ih =>
      have hne : p.input ≠ [] := fun hu => by rw [hu] at h; cases h
      rw [ih]
      simp [Prompt.runLine, promptTranscript, promptLines_of_readLine h, hne, List.append_assoc]

/-- The prompt run from the start prints `promptTranscript` and leaves no problem recorded. -/
theorem Outcome.ofPrompt_eq (u : Text) : Outcome.ofPrompt u = ⟨0, promptTranscript u, false⟩ := by
  simp [Outcome.ofPrompt, Prompt.loop_eq]

/-- Reading a line and going on: what the prompt prints for the rest of its input does not depend
on the line it has read. -/
theorem promptTranscript_line {l : Text} (hl : .scalar '\n' ∉ l) (rest : Text) :
    promptTranscript (l ++ .scalar '\n' :: rest) =
      promptMark ++ (Run.ofSource l).output ++ promptTranscript rest := by
  rw [promptTranscript, promptTranscript, promptLines_line hl, List.flatMap_cons]
  simp only [List.append_assoc]

/-! ### A line is scanned on line 1 -/

theorem newlinesBefore_eq_zero {s : Text} (hs : .scalar '\n' ∉ s) (p : Nat) :
    newlinesBefore s p = 0 := by
  rw [newlinesBefore, List.length_eq_zero_iff, List.filter_eq_nil_iff]
  intro q _ hq
  simp only [decide_eq_true_eq] at hq
  exact hs (List.mem_of_getElem? hq.1)

/-- A text without line feeds is scanned on line 1: every report and every token is on it. -/
theorem scan_lines_eq_one {s : Text} (hs : .scalar '\n' ∉ s) :
    (∀ d ∈ (scan s).diagnostics, d.line = 1) ∧ ∀ t ∈ (scan s).tokens, t.line = 1 := by
  have hzero := newlinesBefore_eq_zero hs
  refine ⟨fun d hd => ?_, fun t ht => ?_⟩
  · rw [diagnostics_scan, List.mem_filterMap] at hd
    obtain ⟨⟨o, p⟩, -, hp⟩ := hd
    cases p with
    | stray c =>
        obtain rfl := Option.some.inj hp
        exact congrArg (1 + ·) (hzero _)
    | unclosed body =>
        obtain rfl := Option.some.inj hp
        exact congrArg (1 + ·) (hzero _)
    | token | blank | newline | comment => cases hp
  · obtain ⟨ts, hts⟩ := List.getLast?_eq_some_iff.mp (getLast?_tokens_scan s)
    have hdrop : (scan s).tokens.dropLast = ts := by rw [hts, List.dropLast_concat]
    rw [hts, List.mem_append, List.mem_singleton] at ht
    rcases ht with ht | rfl
    · rw [← hdrop, tokens_scan, List.mem_filterMap] at ht
      obtain ⟨⟨o, p⟩, -, hp⟩ := ht
      cases p with
      | token k l =>
          obtain rfl := Option.some.inj hp
          exact congrArg (1 + ·) (hzero _)
      | blank | newline | comment | stray | unclosed => cases hp
    · exact congrArg (1 + ·) (hzero _)

/-- **The prompt.** With no argument, the command reads its input as lines: texts without line
feeds that, each followed by a line feed, give back the input with its last line closed. For each
line it prints `> ` and what running the line alone prints, its reports and then its tokens, and
at the end `> ` and a line feed. It returns 0 and leaves no problem standing, and every report
and token it prints is on line 1. -/
theorem prompt_session (fs : FileSystem) (u : Text) :
    (∀ ls, ((∀ l ∈ ls, .scalar '\n' ∉ l) ∧ ls.flatMap (· ++ lineFeed) = closeLastLine u) ↔
      ls = promptLines u) ∧
    start fs [] u = .ok ⟨0, (promptLines u).flatMap (fun l => promptMark ++
        ((scan l).diagnostics.flatMap (·.report ++ lineFeed) ++
          (scan l).tokens.flatMap (·.render ++ lineFeed))) ++ promptMark ++ lineFeed, false⟩ ∧
    ∀ l ∈ promptLines u,
      (∀ d ∈ (scan l).diagnostics, d.line = 1) ∧ ∀ t ∈ (scan l).tokens, t.line = 1 :=
  ⟨promptLines_iff u, by rw [start, Request.ofArgs, Outcome.ofPrompt_eq]; rfl,
    fun l hl => scan_lines_eq_one ((promptLines_spec u).1 l hl)⟩

/-- The input `@`, line feed, `"a` and a carriage return is read as two lines, the second of which
keeps its carriage return and leaves its string open; its report is on line 1. -/
theorem prompt_session_open_string :
    Text.ofString "\"a\r" ∈ promptLines (Text.ofString "@\n\"a\r") ∧
      (∀ d ∈ (scan (Text.ofString "\"a\r")).diagnostics, d.line = 1) ∧
      ∀ t ∈ (scan (Text.ofString "\"a\r")).tokens, t.line = 1 := by
  have hl : Text.ofString "\"a\r" ∈ promptLines (Text.ofString "@\n\"a\r") := by decide +kernel
  exact ⟨hl, (prompt_session ⟨[], fun _ => .error .notFound⟩ _).2.2 _ hl⟩

end LoxLexer
