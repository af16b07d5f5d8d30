import LoxLexer.Session.Command
import LoxLexer.Proofs.Problems

/-!
# Running a script

With one argument, the command reads the file that the argument names and scans its text. The
file is read as text files are read: first each carriage return and line feed pair, and then each
carriage return left alone, stands for a line feed (`normalizeNewlines_eq`). Nothing else of the
text changes, a byte order mark at the front included; as it starts no token, it is the first
thing reported. The command prints the reports of the scan and then its tokens, and it ends with
65 when there was a report and with 64 otherwise.

## Main definitions

* `crlfToLf`, `crToLf`: the two passes over the text of a file read as text.
* `byteOrderMark`: the code point U+FEFF.

## Main results

* `normalizeNewlines_eq`: the one pass of the reader is the two passes.
* `scan_cons_unknown`: a code point the scan does not know, at the front, is reported first.
* `start_script`: what the command does with each number of arguments.
-/

namespace LoxLexer

/-- Each carriage return and line feed pair made a line feed, the pairs taken from the left. -/
def crlfToLf : Text → Text
  | .scalar '\r' :: .scalar '\n' :: rest => .scalar '\n' :: crlfToLf rest
  | c :: rest => c :: crlfToLf rest
  | [] => []

/-- Each carriage return made a line feed. -/
def crToLf (t : Text) : Text := t.map fun c => if c = .scalar '\r' then .scalar '\n' else c

/-- The byte order mark, U+FEFF. -/
def byteOrderMark : CodePoint := .scalar '\uFEFF'

@[simp] theorem crToLf_nil : crToLf [] = [] := rfl

@[simp] theorem crToLf_cons (c : CodePoint) (t : Text) :
    crToLf (c :: t) = (if c = .scalar '\r' then .scalar '\n' else c) :: crToLf t := rfl

/-- A carriage return with no line feed after it is left for the second pass. -/
theorem crlfToLf_cr {rest : Text} (h : ∀ more, rest ≠ .scalar '\n' :: more) :
    crlfToLf (.scalar '\r' :: rest) = .scalar '\r' :: crlfToLf rest :=
  crlfToLf.eq_2 _ rest fun more _ hm => h more hm

theorem crlfToLf_of_ne {c : CodePoint} (hc : c ≠ .scalar '\r') (rest : Text) :
    crlfToLf (c :: rest) = c :: crlfToLf rest :=
  crlfToLf.eq_2 c rest fun _ h _ => hc h

/-- **Newlines of a text file.** The reader's one pass turns each carriage return and line feed
pair into a line feed, and each carriage return left alone too: it is the pass over the pairs
followed by the pass over the carriage returns. -/
theorem normalizeNewlines_eq (t : Text) : normalizeNewlines t = crToLf (crlfToLf t) := by
  induction t using normalizeNewlines.induct with
  | case1 rest ih => simp [normalizeNewlines, crlfToLf, ih]
  | case2 rest hrest ih =>
      rw [normalizeNewlines.eq_2 rest hrest, crlfToLf_cr fun more h => hrest more h, crToLf_cons,
        if_pos rfl, ih]
  | case3 c rest hpair hc ih =>
      rw [normalizeNewlines.eq_3 c rest hpair hc, crlfToLf_of_ne hc, crToLf_cons, if_neg hc, ih]
  | case4 => rfl

/-- A code point the scan does not know, at the front of a source, is the first thing it
reports, on line 1. -/
theorem scan_cons_unknown {c : CodePoint} (hc : isKnown c = false) (rest : Text) :
    ∃ more, (scan (c :: rest)).diagnostics = ⟨1, .unexpected c⟩ :: more := by
  have hp : (Piece.split c rest).1 = .stray c := by
    have h := Piece.problem?_split c rest
    rw [if_pos hc] at h
    exact Piece.problem?_eq_unexpected.mp h
  refine ⟨(Scan.ofPieces 1 (pieces (Piece.split c rest).2)).diagnostics, ?_⟩
  rw [scan, pieces_cons, hp]
  rfl

/-- A byte order mark at the front of a file is kept by the reader. -/
theorem crToLf_crlfToLf_byteOrderMark (rest : Text) :
    crToLf (crlfToLf (byteOrderMark :: rest)) = byteOrderMark :: crToLf (crlfToLf rest) := by
  have hne : byteOrderMark ≠ .scalar '\r' := by decide
  rw [crlfToLf_of_ne hne, crToLf_cons, if_neg hne]

/-- **The command line.** With one argument that leads to the absolute path `p` of a file with
the text `c`, the command scans `c` with its newlines made line feeds: first each carriage return
and line feed pair, then each carriage return left. It prints the reports of that scan, in order,
and then its tokens, each on a line of its own, and it returns 65 when there was a report and 64
otherwise. A byte order mark at the front is kept, and reported first, on line 1. With two
arguments or more the command prints its usage and returns 64; with none it runs the prompt on
its input. -/
theorem start_script (fs : FileSystem) (path p c input : Text)
    (habs : absolutePath fs.cwd path = .ok p) (hread : fs.read p = .ok c) :
    start fs [path] input =
        .ok ⟨if (scan (crToLf (crlfToLf c))).diagnostics = [] then 64 else 65,
          (scan (crToLf (crlfToLf c))).diagnostics.flatMap (·.report ++ lineFeed) ++
            (scan (crToLf (crlfToLf c))).tokens.flatMap (·.render ++ lineFeed),
          decide ((scan (crToLf (crlfToLf c))).diagnostics ≠ [])⟩ ∧
      (∀ rest, c = byteOrderMark :: rest → ∃ more,
        (scan (crToLf (crlfToLf c))).diagnostics = ⟨1, .unexpected byteOrderMark⟩ :: more) ∧
      (∀ a b more, start fs (a :: b :: more) input =
        .ok ⟨64, Text.ofString "Usage: pylox [script]\n", false⟩) ∧
      start fs [] input = .ok (Outcome.ofPrompt input) := by
  refine ⟨?_, ?_, fun _ _ _ => rfl, rfl⟩
  · have hrun : start fs [path] input = .ok (Outcome.ofScript c) := by
      simp only [start, Request.ofArgs, habs]
      show (fs.read p >>= fun text => pure (Outcome.ofScript text)) = _
      rw [hread]
      rfl
    rw [hrun, Outcome.ofScript, normalizeNewlines_eq]
    cases hd : (scan (crToLf (crlfToLf c))).diagnostics <;>
      simp [Run.ofSource, Run.transcript, Scan.hadError, hd]
  · rintro rest rfl
    rw [crToLf_crlfToLf_byteOrderMark]
    exact scan_cons_unknown (by decide) _

/-- A file system with one file, at the absolute path `path`, which holds `text`. -/
def FileSystem.single (cwd path text : Text) : FileSystem :=
  ⟨cwd, fun p => if p = path then .ok text else .error .notFound⟩

/-- A script `t.lox` that starts with a byte order mark and has a carriage return and line feed
pair: the mark is reported first, and the command returns 65. -/
theorem start_script_with_mark :
    absolutePath (Text.ofString "/tmp/w") (Text.ofString "t.lox") =
        .ok (Text.ofString "/tmp/w/t.lox") ∧
      (FileSystem.single (Text.ofString "/tmp/w") (Text.ofString "/tmp/w/t.lox")
        (Text.ofString "\uFEFFx\r\ny")).read (Text.ofString "/tmp/w/t.lox") =
        .ok (Text.ofString "\uFEFFx\r\ny") ∧
      (∃ more, (scan (crToLf (crlfToLf (Text.ofString "\uFEFFx\r\ny")))).diagnostics =
        ⟨1, .unexpected byteOrderMark⟩ :: more) ∧
      ∃ o, start (FileSystem.single (Text.ofString "/tmp/w") (Text.ofString "/tmp/w/t.lox")
        (Text.ofString "\uFEFFx\r\ny")) [Text.ofString "t.lox"] [] = .ok o ∧ o.code = 65 := by
  have habs : absolutePath (Text.ofString "/tmp/w") (Text.ofString "t.lox") =
      .ok (Text.ofString "/tmp/w/t.lox") := rfl
  have hread : (FileSystem.single (Text.ofString "/tmp/w") (Text.ofString "/tmp/w/t.lox")
      (Text.ofString "\uFEFFx\r\ny")).read (Text.ofString "/tmp/w/t.lox") =
      .ok (Text.ofString "\uFEFFx\r\ny") := by
    simp [FileSystem.single]
  have hc : Text.ofString "\uFEFFx\r\ny" = byteOrderMark :: Text.ofString "x\r\ny" := by decide
  obtain ⟨hstart, hmark, -, -⟩ := start_script _ _ _ _ [] habs hread
  obtain ⟨more, hmore⟩ := hmark _ hc
  refine ⟨habs, hread, ⟨more, hmore⟩, _, hstart, ?_⟩
  simp [hmore]

end LoxLexer
