import LoxLexer.Scan.Basic

/-!
# Transcripts

Running a source prints what its scan found: first each problem as a report
`[line 'n'] Error: message`, then each token in its text form, one per line.

The prompt reads its input a line at a time, a line ending at a line feed or at the end of the
input. It writes `> ` before every read and runs each line it reads, then clears the record of
problems; the read that finds the input at its end is answered by a line feed.

## Main definitions

* `Diagnostic.report`: the text of a problem.
* `Run`: what running one source prints, and whether it reported a problem.
* `readLine`: one read of the prompt.
* `Prompt.loop`: the prompt, a read, a run and a reset at a time.
-/

namespace LoxLexer

/-- The line feed that ends each printed line. -/
def lineFeed : Text := [.scalar '\n']

/-- The report of a problem: `[line 'n'] Error: message`. -/
def Diagnostic.report (d : Diagnostic) : Text :=
  Text.ofString ("[line '" ++ toString d.line ++ "'] Error: ") ++ d.problem.message

/-- What running a source produces. -/
structure Run where
  /-- The printed text. -/
  output : Text
  /-- Whether a problem was reported. -/
  hadError : Bool
deriving DecidableEq, Repr

namespace Run

/-- The text that a scan prints: its reports, then its tokens, each on a line of its own. -/
def transcript (s : Scan) : Text :=
  s.diagnostics.flatMap (·.report ++ lineFeed) ++ s.tokens.flatMap (·.render ++ lineFeed)

/-- Running a source: its scan's transcript, and whether the scan found a problem. -/
def ofSource (source : Text) : Run :=
  let s := scan source
  ⟨transcript s, s.hadError⟩

end Run

/-- The prompt written before each read. -/
def promptMark : Text := Text.ofString "> "

/-- Reading a line of the input: the text before the first line feed and what follows that line
feed, or all of the input when it holds no line feed; nothing when the input is at its end. -/
def readLine : Text → Option (Text × Text)
  | [] => none
  | c :: rest =>
    if c = .scalar '\n' then some ([], rest)
    else
      match readLine rest with
      | some (line, more) => some (c :: line, more)
      | none => some ([c], [])

/-- What is left after a line is read is shorter than the input was. -/
theorem length_readLine {input line rest : Text} (h : readLine input = some (line, rest)) :
    rest.length < input.length := by
  induction input generalizing line rest with
  | nil => cases h
  | cons c more ih =>
    simp only [readLine] at h
    split at h
    · cases h
      simp
    · split at h
      · cases h
        have := ih ‹_›
        simp only [List.length_cons]
        omega
      · cases h
        simp

/-- The state of the prompt. -/
structure Prompt where
  /-- The input not read yet. -/
  input : Text
  /-- The text printed so far. -/
  output : Text
  /-- Whether a problem was reported and not cleared. -/
  hadError : Bool
deriving DecidableEq, Repr

namespace Prompt

/-- Runs a line that was read, with `rest` left to read: what it prints is printed and a problem
it reports is recorded, and then the record is cleared. -/
def runLine (p : Prompt) (line rest : Text) : Prompt :=
  let r := Run.ofSource line
  let ran : Prompt := ⟨rest, p.output ++ r.output, p.hadError || r.hadError⟩
  { ran with hadError := false }

/-- The prompt: write `> ` and read a line; at the end of the input write a line feed and stop,
and otherwise run the line and go on. -/
def loop (p : Prompt) : Prompt :=
  match _h : readLine p.input with
  | none => { p with output := p.output ++ promptMark ++ lineFeed }
  | some (line, rest) => loop ({ p with output := p.output ++ promptMark }.runLine line rest)
termination_by p.input.length
decreasing_by exact length_readLine _h

end Prompt

example : readLine (Text.ofString "a\r\nb") = some (Text.ofString "a\r", Text.ofString "b") ∧
    readLine (Text.ofString "a") = some (Text.ofString "a", []) ∧ readLine [] = none := by
  decide

end LoxLexer
