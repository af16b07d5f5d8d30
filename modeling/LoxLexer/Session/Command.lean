import LoxLexer.Session.Transcript
import LoxLexer.Session.Workspace

/-!
# The command line

The command takes at most one argument. With none it runs the prompt on its input. With one it
runs the script at that path, and with more it prints its usage. A relative path is taken from the
working directory. A script is read as text, where a carriage return and line feed pair and a
lone carriage return each stand for a line feed.

The command ends with a code: 0 after the prompt, 64 after the usage, and after a script 65 when a
problem was reported and 64 otherwise. Run as a program, it then prints that code.

## Main definitions

* `Request`: what the arguments ask for.
* `Outcome`: the code, the printed text, and whether a problem was reported.
* `Outcome.ofScript`, `Outcome.ofPrompt`, `Outcome.usage`: the three ways to end.
* `FileSystem`: what the command reads of the system: the working directory and files.
* `start`: the command on a file system; `Outcome.ending` adds the final line of the program.
* `session`: the files written to a workspace of the host (`Session.Workspace`), then the command
  on that workspace; `SessionFault` says why a session failed.

A file that cannot be written is reported with its error number and its path, as
`[Errno 2] No such file or directory: '/a/b'`; a script that cannot be read is reported by the
fault's message alone.
-/

namespace LoxLexer

/-- What the command-line arguments ask for. -/
inductive Request where
  /-- Print the usage. -/
  | usage
  /-- Run the script at a path. -/
  | script (path : Text)
  /-- Run the prompt on the input. -/
  | prompt
deriving DecidableEq, Repr

/-- The request made by a list of arguments. -/
def Request.ofArgs : List Text → Request
  | [] => .prompt
  | [path] => .script path
  | _ => .usage

/-- The absolute form of a script's path: as given when it starts with `/`, and otherwise
appended to the working directory `cwd` after a slash. An empty path has no first character to
look at. -/
def absolutePath (cwd path : Text) : Except Fault Text :=
  match path with
  | [] => .error .emptyPath
  | .scalar '/' :: _ => .ok path
  | _ => .ok (cwd ++ .scalar '/' :: path)

/-- A text with each carriage return and line feed pair, and each lone carriage return, made a line
feed. -/
def normalizeNewlines : Text → Text
  | .scalar '\r' :: .scalar '\n' :: rest => .scalar '\n' :: normalizeNewlines rest
  | .scalar '\r' :: rest => .scalar '\n' :: normalizeNewlines rest
  | c :: rest => c :: normalizeNewlines rest
  | [] => []

/-- How a command ends. -/
structure Outcome where
  /-- The code it returns. -/
  code : Nat
  /-- The text it prints. -/
  output : Text
  /-- Whether a problem was reported and not cleared. -/
  hadError : Bool
deriving DecidableEq, Repr

namespace Outcome

/-- The usage, printed for more than one argument. -/
def usage : Outcome := ⟨64, Text.ofString "Usage: pylox [script]\n", false⟩

/-- Running a script with the given file text. -/
def ofScript (text : Text) : Outcome :=
  let r := Run.ofSource (normalizeNewlines text)
  ⟨if r.hadError then 65 else 64, r.output, r.hadError⟩

/-- Running the prompt on the given input, with nothing printed and no problem at the start. -/
def ofPrompt (input : Text) : Outcome :=
  let p := Prompt.loop ⟨input, [], false⟩
  ⟨0, p.output, p.hadError⟩

example : ofPrompt (Text.ofString "@\n") =
    ⟨0, Text.ofString "> [line '1'] Error: Unexpected character ' @ '.\nTokenType.EOF  None\n> \n",
      false⟩ := by
  decide +kernel

/-- The last line the program prints, with the command's code. -/
def codeLine (code : Nat) : Text :=
  Text.ofString ("Process ended with code " ++ toString code ++ "\n")

/-- The text of the program: the command's text, then the line with its code. -/
def ending (o : Outcome) : Text :=
  o.output ++ codeLine o.code

end Outcome

/-- What the command needs of the system it runs on: the working directory, and the text of the
file at an absolute path or why it cannot be read. -/
structure FileSystem where
  /-- The working directory, as an absolute path. -/
  cwd : Text
  /-- The text of the file at an absolute path. -/
  read : Text → Except Fault Text

/-- The command with the given arguments and input, on a file system. -/
def start (fs : FileSystem) (args : List Text) (input : Text) : Except Fault Outcome :=
  match Request.ofArgs args with
  | .usage => .ok Outcome.usage
  | .prompt => .ok (Outcome.ofPrompt input)
  | .script path => do
    let text ← fs.read (← absolutePath fs.cwd path)
    pure (Outcome.ofScript text)

/-- Why a session failed. -/
inductive SessionFault where
  /-- The file at a path could not be written. -/
  | unwritten (path : Text) (fault : Fault)
  /-- The command failed. -/
  | failed (fault : Fault)
deriving DecidableEq, Repr

namespace SessionFault

/-- The fault behind a session's failure. -/
def fault : SessionFault → Fault
  | .unwritten _ f => f
  | .failed f => f

/-- The message of a session's failure. A fault of the system in writing a file names its error
number and the file's path. -/
def message : SessionFault → Text
  | .unwritten path f =>
    match f.errno? with
    | some n => Text.ofString ("[Errno " ++ toString n ++ "] " ++ f.message ++ ": ") ++ Text.quote path
    | none => Text.ofString f.message
  | .failed f => Text.ofString f.message

end SessionFault

/-- A session: the files are written, in order, under the working directory `cwd` of a workspace
on the host, and then the command runs on that workspace. -/
def session (cwd : Text) (files : List (Text × Text)) (args : List Text) (input : Text) :
    Except SessionFault Outcome := do
  let w ← (Workspace.write cwd files).mapError fun f => .unwritten f.1 f.2
  (start ⟨w.cwd, w.read⟩ args input).mapError .failed

example : (SessionFault.unwritten (Text.ofString "/tmp") .isDirectory).message =
    Text.ofString "[Errno 21] Is a directory: '/tmp'" := by
  decide +kernel

example : normalizeNewlines (Text.ofString "a\r\nb\rc\n") = Text.ofString "a\nb\nc\n" := by
  decide

end LoxLexer
