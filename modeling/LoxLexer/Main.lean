import LoxLexer.Session.Command

/-!
# The program

The command on the real system: the arguments and the working directory come from the process,
the prompt reads standard input a line at a time, and a script is read from the file system. The
program prints what the command prints and then the line with its code. When the script cannot be
read it reports why on standard error and fails.
-/

namespace LoxLexer.Program

/-- Writes a text. The real streams carry UTF-8, which has no form for a surrogate. -/
def write (stream : IO.FS.Stream) (t : Text) : IO Unit :=
  stream.putStr t.toStringLossy

/-- Runs the prompt on standard input, writing `> ` before each read, until the input ends. -/
partial def prompt (stdin stdout : IO.FS.Stream) : IO Unit := do
  write stdout promptMark
  stdout.flush
  let line ← stdin.getLine
  if line.isEmpty then
    write stdout lineFeed
  else
    let cs := Text.ofString line
    let cs := if cs.getLast? = some (.scalar '\n') then cs.dropLast else cs
    write stdout (Run.ofSource cs).output
    prompt stdin stdout

/-- The text of the file at an absolute path, or why it could not be read. -/
def readScript (path : Text) : IO (Except String Text) := do
  if let .error f := systemPath path then
    return .error f.message
  try
    let bytes ← IO.FS.readBinFile path.toStringLossy
    match String.fromUTF8? bytes with
    | some text => return .ok (Text.ofString text)
    | none => return .error "the script is not UTF-8 text"
  catch e =>
    return .error (toString e)

/-- Runs the command on the real system and prints its code. -/
def run (args : List String) : IO UInt32 := do
  let stdout ← IO.getStdout
  let stderr ← IO.getStderr
  let finish (o : Outcome) : IO UInt32 := do
    write stdout o.ending
    stdout.flush
    return 0
  match Request.ofArgs (args.map Text.ofString) with
  | .usage => finish Outcome.usage
  | .prompt =>
    prompt (← IO.getStdin) stdout
    write stdout (Outcome.codeLine 0)
    stdout.flush
    return 0
  | .script path =>
    match absolutePath (Text.ofString (← IO.currentDir).toString) path with
    | .error f =>
      stderr.putStrLn f.message
      return 1
    | .ok absolute =>
      match ← readScript absolute with
      | .error why =>
        stderr.putStrLn why
        return 1
      | .ok text => finish (Outcome.ofScript text)

end LoxLexer.Program

/-- The program's entry point. -/
def main (args : List String) : IO UInt32 :=
  LoxLexer.Program.run args
