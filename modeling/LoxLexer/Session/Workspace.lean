import LoxLexer.Session.Host

/-!
# Workspaces

A workspace is the file tree that a session sees: the host's, with the working directory and its
ancestors as directories, and the files the session has written.

A path is walked a component at a time from the root. Empty components and `.` stay where they
are, `..` goes up from where the walk is, and every other component is looked up in the directory
reached so far, a link being followed to where it leads. Every component but the last must reach a
directory, and a path that ends in a slash must end at one.

Reading a path fails with a `Fault`, in this order: when the system refuses the path (see
`systemPath`), when a component is too long, when it names nothing, when a file is used as a
directory, and when the path ends at a directory or at a device that cannot be opened.

Creating a file walks all but the last component, which must then be a name that does not end in a
slash and does not name a directory. A file there is written over; otherwise a new file is made,
since no directory is ever made. The null device takes the text and keeps nothing. The text is
written last, and must have bytes.

## Main definitions

* `Workspace.walk`: where a path's components lead from a place.
* `Workspace.read`: the text of the file at an absolute path.
* `Workspace.create`: the workspace after writing a file at an absolute path.
* `Workspace.write`: the workspace after writing files, in order, under a working directory.
-/

namespace LoxLexer

/-- A working directory and the files the session has written. -/
structure Workspace where
  /-- The working directory, as an absolute path. -/
  cwd : Text
  /-- The files written, each at its place with its text, the latest first. -/
  written : List (Place × Text)
deriving DecidableEq, Repr

namespace Workspace

/-- The place of the working directory. -/
def home (w : Workspace) : Place := placeOfPath w.cwd

/-- What a place holds, if anything: a written file, the working directory or one of its
ancestors, the link to the working directory, or a place of the host. -/
def nodeAt (w : Workspace) (p : Place) : Option Node :=
  match w.written.find? (·.1 = p) with
  | some f => some (.file f.2)
  | none =>
    if p.isPrefixOf w.home then some .directory
    else if p = currentDirectoryLink then some (.link w.home)
    else hostNode? p

/-- The place that a name leads to, with what it holds: a link is followed to where it leads. -/
def entry (w : Workspace) (p : Place) : Option (Place × Node) :=
  match w.nodeAt p with
  | some (.link target) => (w.nodeAt target).map (target, ·)
  | some node => some (p, node)
  | none => none

/-- Where a path's components lead from a place that holds a node: each component after the first
needs a directory to go from. -/
def walk (w : Workspace) : Place × Node → List (List UInt8) → Except Fault (Place × Node)
  | here, [] => .ok here
  | (dir, node), c :: rest =>
    if node ≠ .directory then .error .notDirectory
    else if c = [] ∨ c = currentComponent then w.walk (dir, node) rest
    else if c = parentComponent then w.walk (dir.dropLast, .directory) rest
    else if maxComponentBytes < c.length then .error .nameTooLong
    else
      match w.entry (dir ++ [c]) with
      | some found => w.walk found rest
      | none => .error .notFound

/-- The root, where every walk of an absolute path starts. -/
def root : Place × Node := ([], .directory)

/-- The text of the file at an absolute path. -/
def read (w : Workspace) (path : Text) : Except Fault Text := do
  let (_, node) ← w.walk root (components (← systemPath path))
  node.contents

/-- The workspace with a text written over the file at a place, or as a new file there. -/
def store (w : Workspace) (p : Place) (text : Text) : Except Fault Workspace := do
  let _ ← textBytes text
  pure { w with written := (p, text) :: w.written }

/-- A list of components without the empty ones at its end. -/
def withoutTrailing (parts : List (List UInt8)) : List (List UInt8) :=
  (parts.reverse.dropWhile (· = [])).reverse

/-- The workspace after writing a text to the file at an absolute path. -/
def create (w : Workspace) (path text : Text) : Except Fault Workspace := do
  let parts := components (← systemPath path)
  let named := withoutTrailing parts
  match named.getLast? with
  | none => .error .isDirectory
  | some last =>
    if last = currentComponent ∨ last = parentComponent then
      let _ ← w.walk root parts
      .error .isDirectory
    else
      let (dir, node) ← w.walk root named.dropLast
      if node ≠ .directory then .error .notDirectory
      else if named.length < parts.length then .error .isDirectory
      else if maxComponentBytes < last.length then .error .nameTooLong
      else
        match w.entry (dir ++ [last]) with
        | none => w.store (dir ++ [last]) text
        | some (p, .file _) => w.store p text
        | some (_, .null) => do
          let _ ← textBytes text
          pure w
        | some (_, .directory) => .error .isDirectory
        | some (_, .detachedTerminal) => .error .noDevice
        | some (_, .link _) => .error .notFound

/-- The workspace after writing the files, in order, each by its name under the working directory;
or the path of the first file that could not be written, with why. -/
def writeFiles (w : Workspace) : List (Text × Text) → Except (Text × Fault) Workspace
  | [] => .ok w
  | f :: fs =>
    let path := joinPath w.cwd f.1
    match w.create path f.2 with
    | .ok next => next.writeFiles fs
    | .error fault => .error (path, fault)

/-- The workspace of a session with the working directory `cwd`, after writing its files. -/
def write (cwd : Text) (files : List (Text × Text)) : Except (Text × Fault) Workspace :=
  (⟨cwd, []⟩ : Workspace).writeFiles files

/-- A workspace for the examples below. -/
def sample (files : List (String × String)) : Workspace :=
  match write (Text.ofString "/tmp/w") (files.map fun f => (Text.ofString f.1, Text.ofString f.2)) with
  | .ok w => w
  | .error _ => ⟨Text.ofString "/tmp/w", []⟩

example : ((sample [("t.lox", "x")]).read (Text.ofString "/tmp/w/./t.lox")).toOption =
    some (Text.ofString "x") := by
  decide +kernel
example : faultOf ((sample [("t.lox", "x")]).read (Text.ofString "/tmp/w/t.lox/")) =
    some .notDirectory := by
  decide +kernel
example : ((sample [("./t.lox", "x"), ("t.lox", "y")]).read
    (Text.ofString "/proc/self/cwd/t.lox")).toOption = some (Text.ofString "y") := by
  decide +kernel
example : ((sample [("../u.lox", "x")]).read (Text.ofString "/tmp/u.lox")).toOption =
    some (Text.ofString "x") := by
  decide +kernel
example : faultOf ((sample []).read (Text.ofString "/bin/../local")) = some .isDirectory := by
  decide +kernel
example : faultOf (write (Text.ofString "/w") [(Text.ofString "/dev/null/.", [])]) =
    some (Text.ofString "/dev/null/.", .notDirectory) := by
  decide +kernel

end Workspace

end LoxLexer
