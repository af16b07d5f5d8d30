import LoxLexer.Text.Fields
import LoxLexer.Text.Quoted

/-!
# Paths

The system names files by bytes in UTF-8, where a surrogate has no form, except that in a path each
surrogate from U+DC80 to U+DCFF stands for the byte of its low eight bits. A path is cut at its
slashes into components, and a component is found by its bytes.

Before any lookup, the system refuses a path with a surrogate that has no byte, then a path that
holds a NUL character, then a path of 4096 bytes or more. A component longer than 255 bytes is
refused when the walk reaches it.

## Main definitions

* `Fault`: why a file could not be read or written, with its message and its error number.
* `utf8Bytes`, `pathBytes`, `textBytes`: the bytes of a path and of a file's text.
* `systemPath`: the bytes of a path, with the checks made before any lookup.
* `Place`, `placeOfPath`: where an absolute path leads when it goes through no link.
* `joinPath`: a name taken under a directory.
-/

namespace LoxLexer

/-- Why a file could not be read or written. -/
inductive Fault where
  /-- The script was given as an empty path. -/
  | emptyPath
  /-- A path or a file's text has a surrogate with no byte at position `first`, in a run of
  surrogates that ends at position `last`. -/
  | unencodable (first last : Nat) (c : CodePoint)
  /-- The path holds a NUL character. -/
  | embeddedNull
  /-- The path or one of its components is longer than the system allows. -/
  | nameTooLong
  /-- A component names nothing. -/
  | notFound
  /-- The path ends at a directory. -/
  | isDirectory
  /-- A file is used as a directory. -/
  | notDirectory
  /-- The path names a device with nothing behind it. -/
  | noDevice
deriving DecidableEq, Repr

/-- The message of a fault. -/
def Fault.message : Fault → String
  | .emptyPath => "string index out of range"
  | .unencodable first last c =>
    if first = last then
      "'utf-8' codec can't encode character '" ++ String.ofList c.hexForm ++ "' in position " ++
        toString first ++ ": surrogates not allowed"
    else
      "'utf-8' codec can't encode characters in position " ++ toString first ++ "-" ++
        toString last ++ ": surrogates not allowed"
  | .embeddedNull => "embedded null byte"
  | .nameTooLong => "File name too long"
  | .notFound => "No such file or directory"
  | .isDirectory => "Is a directory"
  | .notDirectory => "Not a directory"
  | .noDevice => "No such device or address"

/-- The error number the system gives for a fault, when the system is the one that refuses. -/
def Fault.errno? : Fault → Option Nat
  | .notFound => some 2
  | .noDevice => some 6
  | .notDirectory => some 20
  | .isDirectory => some 21
  | .nameTooLong => some 36
  | _ => none

/-- What a result failed with, if it failed. -/
def faultOf {ε α : Type} : Except ε α → Option ε
  | .error f => some f
  | .ok _ => none

/-- The byte that a surrogate from U+DC80 to U+DCFF stands for in a path: its low eight bits. -/
def CodePoint.pathByte? : CodePoint → Option UInt8
  | .surrogate o => if 0x480 ≤ o.val ∧ o.val < 0x500 then some (o.val - 0x400).toUInt8 else none
  | .scalar _ => none

/-- Whether a code point is a surrogate. -/
def CodePoint.isSurrogate : CodePoint → Bool
  | .surrogate _ => true
  | .scalar _ => false

/-- The UTF-8 bytes of a text whose first code point is at position `i`, where `byte?` gives the
byte that a surrogate stands for, if any. A surrogate with no byte is a fault that spans the
surrogates that follow it. -/
def utf8Bytes (byte? : CodePoint → Option UInt8) (i : Nat) : Text → Except Fault (List UInt8)
  | [] => .ok []
  | .scalar c :: rest => (String.utf8EncodeChar c ++ ·) <$> utf8Bytes byte? (i + 1) rest
  | c :: rest =>
    match byte? c with
    | some b => (b :: ·) <$> utf8Bytes byte? (i + 1) rest
    | none => .error (.unencodable i (i + (rest.takeWhile CodePoint.isSurrogate).length) c)

/-- The bytes of a path: UTF-8, where each surrogate from U+DC80 to U+DCFF stands for a byte. -/
def pathBytes (path : Text) : Except Fault (List UInt8) :=
  utf8Bytes CodePoint.pathByte? 0 path

/-- The bytes of a file's text: UTF-8, where no surrogate has a form. -/
def textBytes (text : Text) : Except Fault (List UInt8) :=
  utf8Bytes (fun _ => none) 0 text

/-- The slash that separates the components of a path. -/
def slashByte : UInt8 := 0x2F

/-- The components of a path's bytes, between its slashes. -/
def components (bytes : List UInt8) : List (List UInt8) := fields slashByte bytes

/-- The component `.`. -/
def currentComponent : List UInt8 := [0x2E]

/-- The component `..`. -/
def parentComponent : List UInt8 := [0x2E, 0x2E]

/-- The longest a path component may be, in bytes. -/
def maxComponentBytes : Nat := 255

/-- Paths of this many bytes and more are too long. -/
def maxPathBytes : Nat := 4096

/-- The bytes of a path as the system takes them: a path that holds a NUL character, or that is too
long, is refused before any lookup. -/
def systemPath (path : Text) : Except Fault (List UInt8) := do
  let bytes ← pathBytes path
  if bytes.contains 0 then .error .embeddedNull
  else if maxPathBytes ≤ bytes.length then .error .nameTooLong
  else .ok bytes

/-- A place in the file tree: the names of the directories from the root down to it, the last
being its own name. The root is the empty place. -/
abbrev Place := List (List UInt8)

/-- The place that an absolute path leads to when none of its components is `.`, `..` or a link:
its non-empty components, or the root when the path has no bytes. -/
def placeOfPath (path : Text) : Place :=
  ((components <$> (pathBytes path).toOption).getD []).filter (· ≠ [])

/-- The path of a name under a directory: the name itself when it is absolute, and otherwise the
directory and the name with one slash between them. -/
def joinPath (dir name : Text) : Text :=
  match name with
  | .scalar '/' :: _ => name
  | _ =>
    if dir = [] ∨ dir.getLast? = some (.scalar '/') then dir ++ name
    else dir ++ .scalar '/' :: name

example : joinPath (Text.ofString "/w") (Text.ofString "t.lox") = Text.ofString "/w/t.lox" ∧
    joinPath (Text.ofString "/w") (Text.ofString "/tmp") = Text.ofString "/tmp" ∧
    joinPath (Text.ofString "/w") [] = Text.ofString "/w/" := by
  decide

example : pathBytes (Text.ofString "/a" ++ [.surrogate 0, .surrogate 0x480]) =
    .error (.unencodable 2 3 (.surrogate 0)) := by
  rfl

example : pathBytes (Text.ofString "/" ++ [.surrogate 0x7FF]) =
    .error (.unencodable 1 1 (.surrogate 0x7FF)) := by
  rfl

end LoxLexer
