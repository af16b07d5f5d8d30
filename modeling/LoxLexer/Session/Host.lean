import LoxLexer.Session.Path

/-!
# The host

The session runs on a Linux host laid out with a merged `/usr`: `/bin`, `/sbin`, `/lib` and
`/lib64` are links into `/usr`, and `/var/run` and `/var/lock` are links into `/run`. Under
`/proc/self` the running process sees its root and its working directory as links. Of the
devices, the null device reads as empty and takes any text, and the terminal cannot be opened,
since the process has none.

Every link leads to a place that is not itself a link, so a walk follows at most one link for each
component.

## Main definitions

* `Node`: what a place holds.
* `hostNode?`: what a place of the host holds, apart from the session's working directory.
* `currentDirectoryLink`: the place of the link to the working directory.
-/

namespace LoxLexer

/-- What a place in the file tree holds. -/
inductive Node where
  /-- A directory, which a walk may go through. -/
  | directory
  /-- A file with its text. -/
  | file (text : Text)
  /-- The null device: it reads as empty and takes any text. -/
  | null
  /-- The terminal of a process that has none: it cannot be opened. -/
  | detachedTerminal
  /-- A link to another place, which is not itself a link. -/
  | link (target : Place)
deriving DecidableEq, Repr

/-- The text read from a node, or why it cannot be read. -/
def Node.contents : Node → Except Fault Text
  | .file text => .ok text
  | .null => .ok []
  | .directory => .error .isDirectory
  | .detachedTerminal => .error .noDevice
  | .link _ => .error .notFound

/-- The place of an absolute path that goes through no link. -/
def hostPlace (path : String) : Place := placeOfPath (Text.ofString path)

/-- The directories of the host, by absolute path. -/
def hostDirectories : List String :=
  ["/boot", "/dev", "/dev/mqueue", "/dev/pts", "/dev/shm", "/etc", "/home", "/media", "/mnt",
    "/opt", "/proc", "/proc/self", "/proc/self/fd", "/root", "/run", "/run/lock", "/srv", "/sys",
    "/tmp", "/usr", "/usr/bin", "/usr/games", "/usr/include", "/usr/lib", "/usr/lib64",
    "/usr/libexec", "/usr/local", "/usr/local/bin", "/usr/local/etc", "/usr/local/games",
    "/usr/local/include", "/usr/local/lib", "/usr/local/sbin", "/usr/local/share",
    "/usr/local/share/man", "/usr/local/src", "/usr/sbin", "/usr/share", "/usr/src", "/var",
    "/var/backups", "/var/cache", "/var/lib", "/var/local", "/var/log", "/var/mail", "/var/opt",
    "/var/spool", "/var/tmp"]

/-- The links of the host, each by its absolute path and the absolute path of where it leads. -/
def hostLinks : List (String × String) :=
  [("/bin", "/usr/bin"), ("/lib", "/usr/lib"), ("/lib64", "/usr/lib64"), ("/sbin", "/usr/sbin"),
    ("/usr/local/man", "/usr/local/share/man"), ("/var/run", "/run"), ("/var/lock", "/run/lock"),
    ("/dev/fd", "/proc/self/fd"), ("/proc/self/root", "/")]

/-- The devices of the host, by absolute path. -/
def hostDevices : List (String × Node) :=
  [("/dev/null", .null), ("/dev/tty", .detachedTerminal)]

/-- Every place of the host with what it holds. -/
def hostNodes : List (Place × Node) :=
  hostDirectories.map (fun d => (hostPlace d, .directory)) ++
    hostLinks.map (fun l => (hostPlace l.1, .link (hostPlace l.2))) ++
    hostDevices.map fun d => (hostPlace d.1, d.2)

/-- What a place of the host holds, if anything. -/
def hostNode? (p : Place) : Option Node :=
  (hostNodes.find? (·.1 = p)).map (·.2)

/-- The place of the link through which the process sees its working directory. -/
def currentDirectoryLink : Place := hostPlace "/proc/self/cwd"

example : hostNode? (hostPlace "/bin") = some (.link (hostPlace "/usr/bin")) := by
  decide +kernel

example : hostNode? (hostPlace "/dev/null") = some .null ∧ hostNode? (hostPlace "/nope") = none := by
  decide +kernel

end LoxLexer
