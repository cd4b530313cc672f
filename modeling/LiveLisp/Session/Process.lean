import LiveLisp.Backend.Node
import LiveLisp.Session.Loop
/-!
# Sessions over a process

A whole session with the process backend over the library in a directory.
-/

namespace LiveLisp.Session

open Backend (Host Node NodeSettings World)
open Files (Pathname Tree)

/-- Why there was no session, or why it ended early. -/
inductive ProcessError where
  | scan (libDir : Pathname) (cause : Library.BuildError)
  | session (cause : SessionError)
  deriving DecidableEq, Repr, Inhabited

namespace ProcessError

/-- What could not be done. -/
def message : ProcessError → String
  | .scan libDir _ => "Failed to scan library: " ++ libDir.text
  | .session _ => "REPL session failed"

/-- What was behind it. -/
def cause : ProcessError → String
  | .scan _ cause => cause.message
  | .session cause => cause.message

end ProcessError

/-- Scans the library and runs a session over a process; the world afterwards. -/
def runProcess (host : Host) (settings : NodeSettings) (options : Options) (libDir : Pathname)
    (clock : Nat → Nat) (lines : List Reading.Line) (files : Tree) :
    Except ProcessError Exit × World Node :=
  match Library.scan files libDir with
  | .error e => (.error (.scan libDir e), .fresh files .fresh)
  | .ok library =>
    let c := Setting.ofBackend (Node.backend host settings library) library options clock
    match runSession c builtins lines (fresh c files .fresh) with
    | .ok exit s => (.ok exit, s.world)
    | .error e s => (.error (.session e), s.world)

end LiveLisp.Session
