import LiveLisp.Backend.Result
import LiveLisp.Reading.Cursor
/-!
# Session errors

What can go wrong in a session, which of it ends the session, and how it is printed.
-/

namespace LiveLisp.Session

open Files (Pathname)

/-- Why a form was not dealt with. `input` stands for the output as well, where a write may fail
just as a read may. -/
inductive SessionError where
  | read (cause : Reading.ReadError)
  | compile (cause : Analysis.CompileError)
  | backend (cause : Backend.Failure)
  | build (cause : Library.BuildError)
  | input (reason : String)
  | missingSource (path : Pathname)
  | unreadableSource (path : Pathname) (reason : String) (deeper : List String)
  | invalidSpecial (special message : String)
  | loadFailed (ns message : String)
  | evaluationFailed (message : String)
  deriving DecidableEq, Repr, Inhabited

namespace SessionError

/-- The text shown for an error. -/
def message : SessionError → String
  | .read cause => cause.message
  | .compile cause => cause.message
  | .backend cause => cause.message
  | .build cause => cause.message
  | .input reason => "IO error: " ++ reason
  | .missingSource path => "File not found: " ++ path.text
  | .unreadableSource path reason _ => "Cannot read " ++ path.text ++ ": " ++ reason
  | .invalidSpecial special message => "Invalid " ++ special ++ " form: " ++ message
  | .loadFailed ns message => "Failed to load " ++ ns ++ ": " ++ message
  | .evaluationFailed message => message

/-- Whether the session has to end: the backend is lost, or the input or the output. -/
def isFatal : SessionError → Bool
  | .backend cause => cause.isFatal
  | .input _ => true
  | _ => false

/-- What is behind an error that does not end the session, the nearest cause first. -/
def causes : SessionError → List String
  | .read (.input reason) => [reason]
  | .build (.file cause) => [cause.message]
  | .build (.walk _ cause) => [cause.message]
  | .unreadableSource _ reason deeper => reason :: deeper
  | _ => []

end SessionError

/-- A line for a failure, in red if colors are wanted. -/
def errorLine (colored : Bool) (message : String) : String :=
  if colored then "\x1b[31m" ++ message ++ "\x1b[39m\n" else message ++ "\n"

/-- How many causes are printed at most. -/
def maxCauses : Nat := 5

/-- The lines for causes; a last line tells that there are more. -/
def causeLines (causes : List String) : String :=
  String.join ((causes.take maxCauses).map fun c => "\tcaused by: " ++ c ++ "\n") ++
    (if causes.length > maxCauses then "\t...\n" else "")

/-- The lines for a failed special form: its error and the causes of it. -/
def specialFailure (colored : Bool) (e : SessionError) : String :=
  errorLine colored e.message ++ causeLines e.causes

end LiveLisp.Session
