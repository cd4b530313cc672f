import LiveLisp.Library.Basic
/-!
# Evaluation results

A runtime answers an evaluation with a value, an error or an exception. A backend that cannot
bring back such an answer fails, and apart from a unit that does not load, its failures end the
session.
-/

namespace LiveLisp.Backend

/-- What came of one evaluation. A failed one may carry the text of its stack trace. -/
inductive Result where
  | success (value : String)
  | error (value : String) (trace : Option String)
  | exception (value : String) (trace : Option String)
  deriving DecidableEq, Repr, Inhabited

namespace Result

/-- The word for how an evaluation ended. -/
def status : Result → String
  | .success _ => "success"
  | .error .. => "error"
  | .exception .. => "exception"

/-- The text of the value or of the failure. -/
def value : Result → String
  | .success v | .error v _ | .exception v _ => v

/-- The text of the stack trace. -/
def trace? : Result → Option String
  | .success _ => none
  | .error _ t | .exception _ t => t

/-- Whether the evaluation gave a value. -/
def isSuccess : Result → Bool
  | .success _ => true
  | _ => false

/-- Whether the evaluated code threw. -/
def isException : Result → Bool
  | .exception .. => true
  | _ => false

end Result

/-- Why a backend has no answer. -/
inductive Failure where
  | invalidState (expected actual : String)
  | interpreterNotFound (command : String)
  | spawn (command reason : String)
  | connect (address : String) (attempts : Nat) (reason : String)
  | processExited (status : String)
  | connectionClosed
  | transfer (reason : String)
  | protocol (reason : String)
  | build (cause : Library.BuildError)
  | bootstrap (step message : String)
  | loadFailed (unit message : String)
  deriving DecidableEq, Repr, Inhabited

namespace Failure

/-- The text shown for a failure. -/
def message : Failure → String
  | .invalidState expected actual => "Backend is " ++ actual ++ ", expected " ++ expected
  | .interpreterNotFound command => "JavaScript interpreter not found: " ++ command
  | .spawn command reason => "Failed to start " ++ command ++ ": " ++ reason
  | .connect address attempts reason =>
    "Could not connect to " ++ address ++ " after " ++ toString attempts ++ " attempts: " ++ reason
  | .processExited status =>
    "JavaScript process exited before accepting connections (" ++ status ++ ")"
  | .connectionClosed => "Connection closed by the JavaScript runtime"
  | .transfer reason => "IO error: " ++ reason
  | .protocol reason => "Malformed response: " ++ reason
  | .build cause => "Build error: " ++ cause.message
  | .bootstrap step message => "Bootstrap step '" ++ step ++ "' failed: " ++ message
  | .loadFailed unit message => "Failed to load " ++ unit ++ ": " ++ message

/-- Whether the session has to end. A unit that does not load leaves the runtime in order. -/
def isFatal : Failure → Bool
  | .loadFailed .. => false
  | _ => true

end Failure

end LiveLisp.Backend
