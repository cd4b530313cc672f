import LiveLisp.Backend.Result
import LiveLisp.Library.Layout
import LiveLisp.Options
import LiveLisp.SourceMap.Trace
/-!
# Backends

A backend runs scripts in some runtime. It is set up once before anything else and torn down once
at the end; in between it evaluates fragments and loads units. Its calls act on a world: the
files, what has been shown so far, and the state of the backend itself.
-/

namespace LiveLisp

namespace Backend

open Files (Tree Pathname)

/-- A text on the output: printed by the session, or by the running code. -/
inductive Shown where
  | printed (text : String)
  | flushed (text : String)
  deriving DecidableEq, Repr, Inhabited

/-- The text that was shown. -/
def Shown.text : Shown → String
  | .printed t | .flushed t => t

/-- The text, if the session printed it. -/
def Shown.printed? : Shown → Option String
  | .printed t => some t
  | .flushed _ => none

/-- The text, if the running code printed it. -/
def Shown.flushed? : Shown → Option String
  | .printed _ => none
  | .flushed t => some t

/-- What the calls of a backend act on. -/
structure World (β : Type) where
  files : Tree
  shown : List Shown
  backend : β

/-- Nothing has been shown yet. -/
def World.fresh {β : Type} (files : Tree) (backend : β) : World β := ⟨files, [], backend⟩

/-- Calls of a backend. What happened before a failure stays. -/
abbrev Call (β : Type) := EStateM Failure (World β)

/-- Laying out files as part of a call. -/
def onFiles {α β : Type} (b : Library.Build α) : Call β α := fun w =>
  match b w.files with
  | .ok a files => .ok a { w with files := files }
  | .error e files => .error (.build e) { w with files := files }

/-- Turns the text of a stack trace into frames. -/
abbrev TraceParser := String → Result → Options → List SourceMap.Frame

end Backend

/-- A backend with states `β`. It may suggest options and may know how to read stack traces. -/
structure Backend (β : Type) where
  setup : Options → Backend.Call β Unit
  evaluate : (file : String) → (line : Nat) → (code : String) → Backend.Call β Backend.Result
  load : (provides : List String) → (url : Files.Pathname) → Backend.Call β Unit
  tearDown : Backend.Call β Unit
  suggested : Option Options
  traceParser : Option Backend.TraceParser

end LiveLisp
