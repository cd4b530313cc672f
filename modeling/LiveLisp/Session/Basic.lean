import LiveLisp.Analysis.Stack
import LiveLisp.Backend.Basic
import LiveLisp.Reading.Reader
import LiveLisp.Session.Error
import LiveLisp.Session.State
/-!
# Sessions

A session holds the world its backend acts on, what the analysis knows, what the prompt
remembers, what has been loaded, the input, what is to come of its output, and a log of what went to
and from the backend.
-/

namespace LiveLisp.Session

open Backend (Failure Result)
open Files (Pathname)

/-- One call of the backend with its answer. -/
inductive Exchange where
  | setup (options : Options) (answer : Except Failure Unit)
  | evaluate (file : String) (line : Nat) (code : String) (answer : Except Failure Result)
  | load (provides : List String) (url : Pathname) (answer : Except Failure Unit)
  | tearDown (answer : Except Failure Unit)

/-- A write that failed: why, and how many characters of the text got out before. -/
structure Refusal where
  reason : String
  written : Nat
  deriving DecidableEq, Repr, Inhabited

/-- What is given when a session begins. The clock tells the time, in milliseconds, by the number
of exchanges so far. The output says of each write, in order, whether it is refused; after these
none is. -/
structure Setting (β : Type) where
  backend : Backend β
  library : Library
  options : Options
  clock : Nat → Nat
  output : List (Option Refusal)

/-- The setting over a backend, with an output that refuses nothing: what is left open takes what
the backend suggests. -/
def Setting.ofBackend {β : Type} (backend : Backend β) (library : Library) (options : Options)
    (clock : Nat → Nat) : Setting β :=
  ⟨backend, library, options.withDefaults (backend.suggested.getD .none), clock, []⟩

end Session

/-- The state of a session. -/
structure Session (β : Type) where
  world : Backend.World β
  env : Analysis.Env
  state : Session.State
  loaded : List String
  tracer : SourceMap.Tracer
  input : Reading.Cursor
  output : List (Option Session.Refusal)
  exchanges : List Session.Exchange

namespace Session

open Backend (Failure Result Call)
open Files (Pathname Tree)

variable {α β : Type}

/-- Before anything has happened. Stack traces are looked up below the output directory. -/
def fresh (c : Setting β) (files : Tree) (backend : β) : Session β where
  world := .fresh files backend
  env := .initial
  state := .initial
  loaded := []
  tracer := .fresh (c.options.outputDir.getD ⟨"."⟩)
  input := .ofLines []
  output := c.output
  exchanges := []

/-- The session with a text shown. -/
def print (s : Session β) (text : String) : Session β :=
  { s with world := { s.world with shown := s.world.shown ++ [.printed text] } }

/-- Whether a namespace has been delivered. -/
def isLoaded (s : Session β) (ns : String) : Bool := s.loaded.contains ns

/-- Computations on a session that may fail. What happened before a failure stays. -/
abbrev Run (β : Type) := EStateM SessionError (Session β)

/-- What comes of the next write. -/
def nextWrite : Run β (Option Refusal) := fun s =>
  .ok s.output.head?.join { s with output := s.output.tail }

/-- Prints a text. -/
def printText (text : String) : Run β Unit := do
  match ← nextWrite with
  | none => modify (·.print text)
  | some refusal =>
    modify (·.print (String.ofList (text.toList.take refusal.written)))
    throw (.input refusal.reason)

/-- Has what was printed go out. -/
def flush : Run β Unit := do
  match ← nextWrite with
  | none => return
  | some refusal => throw (.input refusal.reason)

/-- Calls the backend and logs the call with its answer. -/
def exchange (entry : Except Failure α → Exchange) (call : Call β α) : Run β α := fun s =>
  match call s.world with
  | .ok a w => .ok a { s with world := w, exchanges := s.exchanges ++ [entry (.ok a)] }
  | .error f w =>
    .error (.backend f) { s with world := w, exchanges := s.exchanges ++ [entry (.error f)] }

/-- Sets the backend up. -/
def setUp (c : Setting β) : Run β Unit :=
  exchange (.setup c.options) (c.backend.setup c.options)

/-- Has the backend evaluate a fragment. -/
def send (c : Setting β) (file : String) (line : Nat) (code : String) : Run β Result :=
  exchange (.evaluate file line code) (c.backend.evaluate file line code)

/-- Has the backend load a unit. -/
def deliver (c : Setting β) (provides : List String) (url : Pathname) : Run β Unit :=
  exchange (.load provides url) (c.backend.load provides url)

/-- Tears the backend down. -/
def tearDown (c : Setting β) : Run β Unit := exchange .tearDown c.backend.tearDown

/-- An analysis on what the session knows. -/
def onEnv (analysis : Analysis.Analyzing α) : Run β α := fun s =>
  match analysis s.env with
  | .ok a env => .ok a { s with env := env }
  | .error e env => .error (.compile e) { s with env := env }

/-- Laying out files. -/
def onFiles (build : Library.Build α) : Run β α := fun s =>
  match build s.world.files with
  | .ok a files => .ok a { s with world := { s.world with files := files } }
  | .error e files => .error (.build e) { s with world := { s.world with files := files } }

/-- Goes to another namespace. -/
def enter (ns : String) : Run β Unit := modify fun s => { s with state := s.state.enter ns }

/-- A computation whose failures are printed, unless they end the session. -/
def reporting (report : SessionError → String) (action : Run β Unit) : Run β Unit := fun s =>
  match action s with
  | .ok _ s => .ok () s
  | .error e s => if e.isFatal then .error e s else printText (report e) s

end Session

end LiveLisp
