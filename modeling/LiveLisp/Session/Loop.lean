import LiveLisp.Session.Special
/-!
# The prompt

The session reads forms, deals with special ones itself and has the backend evaluate the others,
until it is told to quit or the input ends. Failures are printed and the session goes on; only a
lost backend, input or output ends it early. The backend is torn down once, however it ends.
-/

namespace LiveLisp.Session

variable {β : Type}

/-- How a session ended. -/
inductive Exit where
  | quit
  | endOfInput
  deriving DecidableEq, Repr, Inhabited

/-- Whether a form asks to quit. -/
def isQuit (form : Form) : Bool := form.isKeyword (some "cljs") "quit"

/-- The first line of a session. -/
def banner : String := "To quit, type: :cljs/quit\n"

/-- Reads a form; a failure to read is an answer too. -/
def readForm : Run β (Except Reading.ReadError Reading.Outcome) := fun s =>
  match Reading.read s.state.prompt s.input with
  | .ok outcome input => .ok (.ok outcome) { s with input := input }
  | .error e input => .ok (.error e) { s with input := input }

/-- The handler for a form headed by a plain symbol, if there is one. -/
def handler? (specials : Table String (Special β)) (form : Form) : Option (Special β) :=
  form.head?.bind Symbol.plainName? |>.bind specials.get?

/-- Deals with one form that was read. -/
def dispatch (c : Setting β) (specials : Table String (Special β)) (form : Form) : Run β Unit :=
  match handler? specials form with
  | some handler => reporting (specialFailure c.options.isColored) (handler c form)
  | none =>
    reporting (fun e => errorLine c.options.isColored e.message) (evalAndPrint c form)

/-- Reads something and deals with it; the session may end. -/
def advance (c : Setting β) (specials : Table String (Special β)) : Run β (Option Exit) := do
  match ← readForm with
  | .ok .lineStart => return none
  | .ok .streamEnd => return some .endOfInput
  | .ok (.form form) =>
    if isQuit form then return some .quit
    else
      dispatch c specials form
      return none
  | .error (.input reason) => throw (.input reason)
  | .error e =>
    printText (errorLine c.options.isColored e.message)
    return none

/-- One turn of the prompt. If the session goes on, what was printed goes out first. -/
def turn (c : Setting β) (specials : Table String (Special β)) : Run β (Option Exit) := do
  match ← advance c specials with
  | some exit => return some exit
  | none =>
    flush
    return none

/-- Takes turns, at most as many as `fuel` says. -/
def loop (c : Setting β) (specials : Table String (Special β)) : Nat → Run β Exit
  | 0 => return .endOfInput
  | fuel + 1 => do
    match ← turn c specials with
    | some exit => return exit
    | none => loop c specials fuel

/-- Reads and deals with the forms of some input. Every read passes over a character or a line,
so their number bounds the number of reads. -/
def run (c : Setting β) (specials : Table String (Special β)) (lines : List Reading.Line) :
    Run β Exit := do
  let input := Reading.Cursor.ofLines lines
  modify fun s => { s with input := input }
  flush
  loop c specials (input.size + 2)

/-- The declaration of the namespace a session starts in. -/
def startingForm (ns : String) : Form := .list .start [.symbol "ns" .start, .symbol ns .start]

/-- Sets the backend up, declares the current namespace, and runs. -/
def start (c : Setting β) (specials : Table String (Special β)) (lines : List Reading.Line) :
    Run β Exit := do
  setUp c
  printText banner
  let e ← evaluateForm c promptFile .identity (startingForm (← get).state.ns)
  if e.result.isSuccess then run c specials lines
  else throw (.evaluationFailed e.result.value)

/-- A whole session. The backend is torn down at the end, and a failure of that is ignored. -/
def runSession (c : Setting β) (specials : Table String (Special β))
    (lines : List Reading.Line) : Run β Exit := fun s =>
  match start c specials lines s with
  | .ok exit s =>
    match tearDown c s with
    | .ok _ s | .error _ s => .ok exit s
  | .error e s =>
    match tearDown c s with
    | .ok _ s | .error _ s => .error e s

end LiveLisp.Session
