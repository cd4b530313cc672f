import LiveLisp.Reading.Line
import LiveLisp.Text.Position
/-!
# Reading position

A cursor stands in the current line with the lines to come behind it, and remembers the prompts
it asked for lines with. Reading is a computation on a cursor that may fail; a failure keeps the
cursor where it arose.
-/

namespace LiveLisp.Reading

open Text (Position)

/-- Why no form could be read. -/
inductive ReadError where
  | unexpectedEnd (start : Position)
  | unmatched (delimiter : Char) (pos : Position)
  | oddMap (pos : Position)
  | invalidToken (token : String) (pos : Position)
  | invalidEscape (escape : Char) (pos : Position)
  | unsupportedDispatch (dispatch : Char) (pos : Position)
  | input (reason : String)
  deriving DecidableEq, Repr, Inhabited

/-- The text shown for a reading failure. -/
def ReadError.message : ReadError → String
  | .unexpectedEnd p => "EOF while reading form starting at " ++ p.render
  | .unmatched d p => "Unmatched delimiter " ++ d.toString ++ " at " ++ p.render
  | .oddMap p => "Map literal must contain an even number of forms at " ++ p.render
  | .invalidToken t p => "Invalid token " ++ t ++ " at " ++ p.render
  | .invalidEscape c p => "Unsupported escape character \\" ++ c.toString ++ " at " ++ p.render
  | .unsupportedDispatch c p => "No dispatch macro for #" ++ c.toString ++ " at " ++ p.render
  | .input reason => "I/O error while reading input: " ++ reason

/-- The prompt for the next line of an unfinished form. -/
def continuationPrompt : String := "#_=> "

/-- A place in the input. `rest` is what is left of the current line, `taken` counts the
characters before it, and `line` counts the lines asked for so far. Once the input has ended it
is not asked again. -/
structure Cursor where
  rest : List Char
  taken : Nat
  line : Nat
  pending : List Line
  ended : Bool
  prompts : List String
  deriving Repr, Inhabited

namespace Cursor

/-- Before the first of the given lines. -/
def ofLines (lines : List Line) : Cursor := ⟨[], 0, 0, lines, false, []⟩

/-- Where the next character of the current line stands. -/
def position (c : Cursor) : Position := ⟨c.line, c.taken + 1⟩

/-- Passes over the rest of the current line. -/
def discardLine (c : Cursor) : Cursor :=
  { c with rest := [], taken := c.taken + c.rest.length }

/-- Stands `n` characters further in the current line. -/
def advance (c : Cursor) (n : Nat) : Cursor :=
  { c with rest := c.rest.drop n, taken := c.taken + (c.rest.take n).length }

/-- How many characters and lines are in the lines to come. -/
def pendingSize : List Line → Nat
  | [] => 0
  | .text cs :: more => cs.length + 1 + pendingSize more
  | .failed _ :: more => 1 + pendingSize more

/-- How many characters and lines are still to come. -/
def size (c : Cursor) : Nat := c.rest.length + pendingSize c.pending

end Cursor

/-- Computations that move a cursor and may fail. -/
abbrev Reader := EStateM ReadError Cursor

/-- Asks for the next line; `false` at the end of the input. -/
def fetch (prompt : String) : Reader Bool := fun c =>
  if c.ended then .ok false c
  else
    let c := { c with prompts := c.prompts ++ [prompt] }
    match c.pending with
    | [] => .ok false { c with ended := true }
    | .failed reason :: more => .error (.input reason) { c with pending := more }
    | .text cs :: more =>
      .ok true { c with rest := cs, taken := 0, line := c.line + 1, pending := more }

/-- The next character, which may be on the next line; nothing at the end of the input. -/
def peek : Reader (Option Char) := fun c =>
  match c.rest with
  | ch :: _ => .ok (some ch) c
  | [] =>
    match fetch continuationPrompt c with
    | .ok true c => .ok c.rest.head? c
    | .ok false c => .ok none c
    | .error e c => .error e c

/-- Passes over `n` characters of the current line. -/
def skip (n : Nat) : Reader Unit := fun c => .ok () (c.advance n)

/-- Where the next character of the current line stands. -/
def currentPosition : Reader Position := fun c => .ok c.position c

/-- Takes the next character, or fails because the form that began at `start` is unfinished. -/
def next (start : Position) : Reader Char := do
  match ← peek with
  | some ch => do skip 1; return ch
  | none => throw (.unexpectedEnd start)

/-- Takes the longest stretch of the current line without characters in `stop`. -/
def takeUntil (stop : Char → Bool) : Reader (List Char) := fun c =>
  let token := c.rest.takeWhile (fun ch => !stop ch)
  .ok token (c.advance token.length)

end LiveLisp.Reading
