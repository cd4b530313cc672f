import LiveLisp.Reading.Token
/-!
# Reading forms

One read ends at the start of a line with nothing to read on the line before it, at the end of
the input, or with a form. A form may go over several lines; after a failure the rest of the line
is dropped.
-/

namespace LiveLisp.Reading

open Text (Position)

/-- How a read ended. -/
inductive Outcome where
  | lineStart
  | streamEnd
  | form (form : Form)
  deriving Repr, Inhabited

/-- Takes four characters of a `\u` escape; `pos` is where the escape stands. -/
def readUnicodeEscape (start pos : Position) : Reader Char := do
  let a ← next start
  let b ← next start
  let c ← next start
  let d ← next start
  match (hexNumber? [a, b, c, d]).bind charOfCode? with
  | some ch => return ch
  | none => throw (.invalidEscape 'u' pos)

/-- The character that an escape after a backslash stands for. -/
def readEscape (start : Position) : Reader Char := do
  let pos ← currentPosition
  match ← next start with
  | 'n' => return '\n'
  | 't' => return '\t'
  | 'r' => return '\r'
  | 'b' => return Char.ofNat 8
  | 'f' => return Char.ofNat 12
  | '"' => return '"'
  | '\\' => return '\\'
  | 'u' => readUnicodeEscape start pos
  | other => throw (.invalidEscape other pos)

/-- The characters of a string up to its closing quote. -/
def readString (start : Position) : Nat → Reader (List Char)
  | 0 => throw (.unexpectedEnd start)
  | fuel + 1 => do
    match ← next start with
    | '"' => return []
    | '\\' => do
      let ch ← readEscape start
      let rest ← readString start fuel
      return ch :: rest
    | ch => do
      let rest ← readString start fuel
      return ch :: rest

/-- The character after a backslash. -/
def readChar (start : Position) : Reader Char := do
  let first ← next start
  let more ← takeUntil isTerminator
  match namedChar? (first :: more) with
  | some ch => return ch
  | none => throw (.invalidToken (String.ofList ('\\' :: first :: more)) start)

/-- The value of the token that begins with `first`. -/
def readToken (first : Char) (start : Position) : Reader Atom := do
  let more ← takeUntil isTerminator
  match atom? (first :: more) with
  | some a => return a
  | none => throw (.invalidToken (String.ofList (first :: more)) start)

/-- Whether the cursor stands before a discard mark `#_`. -/
def atDiscard : Reader Bool := fun c =>
  match c.rest with
  | '#' :: '_' :: _ => .ok true c
  | _ => .ok false c

/-- Reads on after the first character of a form, which stands at `start`. `form` reads a form
inside it, `items` forms up to a closing delimiter, and `text` the characters of a string. -/
def readBody (form : Reader Form) (items : Char → Reader (List Form)) (text : Reader (List Char))
    (start : Position) : Char → Reader Form
  | '(' => return .list start (← items ')')
  | '[' => return .vector start (← items ']')
  | '\x7b' => do
    match Form.pairUp (← items '\x7d') with
    | some entries => return .map start entries
    | none => throw (.oddMap start)
  | ')' => throw (.unmatched ')' start)
  | ']' => throw (.unmatched ']' start)
  | '\x7d' => throw (.unmatched '\x7d' start)
  | '"' => return .str (String.ofList (← text)) start
  | '\x27' => return .list start [.symbol "quote" start, ← form]
  | '@' => return .list start [.symbol "deref" start, ← form]
  | '^' => do
    let _ ← form
    form
  | '\\' => return .atom start (.char (← readChar start))
  | '#' => do
    match ← peek with
    | some '\x7b' => do
      skip 1
      return .set start (← items '\x7d')
    | some d => do
      skip 1
      throw (.unsupportedDispatch d start)
    | none => throw (.unexpectedEnd start)
  | ch => return .atom start (← readToken ch start)

mutual

/-- Passes over separators, comments and discarded forms. -/
def skipInsignificant : Nat → Reader Unit
  | 0 => return
  | fuel + 1 => do
    match ← peek with
    | none => return
    | some ch =>
      if isSeparator ch then do
        skip 1
        skipInsignificant fuel
      else if ch = ';' then do
        modify Cursor.discardLine
        skipInsignificant fuel
      else if ← atDiscard then do
        skip 2
        let _ ← readForm fuel
        skipInsignificant fuel
      else return

/-- Reads one form. -/
def readForm : Nat → Reader Form
  | 0 => fun c => .error (.unexpectedEnd c.position) c
  | fuel + 1 => do
    skipInsignificant fuel
    let start ← currentPosition
    let ch ← next start
    readBody (readForm fuel) (fun close => readItems close start fuel) (readString start fuel)
      start ch

/-- Reads forms up to the closing delimiter. -/
def readItems (close : Char) (start : Position) : Nat → Reader (List Form)
  | 0 => throw (.unexpectedEnd start)
  | fuel + 1 => do
    skipInsignificant fuel
    match ← peek with
    | none => throw (.unexpectedEnd start)
    | some ch =>
      if ch = close then do
        skip 1
        return []
      else do
        let item ← readForm fuel
        let rest ← readItems close start fuel
        return item :: rest

end

/-- What stands before a form: the start of a line, the end of the input, or the form itself. -/
inductive Approach where
  | lineStart
  | streamEnd
  | body
  deriving DecidableEq, Repr

/-- Passes over separators before a form, asking for a line with `prompt` when the current one
is used up. -/
def approach (prompt : String) : Nat → Reader Approach
  | 0 => return .streamEnd
  | fuel + 1 => fun c =>
    match c.rest with
    | [] =>
      match fetch prompt c with
      | .ok true c => approach prompt fuel c
      | .ok false c => .ok .streamEnd c
      | .error e c => .error e c
    | ch :: _ =>
      if ch = '\n' then .ok .lineStart (c.advance 1)
      else if ch = ';' then .ok .lineStart c.discardLine
      else if isSeparator ch then approach prompt fuel (c.advance 1)
      else .ok .body c

/-- After a form, passes over the rest of the line if it is blank. -/
def skipLineEnd (c : Cursor) : Cursor :=
  let blanks := c.rest.takeWhile (fun ch => ch != '\n' && isSeparator ch)
  if (c.rest.drop blanks.length).head? = some '\n' then c.advance (blanks.length + 1) else c

/-- Steps enough for any read from this cursor. -/
def Cursor.steps (c : Cursor) : Nat := 2 * c.size + 4

/-- Reads the next form of the input. `prompt` goes with a request for a line before the form
begins. -/
def read (prompt : String) : Reader Outcome := fun c =>
  match approach prompt c.steps c with
  | .error e c => .error e c
  | .ok .lineStart c => .ok .lineStart c
  | .ok .streamEnd c => .ok .streamEnd c
  | .ok .body c =>
    match readForm c.steps c with
    | .ok form c => .ok (.form form) (skipLineEnd c)
    | .error e c => .error e c.discardLine

/-- Reads every form up to the end of the input, stopping at the first failure. -/
def readRest : Nat → Cursor → Except ReadError (List Form)
  | 0, _ => .ok []
  | fuel + 1, c =>
    match read "" c with
    | .error e _ => .error e
    | .ok .streamEnd _ => .ok []
    | .ok .lineStart c => readRest fuel c
    | .ok (.form form) c => (readRest fuel c).map (form :: ·)

/-- Every form of a text. -/
def readAll (text : String) : Except ReadError (List Form) :=
  let c := Cursor.ofLines (linesOfText text)
  readRest (c.size + 2) c

end LiveLisp.Reading
