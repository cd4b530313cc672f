import LiveLisp.Bounds
import LiveLisp.Decimal.Double
import LiveLisp.Text.Digits
/-!
# Tokens of configuration files

Keys, strings, numbers and dates, each read from the front of a text.
-/

namespace LiveLisp.Toml

open Text (digitValue? number?)

/-- Reads something from the front of a text. -/
abbrev Parse (α : Type) := List Char → Option (α × List Char)

/-- Blanks inside a line. -/
def isLineBlank (c : Char) : Bool := c == ' ' || c == '\t'

/-- Passes over blanks inside a line. -/
def skipLineBlanks (text : List Char) : List Char := text.dropWhile isLineBlank

/-- Visible characters, blanks, and everything beyond ASCII; no control characters. -/
def isPlainText (c : Char) : Bool :=
  c == '\t' || (0x20 ≤ c.toNat && c.toNat ≤ 0x7e) || 0x80 ≤ c.toNat

/-- A newline, with or without a carriage return. -/
def newline? : List Char → Option (List Char)
  | '\n' :: rest => some rest
  | '\r' :: '\n' :: rest => some rest
  | _ => none

/-- Passes over a comment, up to the end of its line. -/
def skipComment : List Char → List Char
  | '#' :: rest => rest.dropWhile isPlainText
  | text => text

/-- The end of a line: blanks, maybe a comment, and a newline or the end of the text. -/
def lineEnd? (text : List Char) : Option (List Char) :=
  match skipComment (skipLineBlanks text) with
  | [] => some []
  | rest => newline? rest

/-- Passes over blanks, comments and newlines. -/
def skipLines : Nat → List Char → Option (List Char)
  | 0, text => some text
  | fuel + 1, text =>
    match skipLineBlanks text with
    | '#' :: rest =>
      match newline? (skipComment ('#' :: rest)) with
      | some rest => skipLines fuel rest
      | none => none
    | rest =>
      match newline? rest with
      | some rest => skipLines fuel rest
      | none => some rest

/-! ## Strings -/

/-- The character with the code that hexadecimal digits write. -/
def scalar? (digits : List Char) : Option Char :=
  match number? 16 digits with
  | some n => if h : n.isValidChar then some (Char.ofNatAux n h) else none
  | none => none

/-- The character that `n` hexadecimal digits name. -/
def codeEscape? (n : Nat) (text : List Char) : Option (Char × List Char) :=
  if text.length < n then none
  else (scalar? (text.take n)).map fun c => (c, text.drop n)

/-- The character after a backslash. -/
def escape? : Parse Char
  | 'b' :: rest => some (Char.ofNat 8, rest)
  | 'f' :: rest => some (Char.ofNat 12, rest)
  | 'n' :: rest => some ('\n', rest)
  | 'r' :: rest => some ('\r', rest)
  | 't' :: rest => some ('\t', rest)
  | '"' :: rest => some ('"', rest)
  | '\\' :: rest => some ('\\', rest)
  | 'u' :: rest => codeEscape? 4 rest
  | 'U' :: rest => codeEscape? 8 rest
  | _ => none

/-- A string on one line after its opening quote. -/
def basicString? : Nat → Parse (List Char)
  | 0, _ => none
  | _ + 1, [] => none
  | fuel + 1, c :: rest =>
    if c = '"' then some ([], rest)
    else if c = '\\' then do
      let (ch, rest) ← escape? rest
      let (more, rest) ← basicString? fuel rest
      return (ch :: more, rest)
    else if isPlainText c then do
      let (more, rest) ← basicString? fuel rest
      return (c :: more, rest)
    else none

/-- A string on one line without escapes, after its opening quote. -/
def literalString? : Parse (List Char)
  | [] => none
  | c :: rest =>
    if c = '\x27' then some ([], rest)
    else if isPlainText c then (literalString? rest).map fun (more, rest) => (c :: more, rest)
    else none

/-- Passes over all blanks and newlines. -/
def skipBlankLines : List Char → List Char
  | '\r' :: '\n' :: rest => skipBlankLines rest
  | c :: rest => if c = '\n' ∨ isLineBlank c then skipBlankLines rest else c :: rest
  | [] => []

/-- What follows a backslash at the end of a line: the next text that is not blank. -/
def continuedLine? (text : List Char) : Option (List Char) :=
  (newline? (skipLineBlanks text)).map skipBlankLines

/-- A string over several lines after its opening quotes. Three quotes close it, and up to two
more before them belong to it. Without `escapes`, a backslash is an ordinary character. -/
def multilineString? (quote : Char) (escapes : Bool) : Nat → Parse (List Char)
  | 0, _ => none
  | _ + 1, [] => none
  | fuel + 1, c :: rest =>
    if c = quote then
      let quotes := (c :: rest).takeWhile (· = quote)
      let after := (c :: rest).drop quotes.length
      if quotes.length < 3 then
        (multilineString? quote escapes fuel after).map fun (more, rest) => (quotes ++ more, rest)
      else if quotes.length ≤ 5 then some (quotes.drop 3, after)
      else none
    else if c = '\\' && escapes then
      match continuedLine? rest with
      | some rest => multilineString? quote escapes fuel rest
      | none => do
        let (ch, rest) ← escape? rest
        let (more, rest) ← multilineString? quote escapes fuel rest
        return (ch :: more, rest)
    else
      match newline? (c :: rest) with
      | some rest =>
        (multilineString? quote escapes fuel rest).map fun (more, rest) => ('\n' :: more, rest)
      | none =>
        if isPlainText c then
          (multilineString? quote escapes fuel rest).map fun (more, rest) => (c :: more, rest)
        else none

/-- The text without a newline at its front. -/
def dropNewline (text : List Char) : List Char := (newline? text).getD text

/-- A string in any of the four notations. -/
def string? (text : List Char) : Option (List Char × List Char) :=
  match text with
  | '"' :: '"' :: '"' :: rest => multilineString? '"' true (text.length + 1) (dropNewline rest)
  | '"' :: rest => basicString? (text.length + 1) rest
  | '\x27' :: '\x27' :: '\x27' :: rest =>
    multilineString? '\x27' false (text.length + 1) (dropNewline rest)
  | '\x27' :: rest => literalString? rest
  | _ => none

/-! ## Keys -/

/-- Characters of a key without quotes. -/
def isBareKey (c : Char) : Bool := c.isAlphanum || c == '-' || c == '_'

/-- A single key, bare or in quotes. -/
def simpleKey? (text : List Char) : Option (String × List Char) :=
  match text with
  | '"' :: rest =>
    (basicString? (text.length + 1) rest).map fun (k, rest) => (String.ofList k, rest)
  | '\x27' :: rest => (literalString? rest).map fun (k, rest) => (String.ofList k, rest)
  | _ =>
    match text.span isBareKey with
    | ([], _) => none
    | (k, rest) => some (String.ofList k, rest)

/-- Keys with dots between them, and blanks around each. -/
def keys? : Nat → Parse (List String)
  | 0, _ => none
  | fuel + 1, text => do
    let (k, rest) ← simpleKey? (skipLineBlanks text)
    match skipLineBlanks rest with
    | '.' :: rest =>
      let (ks, rest) ← keys? fuel rest
      return (k :: ks, rest)
    | rest => return ([k], rest)

/-- How many keys a dotted key has at most. -/
def maxKeys : Nat := 79

/-- A dotted key: the keys before the last, and the last. -/
def dottedKey? (text : List Char) : Option ((List String × String) × List Char) :=
  match keys? maxKeys text with
  | none => none
  | some (ks, rest) => ks.getLast?.map fun k => ((ks.dropLast, k), rest)

/-! ## Numbers -/

/-- Digits after the first one; a single underscore may stand between two digits. -/
def moreDigits? (isDigit : Char → Bool) : Parse (List Char)
  | [] => some ([], [])
  | ['_'] => none
  | '_' :: c :: rest =>
    if isDigit c then (moreDigits? isDigit rest).map fun (ds, rest) => (c :: ds, rest) else none
  | c :: rest =>
    if isDigit c then (moreDigits? isDigit rest).map fun (ds, rest) => (c :: ds, rest)
    else some ([], c :: rest)

/-- At least one digit. -/
def digits? (isDigit : Char → Bool) : Parse (List Char)
  | c :: rest =>
    if isDigit c then (moreDigits? isDigit rest).map fun (ds, rest) => (c :: ds, rest) else none
  | [] => none

/-- The sign of a number: whether it is negative, and what follows. -/
def sign : List Char → Bool × List Char
  | '+' :: rest => (false, rest)
  | '-' :: rest => (true, rest)
  | text => (false, text)

/-- A decimal number without leading zeros: its sign and its digits. -/
def decimal? (text : List Char) : Option ((Bool × List Char) × List Char) :=
  match sign text with
  | (negative, '0' :: rest) => some ((negative, ['0']), rest)
  | (negative, rest) => (digits? Char.isDigit rest).map fun (ds, rest) => ((negative, ds), rest)

/-- A number that fits in 64 bits with its sign. -/
def fitting? (negative : Bool) (n : Nat) : Option Int :=
  let value : Int := if negative then -n else n
  if fitsInt64 value then some value else none

/-- Digits of the bases that have a mark of their own. -/
def isDigitOf (base : Nat) (c : Char) : Bool :=
  match digitValue? c with
  | some d => d < base
  | none => false

/-- An unsigned integer in a marked base, after the mark. -/
def marked? (base : Nat) (text : List Char) : Option (Int × List Char) := do
  let (ds, rest) ← digits? (isDigitOf base) text
  return (← fitting? false (← number? base ds), rest)

/-- An integer. -/
def integer? (text : List Char) : Option (Int × List Char) :=
  match text with
  | '0' :: 'x' :: rest => marked? 16 rest
  | '0' :: 'o' :: rest => marked? 8 rest
  | '0' :: 'b' :: rest => marked? 2 rest
  | _ => do
    let ((negative, ds), rest) ← decimal? text
    return (← fitting? negative (Nat.ofDigitChars 10 ds 0), rest)

/-- The exponent of a float, after its mark. -/
def exponent? (text : List Char) : Option (Int × List Char) :=
  let (negative, rest) := sign text
  (digits? Char.isDigit rest).map fun (ds, rest) =>
    let n := Nat.ofDigitChars 10 ds 0
    ((if negative then -(n : Int) else n), rest)

/-- Whether a text begins with the mark of an exponent. -/
def isExponentMark (c : Char) : Bool := c == 'e' || c == 'E'

/-- What follows the integer part of a float: fraction digits and the exponent. -/
def floatTail? (text : List Char) : Option ((List Char × Int) × List Char) :=
  match text with
  | '.' :: rest => do
    let (fraction, rest) ← digits? Char.isDigit rest
    match rest with
    | mark :: after =>
      if isExponentMark mark then
        let (e, rest) ← exponent? after
        return ((fraction, e), rest)
      else return ((fraction, 0), rest)
    | [] => return ((fraction, 0), rest)
  | mark :: after =>
    if isExponentMark mark then (exponent? after).map fun (e, rest) => (([], e), rest) else none
  | [] => none

/-- Infinity or not a number, with or without a sign. -/
def specialFloat? (text : List Char) : Option (List Char) :=
  match (sign text).2 with
  | 'i' :: 'n' :: 'f' :: rest => some rest
  | 'n' :: 'a' :: 'n' :: rest => some rest
  | _ => none

/-- A float; one that rounds to positive infinity is refused. -/
def float? (text : List Char) : Option (List Char) :=
  match specialFloat? text with
  | some rest => some rest
  | none => do
    let ((negative, whole), rest) ← decimal? text
    let ((fraction, e), rest) ← floatTail? rest
    let digits := Nat.ofDigitChars 10 (whole ++ fraction) 0
    if Decimal.Double.ofDecimal negative digits (e - fraction.length) = .infinite false then none
    else return rest

/-! ## Dates and times -/

/-- Exactly `n` decimal digits. -/
def fixedDigits? (n : Nat) (text : List Char) : Option (Nat × List Char) :=
  let ds := text.take n
  if ds.length = n ∧ ds.all Char.isDigit then some (Nat.ofDigitChars 10 ds 0, text.drop n) else none

/-- A character that must come next. -/
def expect? (c : Char) : List Char → Option (List Char)
  | x :: rest => if x = c then some rest else none
  | [] => none

/-- How many days a month has. -/
def daysIn (year month : Nat) : Nat :=
  if month = 2 then
    if year % 4 = 0 ∧ (year % 100 ≠ 0 ∨ year % 400 = 0) then 29 else 28
  else if [4, 6, 9, 11].contains month then 30
  else 31

/-- A day of the calendar. -/
def day? (text : List Char) : Option (List Char) := do
  let (year, rest) ← fixedDigits? 4 text
  let rest ← expect? '-' rest
  let (month, rest) ← fixedDigits? 2 rest
  let rest ← expect? '-' rest
  let (day, rest) ← fixedDigits? 2 rest
  if 1 ≤ month ∧ month ≤ 12 ∧ 1 ≤ day ∧ day ≤ daysIn year month then some rest else none

/-- Hours and minutes. -/
def hourMinute? (text : List Char) : Option (List Char) := do
  let (hour, rest) ← fixedDigits? 2 text
  let rest ← expect? ':' rest
  let (minute, rest) ← fixedDigits? 2 rest
  if hour ≤ 23 ∧ minute ≤ 59 then some rest else none

/-- Passes over a fraction of a second. -/
def skipFraction (text : List Char) : List Char :=
  match text with
  | '.' :: c :: rest => if c.isDigit then rest.dropWhile Char.isDigit else text
  | _ => text

/-- A time of the day. -/
def time? (text : List Char) : Option (List Char) := do
  let rest ← hourMinute? text
  let rest ← expect? ':' rest
  let (second, rest) ← fixedDigits? 2 rest
  if second ≤ 60 then some (skipFraction rest) else none

/-- A distance from universal time; there may be none. -/
def offset? (text : List Char) : Option (List Char) :=
  match text with
  | 'Z' :: rest => some rest
  | 'z' :: rest => some rest
  | '+' :: rest => hourMinute? rest
  | '-' :: rest => hourMinute? rest
  | _ => some text

/-- Whether a character may stand between a day and a time. -/
def isTimeMark (c : Char) : Bool := c == 'T' || c == 't' || c == ' '

/-- A day, a day with a time, or a time. -/
def date? (text : List Char) : Option (List Char) :=
  match day? text with
  | none => time? text
  | some [] => some []
  | some (mark :: rest) =>
    if isTimeMark mark then
      match time? rest with
      | some after => offset? after
      | none => some (mark :: rest)
    else some (mark :: rest)

end LiveLisp.Toml
