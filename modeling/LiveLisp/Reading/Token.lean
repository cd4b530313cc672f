import LiveLisp.Bounds
import LiveLisp.Form.Basic
import LiveLisp.Reading.Cursor
import LiveLisp.Text.Blank
import LiveLisp.Text.Digits
/-!
# Tokens

What a run of characters between delimiters stands for: a constant, a number, a keyword or a
symbol; and the names of characters after a backslash.
-/

namespace LiveLisp.Reading

open Text (Position)
open Decimal (Double)

/-- Blanks and commas divide forms. -/
def isSeparator (c : Char) : Bool := Text.isBlank c || c == ','

/-- The characters that end a token. -/
def isTerminator (c : Char) : Bool :=
  isSeparator c || ['(', ')', '[', ']', '\x7b', '\x7d', '"', ';'].contains c

/-- The number written by hexadecimal digits, at least one of them, after an optional plus
sign. -/
def hexNumber? (text : List Char) : Option Nat :=
  match text with
  | '+' :: digits => Text.number? 16 digits
  | digits => Text.number? 16 digits

/-- The character with the given code, surrogates being none. -/
def charOfCode? (n : Nat) : Option Char :=
  if h : n.isValidChar then some (Char.ofNatAux n h) else none

/-- A leading sign, and whether it is a minus. -/
def splitSign : List Char → Bool × List Char
  | '-' :: rest => (true, rest)
  | '+' :: rest => (false, rest)
  | text => (false, text)

/-- A signed run of digits whose value fits in 64 bits. -/
def integer? (token : List Char) : Option Int :=
  let (negative, digits) := splitSign token
  if digits.isEmpty || !digits.all Char.isDigit then none
  else
    let n := Nat.ofDigitChars 10 digits 0
    let value : Int := if negative then -(n : Int) else n
    if fitsInt64 value then some value else none

/-- The decimal exponent after the digits of a float: nothing, or `e` with a signed run of
digits. -/
def exponent? : List Char → Option Int
  | [] => some 0
  | mark :: rest =>
    if mark == 'e' || mark == 'E' then
      let (negative, digits) := splitSign rest
      if digits.isEmpty || !digits.all Char.isDigit then none
      else
        let n := Nat.ofDigitChars 10 digits 0
        some (if negative then -(n : Int) else n)
    else none

/-- A float literal: sign, digits with an optional point, optional exponent. -/
def float? (token : List Char) : Option Double :=
  let (negative, body) := splitSign token
  let (whole, rest) := body.span Char.isDigit
  let (fraction, rest) := match rest with
    | '.' :: more => more.span Char.isDigit
    | _ => ([], rest)
  if whole.isEmpty && fraction.isEmpty then none
  else
    (exponent? rest).map fun e =>
      Double.ofDecimal negative (Nat.ofDigitChars 10 (whole ++ fraction) 0) (e - fraction.length)

/-- Whether a token begins like a number: a digit, perhaps after a sign. -/
def isNumeric : List Char → Bool
  | c :: rest => c.isDigit || ((c == '+' || c == '-') && rest.head?.any Char.isDigit)
  | [] => false

/-- The text after the colon of a keyword is not empty, does not begin with another colon and
does not end in a slash. -/
def isKeywordName (name : List Char) : Bool :=
  !name.isEmpty && name.head? != some ':' && name.getLast? != some '/'

/-- The value of a token, if it has one. -/
def atom? (token : List Char) : Option Atom :=
  if token = "nil".toList then some .nil
  else if token = "true".toList then some (.bool true)
  else if token = "false".toList then some (.bool false)
  else if isNumeric token then
    match integer? token with
    | some n => some (.int n)
    | none => (float? token).map .float
  else
    match token with
    | ':' :: name => if isKeywordName name then some (.keyword (Symbol.ofChars name)) else none
    | _ => some (.symbol (Symbol.ofChars token))

/-- The character named by the text after a backslash: any single character, six names, or `u`
with four more bytes of hexadecimal code. -/
def namedChar? (name : List Char) : Option Char :=
  match name with
  | [c] => some c
  | _ =>
    if name = "newline".toList then some '\n'
    else if name = "space".toList then some ' '
    else if name = "tab".toList then some '\t'
    else if name = "return".toList then some '\r'
    else if name = "backspace".toList then some (Char.ofNat 8)
    else if name = "formfeed".toList then some (Char.ofNat 12)
    else
      match name with
      | 'u' :: code =>
        if (String.ofList code).utf8ByteSize = 4 then (hexNumber? code).bind charOfCode? else none
      | _ => none

end LiveLisp.Reading
