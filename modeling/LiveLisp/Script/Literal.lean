import LiveLisp.Decimal.Notation
import LiveLisp.Form.Basic
/-!
# Script literals

Strings are written with the escapes of JSON, and additionally the two Unicode line separators,
which a script may not hold inside a string.
-/

namespace LiveLisp.Script

open Decimal (Double)

/-- A hexadecimal digit in lower case. -/
def hexDigit (n : Nat) : Char := Nat.digitChar (n % 16)

/-- `\u` with four hexadecimal digits. -/
def unicodeEscape (n : Nat) : List Char :=
  ['\\', 'u', hexDigit (n / 4096), hexDigit (n / 256), hexDigit (n / 16), hexDigit n]

/-- What stands for a character between the quotes of a JSON string. -/
def jsonEscape (c : Char) : List Char :=
  if c = '"' then ['\\', '"']
  else if c = '\\' then ['\\', '\\']
  else if c = '\n' then ['\\', 'n']
  else if c = '\r' then ['\\', 'r']
  else if c = '\t' then ['\\', 't']
  else if c.toNat = 8 then ['\\', 'b']
  else if c.toNat = 12 then ['\\', 'f']
  else if c.toNat < 32 then unicodeEscape c.toNat
  else [c]

/-- A JSON string literal. -/
def jsonString (text : String) : String :=
  String.ofList ('"' :: text.toList.flatMap jsonEscape ++ ['"'])

/-- What stands for a character between the quotes of a script string. -/
def scriptEscape (c : Char) : List Char :=
  if c.toNat = 0x2028 ∨ c.toNat = 0x2029 then unicodeEscape c.toNat else jsonEscape c

/-- A script string literal. -/
def stringLiteral (text : String) : String :=
  String.ofList ('"' :: text.toList.flatMap scriptEscape ++ ['"'])

/-- A script number; the negative infinity stands in parentheses. -/
def numberLiteral : Double → String
  | .infinite false => "Infinity"
  | .infinite true => "(-Infinity)"
  | x => String.ofList x.positional

/-- A call that builds a symbol or a keyword from its namespace and its name. -/
def nameCall (constructor : String) (s : Symbol) : String :=
  match s.ns with
  | some ns => constructor ++ "(" ++ stringLiteral ns ++ ", " ++ stringLiteral s.name ++ ")"
  | none => constructor ++ "(" ++ stringLiteral s.name ++ ")"

/-- The expression for a value without parts. -/
def atomLiteral : Atom → String
  | .nil => "null"
  | .bool true => "true"
  | .bool false => "false"
  | .int n => toString n
  | .float x => numberLiteral x
  | .str s => stringLiteral s
  | .char c => stringLiteral c.toString
  | .keyword k => nameCall "cljs.core.keyword" k
  | .symbol s => nameCall "cljs.core.symbol" s

mutual

/-- The expression that builds a form as data. -/
def datum : Form → String
  | .atom _ a => atomLiteral a
  | .list _ [] => "cljs.core.List.EMPTY"
  | .list _ (x :: xs) => "cljs.core.list(" ++ dataItems (x :: xs) ++ ")"
  | .vector _ xs => "cljs.core.PersistentVector.fromArray([" ++ dataItems xs ++ "], true)"
  | .set _ xs => "cljs.core.PersistentHashSet.fromArray([" ++ dataItems xs ++ "], true)"
  | .map _ es =>
    "cljs.core.PersistentArrayMap.fromArray([" ++ dataEntries es ++ "], true, false)"

/-- The expressions of forms with commas between them. -/
def dataItems : List Form → String
  | [] => ""
  | [x] => datum x
  | x :: y :: rest => datum x ++ ", " ++ dataItems (y :: rest)

/-- The expressions of keys and values with commas between them. -/
def dataEntries : List (Form × Form) → String
  | [] => ""
  | [(k, v)] => datum k ++ ", " ++ datum v
  | (k, v) :: e :: rest => datum k ++ ", " ++ datum v ++ ", " ++ dataEntries (e :: rest)

end

end LiveLisp.Script
