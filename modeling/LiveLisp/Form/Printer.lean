import LiveLisp.Decimal.Notation
import LiveLisp.Form.Basic
/-!
# Printed forms

The text of a form: strings and characters are escaped so that the reader takes them back, and
entries of a map are divided by commas.
-/

namespace LiveLisp

open Decimal (Double)

/-- What stands for a character between the quotes of a string. -/
def escapeChar : Char → List Char
  | '"' => ['\\', '"']
  | '\\' => ['\\', '\\']
  | '\n' => ['\\', 'n']
  | '\t' => ['\\', 't']
  | '\r' => ['\\', 'r']
  | c => [c]

/-- A string literal. -/
def quoteText (text : String) : String :=
  String.ofList ('"' :: text.toList.flatMap escapeChar ++ ['"'])

/-- A character literal: four characters have names. -/
def charLiteral : Char → String
  | '\n' => "\\newline"
  | ' ' => "\\space"
  | '\t' => "\\tab"
  | '\r' => "\\return"
  | c => String.ofList ['\\', c]

/-- Whether the magnitude is below ten to the sixteenth. -/
def isModest (x : Double) : Bool :=
  let (n, d) := x.magnitude
  n < 10000000000000000 * d

/-- A float literal: integral numbers below ten to the sixteenth keep one zero after the point. -/
def floatLiteral (x : Double) : String :=
  match x with
  | .infinite false => "##Inf"
  | .infinite true => "##-Inf"
  | .finite .. =>
    if x.isIntegral && isModest x then String.ofList x.withTenths else String.ofList x.positional

/-- The text of a value without parts. -/
def Atom.render : Atom → String
  | .nil => "nil"
  | .bool true => "true"
  | .bool false => "false"
  | .int n => toString n
  | .float x => floatLiteral x
  | .str s => quoteText s
  | .char c => charLiteral c
  | .keyword k => ":" ++ k.render
  | .symbol s => s.render

namespace Form

mutual

/-- The text of a form. -/
def render : Form → String
  | .atom _ a => a.render
  | .list _ xs => "(" ++ renderAll xs ++ ")"
  | .vector _ xs => "[" ++ renderAll xs ++ "]"
  | .set _ xs => "#\x7b" ++ renderAll xs ++ "\x7d"
  | .map _ es => "\x7b" ++ renderEntries es ++ "\x7d"

/-- The texts of forms with blanks between them. -/
def renderAll : List Form → String
  | [] => ""
  | [x] => render x
  | x :: y :: rest => render x ++ " " ++ renderAll (y :: rest)

/-- The texts of entries with commas between them. -/
def renderEntries : List (Form × Form) → String
  | [] => ""
  | [(k, v)] => render k ++ " " ++ render v
  | (k, v) :: e :: rest => render k ++ " " ++ render v ++ ", " ++ renderEntries (e :: rest)

end

end Form

end LiveLisp
