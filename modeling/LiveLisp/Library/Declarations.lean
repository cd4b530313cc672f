import LiveLisp.Distinct
import LiveLisp.Text.Blank
import LiveLisp.Text.Word
/-!
# Declarations in compiled units

A compiled unit says which namespaces it provides and requires by calls with one quoted name.
They are found in the text wherever they stand.
-/

namespace LiveLisp.Library

open Text

/-- The characters of a namespace name. -/
def isNameChar (c : Char) : Bool := isWord c || c == '.' || c == '$' || c == '-'

/-- Either kind of quote. -/
def isQuote (c : Char) : Bool := c == '\x27' || c == '"'

/-- The name in a call of `function` at the start of a text, and what follows the call. -/
def callAt? (function : List Char) (text : List Char) : Option (List Char × List Char) :=
  if function.isPrefixOf text then
    match (text.drop function.length).dropWhile isBlank with
    | quote :: rest =>
      if isQuote quote then
        match rest.span isNameChar with
        | (name@(_ :: _), close :: rest) =>
          if isQuote close then
            match rest.dropWhile isBlank with
            | ')' :: rest => some (name, rest)
            | _ => none
          else none
        | _ => none
      else none
    | [] => none
  else none

/-- The names in calls of `function`, after passing over `skip` characters. -/
def callsFrom (function : List Char) (skip : Nat) : List Char → List String
  | [] => []
  | c :: rest =>
    match skip with
    | k + 1 => callsFrom function k rest
    | 0 =>
      match callAt? function (c :: rest) with
      | some (name, after) =>
        String.ofList name :: callsFrom function (rest.length - after.length) rest
      | none => callsFrom function 0 rest

/-- The namespaces a unit provides. -/
def providesOf (js : String) : List String :=
  distinct (callsFrom "goog.provide(".toList 0 js.toList)

/-- The namespaces a unit requires. -/
def requiresOf (js : String) : List String :=
  distinct (callsFrom "goog.require(".toList 0 js.toList)

end LiveLisp.Library
