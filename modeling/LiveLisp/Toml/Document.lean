import LiveLisp.Toml.Basic
import LiveLisp.Toml.Token
/-!
# Configuration documents

A document is a sequence of lines: headers that open tables, and keys with their values. No key
is given twice.
-/

namespace LiveLisp.Toml

/-- How deep arrays and tables in braces may be nested. -/
def maxNesting : Nat := 79

/-- A number or a date. -/
def scalarValue? (text : List Char) : Option (Value × List Char) :=
  match date? text with
  | some rest => some (.date, rest)
  | none =>
    match float? text with
    | some rest => some (.float, rest)
    | none => (integer? text).map fun (n, rest) => (.int n, rest)

/-- A value without parts. -/
def plainValue? (text : List Char) : Option (Value × List Char) :=
  match text with
  | 't' :: 'r' :: 'u' :: 'e' :: rest => some (.bool true, rest)
  | 'f' :: 'a' :: 'l' :: 's' :: 'e' :: rest => some (.bool false, rest)
  | '"' :: _ => (string? text).map fun (s, rest) => (.str (String.ofList s), rest)
  | '\x27' :: _ => (string? text).map fun (s, rest) => (.str (String.ofList s), rest)
  | _ => scalarValue? text

mutual

/-- A value; `nesting` more levels of brackets are allowed. -/
def value? : (fuel nesting : Nat) → Parse Value
  | 0, _, _ => none
  | fuel + 1, nesting, text =>
    match text, nesting with
    | '[' :: _, 0 => none
    | '[' :: rest, nesting + 1 =>
      (items? fuel nesting rest).map fun (xs, rest) => (.array xs, rest)
    | '\x7b' :: _, 0 => none
    | '\x7b' :: rest, nesting + 1 =>
      match skipLineBlanks rest with
      | '\x7d' :: rest => some (.table .braces [], rest)
      | rest => (pairs? fuel nesting [] rest).map fun (es, rest) => (.table .braces es, rest)
    | text, _ => plainValue? text

/-- The items of an array up to its closing bracket. A comma may follow the last one. -/
def items? : (fuel nesting : Nat) → Parse (List Value)
  | 0, _, _ => none
  | fuel + 1, nesting, text => do
    match ← skipLines text.length text with
    | ']' :: rest => return ([], rest)
    | text =>
      let (x, rest) ← value? fuel nesting text
      match ← skipLines rest.length rest with
      | ',' :: rest =>
        let (xs, rest) ← items? fuel nesting rest
        return (x :: xs, rest)
      | ']' :: rest => return ([x], rest)
      | _ => none

/-- The pairs of a table in braces up to its closing brace, on one line. -/
def pairs? : (fuel nesting : Nat) → Entries → Parse Entries
  | 0, _, _, _ => none
  | fuel + 1, nesting, entries, text => do
    let ((path, key), rest) ← dottedKey? text
    let rest ← expect? '=' rest
    let (x, rest) ← value? fuel nesting (skipLineBlanks rest)
    let entries ← entries.addAt .braces path key x
    match skipLineBlanks rest with
    | ',' :: rest => pairs? fuel nesting entries rest
    | '\x7d' :: rest => return (entries, rest)
    | _ => none

end

/-- What has been read of a document: its tables, and the path of the last header. -/
structure Draft where
  entries : Entries
  header : List String
  deriving Inhabited

namespace Draft

/-- A header of a table or of an array of tables, after its first bracket. -/
def openHeader? (d : Draft) (text : List Char) : Option (Draft × List Char) :=
  match text with
  | '[' :: rest => do
    let ((path, key), rest) ← dottedKey? rest
    let rest ← expect? ']' rest
    let rest ← expect? ']' rest
    let entries ← d.entries.openArray path key
    return (⟨entries, path ++ [key]⟩, rest)
  | _ => do
    let ((path, key), rest) ← dottedKey? text
    let rest ← expect? ']' rest
    let entries ← d.entries.openTable path key
    return (⟨entries, path ++ [key]⟩, rest)

/-- A key with its value. -/
def addPair? (d : Draft) (text : List Char) : Option (Draft × List Char) := do
  let ((path, key), rest) ← dottedKey? text
  let rest ← expect? '=' rest
  let rest := skipLineBlanks rest
  let (x, rest) ← value? (2 * rest.length + 2) maxNesting rest
  let entries ← d.entries.addBelow d.header path key x
  return ({ d with entries := entries }, rest)

/-- Reads line after line to the end of the text. -/
def readLines? : Nat → Draft → List Char → Option Entries
  | 0, _, _ => none
  | fuel + 1, d, text =>
    match skipLineBlanks text with
    | [] => some d.entries
    | '#' :: rest => do readLines? fuel d (← lineEnd? ('#' :: rest))
    | '\n' :: rest => readLines? fuel d rest
    | '\r' :: '\n' :: rest => readLines? fuel d rest
    | '[' :: rest => do
      let (d, rest) ← d.openHeader? rest
      readLines? fuel d (← lineEnd? rest)
    | text => do
      let (d, rest) ← d.addPair? text
      readLines? fuel d (← lineEnd? rest)

end Draft

/-- Passes over a byte order mark. -/
def skipMark : List Char → List Char
  | c :: rest => if c.toNat = 0xfeff then rest else c :: rest
  | [] => []

/-- The document that a text is, as a table. -/
def parse? (text : String) : Option Value :=
  let chars := skipMark text.toList
  (Draft.readLines? (chars.length + 1) ⟨[], []⟩ chars).map (Value.table .header ·)

end LiveLisp.Toml
