import LiveLisp.Json.Number
import LiveLisp.Script.Literal
/-!
# JSON values

A value as it was written: members of an object in order, also those with equal names. A string
whose escapes name half of a surrogate pair has no text.
-/

namespace LiveLisp.Json

open Script (jsonString)

/-- A JSON value as written. -/
inductive Value where
  | null
  | bool (value : Bool)
  | number (text : NumberText)
  | str (text : Option String)
  | array (items : List Value)
  | object (members : List (Option String × Value))
  deriving Repr, Inhabited

/-- A JSON value that can be printed: names of members are known, numbers are in range. -/
inductive Datum where
  | null
  | bool (value : Bool)
  | number (value : Number)
  | str (text : String)
  | array (items : List Datum)
  | object (members : List (String × Datum))
  deriving Repr, Inhabited

/-- Puts a member into members sorted by name; one of the same name is replaced. -/
def insertMember (name : String) (value : Datum) :
    List (String × Datum) → List (String × Datum)
  | [] => [(name, value)]
  | (n, v) :: rest =>
    if name = n then (n, value) :: rest
    else if name < n then (name, value) :: (n, v) :: rest
    else (n, v) :: insertMember name value rest

namespace Value

mutual

/-- How deep arrays and objects are nested. -/
def depth : Value → Nat
  | .array items => depthItems items + 1
  | .object members => depthMembers members + 1
  | _ => 0

def depthItems : List Value → Nat
  | [] => 0
  | x :: rest => max (depth x) (depthItems rest)

def depthMembers : List (Option String × Value) → Nat
  | [] => 0
  | (_, x) :: rest => max (depth x) (depthMembers rest)

end

mutual

/-- The printable value: members sorted by name, the last one of equal names. Nothing if a string
has no text or a number is out of range. -/
def datum? : Value → Option Datum
  | .null => some .null
  | .bool b => some (.bool b)
  | .number t => t.value?.map .number
  | .str t => t.map .str
  | .array items => (dataItems? items).map .array
  | .object members => (dataMembers? [] members).map .object

def dataItems? : List Value → Option (List Datum)
  | [] => some []
  | x :: rest =>
    match datum? x, dataItems? rest with
    | some d, some ds => some (d :: ds)
    | _, _ => none

def dataMembers? (done : List (String × Datum)) :
    List (Option String × Value) → Option (List (String × Datum))
  | [] => some done
  | (some name, x) :: rest =>
    match datum? x with
    | some d => dataMembers? (insertMember name d done) rest
    | none => none
  | (none, _) :: _ => none

end

/-- The text of a string. -/
def text? : Value → Option String
  | .str t => t
  | _ => none

/-- A whole number that is not negative and below `bound`. -/
def nat? (bound : Nat) : Value → Option Nat
  | .number t =>
    match t.value? with
    | some (.int n) => if 0 ≤ n ∧ n < bound then some n.toNat else none
    | _ => none
  | _ => none

/-- Null as nothing, anything else as `read` says. -/
def optional? {α : Type} (read : Value → Option α) : Value → Option (Option α)
  | .null => some none
  | v => (read v).map some

/-- The items of an array, each read by `read`. -/
def list? {α : Type} (read : Value → Option α) : Value → Option (List α)
  | .array items => items.mapM read
  | _ => none

/-- The values of a record with the given field names: from an object, whose other members are
ignored and which may name a field only once, or from an array in the order of the fields. -/
def record? (fields : List String) : Value → Option (List (Option Value))
  | .object members =>
    if members.any (fun m => m.1.isNone) then none
    else
      fields.mapM fun field =>
        match members.filter (fun m => m.1 = some field) with
        | [] => some none
        | [(_, v)] => some (some v)
        | _ => none
  | .array items =>
    if items.length ≤ fields.length then
      some (items.map some ++ List.replicate (fields.length - items.length) none)
    else none
  | _ => none

end Value

namespace Datum

mutual

/-- The text of a value without blanks. -/
def render : Datum → String
  | .null => "null"
  | .bool true => "true"
  | .bool false => "false"
  | .number n => n.render
  | .str s => jsonString s
  | .array items => "[" ++ renderItems items ++ "]"
  | .object members => "\x7b" ++ renderMembers members ++ "\x7d"

def renderItems : List Datum → String
  | [] => ""
  | [x] => render x
  | x :: y :: rest => render x ++ "," ++ renderItems (y :: rest)

def renderMembers : List (String × Datum) → String
  | [] => ""
  | [(n, x)] => jsonString n ++ ":" ++ render x
  | (n, x) :: m :: rest => jsonString n ++ ":" ++ render x ++ "," ++ renderMembers (m :: rest)

end

end Datum

end LiveLisp.Json
