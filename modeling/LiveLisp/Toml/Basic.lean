import LiveLisp.Table
/-!
# Configuration values

The values of a TOML document. A table remembers how it came about, because that decides how it
may be extended: a header opens each table once, dotted keys extend only tables that dotted keys
made, and a table in braces is complete.
-/

namespace LiveLisp.Toml

/-- How a table came about: by its own header, by the header of a table inside it, by a dotted
key, or in braces. -/
inductive Origin where
  | header
  | implied
  | dotted
  | braces
  deriving DecidableEq, Repr, Inhabited

/-- A value. Of floats and dates only their being there matters. -/
inductive Value where
  | str (text : String)
  | int (value : Int)
  | float
  | bool (value : Bool)
  | date
  | array (items : List Value)
  | tables (items : List (List (String × Value)))
  | table (origin : Origin) (entries : List (String × Value))
  deriving Repr, Inhabited

/-- The entries of a table in the order in which they came. -/
abbrev Entries := List (String × Value)

namespace Entries

/-- Changes the table that a path of keys leads to, making the tables on the way. Along a dotted
key only tables without a header may be entered; an array of tables stands for its last one. -/
def extend (dotted : Bool) (change : Origin → Entries → Option Entries) (origin : Origin) :
    List String → Entries → Option Entries
  | [], entries => change origin entries
  | key :: path, entries =>
    let made : Origin := if dotted then .dotted else .implied
    match Table.lookup key entries with
    | none => do
      let inner ← extend dotted change made path []
      return Table.put key (.table made inner) entries
    | some (.table .braces _) => none
    | some (.table o inner) =>
      if dotted && o == .header then none
      else do
        let inner ← extend dotted change o path inner
        return Table.put key (.table o inner) entries
    | some (.tables items) =>
      match items.getLast? with
      | none => none
      | some last => do
        let last ← extend dotted change .header path last
        return Table.put key (.tables (items.dropLast ++ [last])) entries
    | some _ => none

/-- Adds a value under a new key. After a dotted key the table must be one that dotted keys made,
and otherwise one that they did not. -/
def add (dotted : Bool) (key : String) (value : Value) (origin : Origin) (entries : Entries) :
    Option Entries :=
  if (origin == .dotted) != dotted then none
  else
    match Table.lookup key entries with
    | some _ => none
    | none => some (Table.put key value entries)

/-- Adds a value at a dotted key, given as the keys before the last and the last. -/
def addAt (origin : Origin) (path : List String) (key : String) (value : Value)
    (entries : Entries) : Option Entries :=
  entries.extend true (add (!path.isEmpty) key value) origin path

/-- Opens a table by its header. -/
def openTable (path : List String) (key : String) (entries : Entries) : Option Entries :=
  entries.extend false (fun _ inner =>
    match Table.lookup key inner with
    | none => some (Table.put key (.table .header []) inner)
    | some (.table .implied old) => some (Table.put key (.table .header old) inner)
    | some _ => none) .header path

/-- Opens one more table of an array of tables. -/
def openArray (path : List String) (key : String) (entries : Entries) : Option Entries :=
  entries.extend false (fun _ inner =>
    match Table.lookup key inner with
    | none => some (Table.put key (.tables [[]]) inner)
    | some (.tables items) => some (Table.put key (.tables (items ++ [[]])) inner)
    | some _ => none) .header path

/-- Adds a value below the table that the last header opened. -/
def addBelow (header path : List String) (key : String) (value : Value) (entries : Entries) :
    Option Entries :=
  entries.extend false (fun origin inner => inner.addAt origin path key value) .header header

end Entries

namespace Value

/-- The text of a string. -/
def text? : Value → Option String
  | .str t => some t
  | _ => none

/-- The truth of a Boolean. -/
def bool? : Value → Option Bool
  | .bool b => some b
  | _ => none

/-- A whole number that is not negative and below `bound`. -/
def nat? (bound : Nat) : Value → Option Nat
  | .int n => if 0 ≤ n ∧ n < bound then some n.toNat else none
  | _ => none

/-- The values of a record with the given field names: from a table, whose other entries are
ignored, or from an array in the order of the fields. A date has no fields. -/
def record? (fields : List String) : Value → Option (List (Option Value))
  | .table _ entries => some (fields.map fun f => Table.lookup f entries)
  | .array items => some ((List.range fields.length).map fun i => items[i]?)
  | .tables items =>
    some ((List.range fields.length).map fun i => items[i]?.map (Value.table .header ·))
  | .date => some (fields.map fun _ => none)
  | _ => none

end Value

end LiveLisp.Toml
