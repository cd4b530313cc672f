import LiveLisp.Script.Piece
import LiveLisp.Table
import LiveLisp.Text.Position
/-!
# Source maps

A source map gives, for a generated line and column, the source positions that the generated
text there comes from, in the order in which they were recorded. All coordinates count from zero
in 32-bit words.
-/

namespace LiveLisp.SourceMap

open Text (Position)
open Script (Mapping)

/-- One source position. -/
structure SourcePoint where
  source : Nat
  line : Nat
  column : Nat
  name : Option String
  deriving DecidableEq, Repr, Inhabited

/-- Values by ascending key. -/
abbrev Ascending (α : Type) := List (Nat × α)

/-- Changes the value under `key`, starting from `fresh` if there is none. -/
def Ascending.modify {α : Type} (fresh : α) (key : Nat) (f : α → α) :
    Ascending α → Ascending α
  | [] => [(key, f fresh)]
  | (k, v) :: rest =>
    if k = key then (k, f v) :: rest
    else if key < k then (key, f fresh) :: (k, v) :: rest
    else (k, v) :: Ascending.modify fresh key f rest

/-- A decoded source map: source positions by generated line and column. -/
structure Map where
  file : Option String
  sources : List String
  lines : Ascending (Ascending (List SourcePoint))
  deriving DecidableEq, Repr, Inhabited

namespace Map

/-- Records one more source position for a generated line and column. -/
def insert (m : Map) (line column : Nat) (point : SourcePoint) : Map :=
  { m with
    lines := Ascending.modify [] line (Ascending.modify [] column (· ++ [point])) m.lines }

/-- The map of one source with the given mappings. -/
def ofMappings (source : String) (mappings : List Mapping) : Map :=
  mappings.foldl
    (fun m g => m.insert g.genLine g.genColumn ⟨0, g.srcLine, g.srcColumn, g.name⟩)
    ⟨none, [source], []⟩

/-- Whether something is recorded for a generated line, counted from one. -/
def hasLine (m : Map) (line : Nat) : Bool :=
  0 < line && (Table.lookup (line - 1) m.lines).isSome

/-- The source positions at a generated position: those of its column, or else those of the
first column of its line. -/
def candidates (m : Map) (line column : Nat) : List SourcePoint :=
  match Table.lookup line m.lines with
  | none => []
  | some columns =>
    match Table.lookup column columns with
    | some found => found
    | none => (columns.head?.map Prod.snd).getD []

/-- The source position of a generated one: the last one recorded there. A position on a line
without mappings stays as it is. -/
def locate (m : Map) (pos : Position) : Position :=
  let (line, column) := pos.zeroBased
  match (m.candidates line column).getLast? with
  | some o => .ofZeroBased o.line o.column
  | none => pos

end Map

end LiveLisp.SourceMap
