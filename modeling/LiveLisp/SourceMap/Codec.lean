import LiveLisp.Bounds
import LiveLisp.Json.Parser
import LiveLisp.SourceMap.Basic
import LiveLisp.SourceMap.Vlq
import LiveLisp.Text.Split
/-!
# Source maps as JSON

Mappings are written line by line, each position relative to the one before it: generated columns
start over on every line, all else runs through the whole file.
-/

namespace LiveLisp.SourceMap

open Text

/-- Why a text or a file is no source map. -/
inductive MapError where
  | unreadable (reason : String)
  | malformed
  | unsupportedVersion (version : Nat)
  | badSegment (segment : String) (fault : SegmentFault)
  deriving DecidableEq, Repr, Inhabited

/-- The text shown for a source map error. -/
def MapError.message : MapError → String
  | .unreadable reason => "IO error: " ++ reason
  | .malformed => "Invalid source map JSON"
  | .unsupportedVersion v => "Unsupported source map version " ++ toString v
  | .badSegment segment fault =>
    "Invalid mapping segment " ++ quoted segment ++ ": " ++ fault.message

/-- The absolute values that the next segment is relative to. -/
structure Previous where
  source : Int
  line : Int
  column : Int
  name : Int
  deriving DecidableEq, Repr, Inhabited

/-- Everything starts from zero. -/
def Previous.zero : Previous := ⟨0, 0, 0, 0⟩

/-! ## Writing -/

/-- The index of a name, which is added if it is new. -/
def nameIndex (names : List String) (name : String) : Nat × List String :=
  match names.findIdx? (· == name) with
  | some i => (i, names)
  | none => (names.length, names ++ [name])

/-- What the writer carries from segment to segment. -/
structure Writer where
  previous : Previous
  names : List String
  deriving DecidableEq, Repr, Inhabited

/-- The segment of one source position whose generated column is `delta` after the last. -/
def Writer.segment (w : Writer) (delta : Int) (o : SourcePoint) : List Char × Writer :=
  let p := w.previous
  let body := encodeVlq delta ++ encodeVlq (o.source - p.source) ++ encodeVlq (o.line - p.line) ++
    encodeVlq (o.column - p.column)
  match o.name with
  | none => (body, { w with previous := ⟨o.source, o.line, o.column, p.name⟩ })
  | some name =>
    let (i, names) := nameIndex w.names name
    (body ++ encodeVlq (i - p.name), ⟨⟨o.source, o.line, o.column, i⟩, names⟩)

/-- The segments of one generated column. -/
def Writer.column (w : Writer) (before column : Nat) :
    List SourcePoint → List (List Char) × Writer
  | [] => ([], w)
  | o :: rest =>
    let (s, w) := w.segment ((column : Int) - before) o
    let (ss, w) := w.column column column rest
    (s :: ss, w)

/-- The segments of one generated line. -/
def Writer.line (w : Writer) (before : Nat) :
    Ascending (List SourcePoint) → List (List Char) × Writer
  | [] => ([], w)
  | (column, os) :: rest =>
    let (ss, w) := w.column before column os
    let (more, w) := w.line column rest
    (ss ++ more, w)

/-- The lines from the generated line `start` on, empty ones included. -/
def Writer.lines (w : Writer) (start : Nat) :
    Ascending (Ascending (List SourcePoint)) → List (List Char) × Writer
  | [] => ([], w)
  | (line, columns) :: rest =>
    let (ss, w) := w.line 0 columns
    let (more, w) := w.lines (line + 1) rest
    (List.replicate (line - start) [] ++ [([','].intercalate ss)] ++ more, w)

/-- A list as a JSON array of strings. -/
def textArray (xs : List String) : Json.Datum := .array (xs.map .str)

namespace Map

/-- The names and the text of the mappings. -/
def mappingText (m : Map) : List String × String :=
  let (ls, w) := (Writer.mk .zero []).lines 0 m.lines
  (w.names, String.ofList ([';'].intercalate ls))

/-- The source map as JSON, with line count and source texts if given. -/
def toJson (m : Map) (lines : Option Nat) (contents : Option (List (Option String))) : String :=
  let (names, mappings) := m.mappingText
  let optional := fun (name : String) (value : Option Json.Datum) =>
    value.toList.map fun v => (name, v)
  Json.Datum.render <| .object <|
    [("version", .number (.int 3))] ++
    optional "file" (m.file.map .str) ++
    optional "lines" (lines.map fun n => .number (.int n)) ++
    [("sources", textArray m.sources)] ++
    optional "sourcesContent"
      (contents.map fun cs => .array (cs.map fun c => (c.map .str).getD .null)) ++
    [("names", textArray names), ("mappings", .str mappings)]

end Map

/-! ## Reading -/

/-- Addition of 64-bit words. -/
def addWord (a b : Int) : Int := Int.bmod (a + b) bound64

/-- The low 32 bits. -/
def word32 (n : Int) : Nat := (n % bound32).toNat

/-- The name at an index, if there is one. -/
def nameAt? (names : List String) (i : Int) : Option String :=
  if 0 ≤ i then names[i.toNat]? else none

/-- Takes the four or five numbers of a segment in. -/
def Previous.step (p : Previous) (names : List String) (column : Int) (source line col : Int)
    (name : Option Int) : Except SegmentFault (Previous × SourcePoint) :=
  let p := { p with
    source := addWord p.source source
    line := addWord p.line line
    column := addWord p.column col
    name := addWord p.name (name.getD 0) }
  let known := match name with
    | none => some none
    | some _ => (nameAt? names p.name).map some
  match known with
  | none => .error .nameIndex
  | some name =>
    if column < 0 ∨ p.source < 0 ∨ p.line < 0 ∨ p.column < 0 then .error .negative
    else .ok (p, ⟨word32 p.source, word32 p.line, word32 p.column, name⟩)

/-- What the reader carries from segment to segment. -/
structure Builder where
  map : Map
  previous : Previous

/-- Records a position at the generated line and column, both cut to 32 bits. -/
def Builder.place (b : Builder) (names : List String) (line : Nat)
    (column source srcLine srcColumn : Int) (name : Option Int) :
    Except SegmentFault (Builder × Int) :=
  match b.previous.step names column source srcLine srcColumn name with
  | .error e => .error e
  | .ok (p, o) => .ok (⟨b.map.insert (line % bound32) (word32 column) o, p⟩, column)

/-- Takes the numbers of one segment in; the result has the new generated column. -/
def Builder.addValues (b : Builder) (names : List String) (line : Nat) (column : Int) :
    List Int → Except SegmentFault (Builder × Int)
  | [d] => .ok (b, addWord column d)
  | [d, source, srcLine, srcColumn] =>
    b.place names line (addWord column d) source srcLine srcColumn none
  | [d, source, srcLine, srcColumn, name] =>
    b.place names line (addWord column d) source srcLine srcColumn (some name)
  | _ => .error .fieldCount

/-- Takes the segments of one generated line in. -/
def Builder.addSegments (b : Builder) (names : List String) (line : Nat) (column : Int) :
    List (List Char) → Except MapError Builder
  | [] => .ok b
  | segment :: rest =>
    if segment.isEmpty then b.addSegments names line column rest
    else
      let text := String.ofList segment
      let step := match decodeSegment text with
        | .ok values => b.addValues names line column values
        | .error e => .error e
      match step with
      | .ok (b, column) => b.addSegments names line column rest
      | .error fault => .error (.badSegment text fault)

/-- Takes generated lines in, the first having the number `line`. -/
def Builder.addLines (b : Builder) (names : List String) (line : Nat) :
    List (List Char) → Except MapError Builder
  | [] => .ok b
  | text :: rest =>
    match b.addSegments names line 0 (text.splitOn ',') with
    | .ok b => b.addLines names (line + 1) rest
    | .error e => .error e

/-- The fields of a source map file. -/
structure Fields where
  version : Nat
  file : Option String
  sources : List String
  names : List String
  mappings : String

/-- The fields in a JSON value. -/
def Fields.ofJson? (v : Json.Value) : Option Fields := do
  let texts := Json.Value.list? Json.Value.text?
  let orElse := fun {α : Type} (default : α) (read : Json.Value → Option α)
      (v : Option Json.Value) => (v.map read).getD (some default)
  match ← v.record?
      ["version", "file", "lines", "sources", "sourcesContent", "names", "mappings"] with
  | [some version, file, lines, sources, contents, names, some mappings] =>
    let version ← version.nat? bound32
    let file ← orElse none (Json.Value.optional? Json.Value.text?) file
    let _ ← orElse none (Json.Value.optional? (Json.Value.nat? bound32)) lines
    let sources ← orElse [] texts sources
    let _ ← orElse none (Json.Value.optional?
      (Json.Value.list? (Json.Value.optional? Json.Value.text?))) contents
    let names ← orElse [] texts names
    let mappings ← mappings.text?
    return ⟨version, file, sources, names, mappings⟩
  | _ => none

/-- The source map written as a JSON text. -/
def Map.ofJson (text : String) : Except MapError Map :=
  match (Json.parse text).bind Fields.ofJson? with
  | none => .error .malformed
  | some f =>
    if f.version ≠ 3 then .error (.unsupportedVersion f.version)
    else
      match (Builder.mk ⟨f.file, f.sources, []⟩ .zero).addLines f.names 0
          (f.mappings.toList.splitOn ';') with
      | .ok b => .ok b.map
      | .error e => .error e

end LiveLisp.SourceMap
