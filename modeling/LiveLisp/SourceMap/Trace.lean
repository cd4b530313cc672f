import LiveLisp.Files.Tree
import LiveLisp.Munge
import LiveLisp.Reading.Reader
import LiveLisp.SourceMap.Codec
/-!
# Stack traces in source positions

A frame of a stack trace names a generated file. If the source of that file lies beside it and
declares a namespace, the frame is shown with the namespace and the source position; otherwise as
it is. What was found out about a file is kept for later frames.
-/

namespace LiveLisp.SourceMap

open Text (Position)
open Files (Pathname Tree Component)

/-- One frame of a stack trace, in a generated file below the output directory. -/
structure Frame where
  file : String
  function : Option String
  line : Nat
  column : Nat
  deriving DecidableEq, Repr, Inhabited

/-- A namespace and the source file that declares it. -/
structure Declared where
  ns : String
  path : Pathname
  deriving DecidableEq, Repr, Inhabited

/-- What is known about generated files, by the components of their paths. -/
structure Tracer where
  outputDir : Pathname
  maps : Table (List Component) (Option Map)
  declared : Table (List Component) (Option Declared)
  deriving Repr, Inhabited

/-- The name of the map file of a generated file. -/
def mapFile (p : Pathname) : Pathname := p.addSuffix ".map"

/-- The source map in a file; a file that is not there has none. -/
def Map.load (t : Tree) (file : Pathname) : Except MapError (Option Map) :=
  match t.readText file with
  | .ok text =>
    match Map.ofJson text with
    | .ok m => .ok (some m)
    | .error e => .error e
  | .error .notFound => .ok none
  | .error e => .error (.unreadable e.message)

/-- The namespace that the first declaration with a name declares. -/
def declaredName? (forms : List Form) : Option String :=
  forms.findSome? fun f =>
    match f with
    | .list _ (head :: name :: _) =>
      if head.plainName? = some "ns" then name.symbol?.map Symbol.name else none
    | _ => none

/-- The namespace a source file declares. -/
def Declared.load? (t : Tree) (file : Pathname) : Option Declared :=
  match t.readText file with
  | .error _ => none
  | .ok text =>
    match Reading.readAll text with
    | .error _ => none
    | .ok forms => (declaredName? forms).map (⟨·, file⟩)

/-- A frame as a line of text. -/
def frameText (function : Option String) (file : String) (pos : Position) : String :=
  match function with
  | some f => "\t" ++ f ++ " (" ++ file ++ ":" ++ pos.render ++ ")"
  | none => "\t" ++ file ++ ":" ++ pos.render

/-- The name of a generated function: what follows its last dot or dollar sign, demunged. -/
def functionName (name : String) : String :=
  let last := (name.toList.reverse.takeWhile (fun c => c ≠ '$' ∧ c ≠ '.')).reverse
  Munge.demunge (String.ofList last)

/-- A path as it is spelled from the current directory. -/
def shownPath (t : Tree) (p : Pathname) : String := ((p.below? t.cwdText).getD p).text

namespace Tracer

/-- Nothing is known yet. -/
def fresh (outputDir : Pathname) : Tracer := ⟨outputDir, .empty, .empty⟩

/-- The namespace declared by the source beside a generated file. -/
def lookDeclared (r : Tracer) (t : Tree) (js : Pathname) : Option Declared × Tracer :=
  match r.declared.get? js.components with
  | some known => (known, r)
  | none =>
    let found := Declared.load? t (js.withExtension "cljs")
    (found, { r with declared := r.declared.insert js.components found })

/-- The source map of a generated file; a broken one counts as none. -/
def lookMap (r : Tracer) (t : Tree) (js : Pathname) : Option Map × Tracer :=
  match r.maps.get? js.components with
  | some known => (known, r)
  | none =>
    let found := match Map.load t (mapFile js) with
      | .ok m => m
      | .error _ => none
    (found, { r with maps := r.maps.insert js.components found })

/-- The line for one frame. -/
def frame (r : Tracer) (t : Tree) (f : Frame) : String × Tracer :=
  let js := r.outputDir.join f.file
  let pos : Position := ⟨f.line, f.column⟩
  match r.lookDeclared t js with
  | (none, r) => (frameText f.function f.file pos, r)
  | (some source, r) =>
    let (map, r) := r.lookMap t js
    let pos := match map with
      | some m => m.locate pos
      | none => pos
    let name := match f.function with
      | some g => source.ns ++ "/" ++ functionName g
      | none => source.ns
    (frameText (some name) (shownPath t source.path) pos, r)

/-- The lines for frames, in order. -/
def frames (r : Tracer) (t : Tree) : List Frame → String × Tracer
  | [] => ("", r)
  | f :: rest =>
    let (line, r) := r.frame t f
    let (more, r) := r.frames t rest
    (line ++ "\n" ++ more, r)

end Tracer

end LiveLisp.SourceMap
