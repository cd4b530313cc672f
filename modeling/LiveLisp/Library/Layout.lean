import LiveLisp.Library.Closure
import LiveLisp.Library.Manifest
import LiveLisp.SourceMap.Trace
/-!
# Laying units out

Units are copied with their source map and their source to an output directory, next to the base
script and the manifest. A file is never copied onto itself.
-/

namespace LiveLisp.Library

open Files (Pathname Tree FileError)
open SourceMap (mapFile)

/-- Computations on a file tree that may fail; what was written before a failure stays. -/
abbrev Build := EStateM BuildError Tree

/-- An operation on the file tree. -/
def onTree (f : Tree → Except FileError Tree) : Build Unit := fun t =>
  match f t with
  | .ok t => .ok () t
  | .error e => .error (.file e) t

/-- Whether two paths name the same existing file. -/
def sameFile (t : Tree) (p q : Pathname) : Bool :=
  match t.canonical? p, t.canonical? q with
  | some a, some b => a == b
  | _, _ => false

/-- The directory a path lies in. -/
def directoryOf (p : Pathname) : List Files.Component := p.components.dropLast

/-- Copies a file and makes the directories it needs; copying onto itself does nothing. -/
def copyFile (source target : Pathname) : Build Unit := do
  if sameFile (← get) source target then return
  onTree fun t => t.makeAlong t.cwd (directoryOf target)
  onTree fun t => t.copy source target

/-- Copies a file if it is there. -/
def copyIfFile (source target : Pathname) : Build Unit := do
  if (← get).isFile source then copyFile source target

/-- Copies a unit, its source map and its source below `outputDir`; the path of the copy. -/
def materialize (r : Record) (outputDir : Pathname) : Build Pathname := do
  let target := outputDir.join r.relPath
  copyFile r.url target
  copyIfFile (mapFile r.url) (mapFile target)
  copyIfFile (r.url.withExtension "cljs") (target.withExtension "cljs")
  return target

/-- Where the base script lies in a library. -/
def baseScript : String := "goog/base.js"

/-- Materializes the units among records, in order. -/
def materializeUnits (outputDir : Pathname) : List Record → Build Unit
  | [] => return
  | r :: rest => do
    if r.kind = .ordinary then
      let _ ← materialize r outputDir
    materializeUnits outputDir rest

/-- Lays the base script and the core namespace out below `outputDir`. -/
def compileRuntime (lib : Library) (outputDir : Pathname) : Build Unit := do
  let base := lib.root.join baseScript
  if !(← get).isFile base then throw (.missingRuntime base)
  copyFile base (outputDir.join baseScript)
  match lib.closure Analysis.coreNs with
  | .error e => throw e
  | .ok records => materializeUnits outputDir records

/-- Writes the manifest of the given records; its path. -/
def writeManifestOf (records : List Record) (outputDir : Pathname) : Build Pathname := do
  onTree fun t => t.makeDirectories outputDir
  let path := outputDir.join manifestFile
  onTree fun t => t.writeText path (manifest records)
  return path

/-- Writes the manifest of a library; its path. -/
def writeManifest (lib : Library) (outputDir : Pathname) : Build Pathname :=
  writeManifestOf lib.records outputDir

end LiveLisp.Library
