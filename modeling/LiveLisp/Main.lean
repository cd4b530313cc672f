import LiveLisp.CommandLine
/-!
# The program

Reads the arguments, the environment, the configuration, the library and the input, runs, and
shows what came of it. This executable starts no processes of its own, so every interpreter counts
as not found.
-/

namespace LiveLisp.Program

open Backend (Host)
open Files (Pathname Tree Place)

/-- A host on which no interpreter is found and nothing listens. -/
def isolatedHost : Host where
  interpreter? := fun _ _ => none
  launch := fun _ _ => .error "processes cannot be started"
  accepts := fun _ _ _ => .error "Connection refused (os error 111)"
  exited? := fun _ _ => .ok none
  undelayed := .ok ()
  duplicated := .ok ()
  transmit := fun _ _ => .error "not connected"
  stopProcess := .ok ()
  closeConnection := .ok ()

/-- The names on an absolute path. -/
def namesOf (path : String) : Place :=
  (Pathname.mk path).components.filterMap fun
    | .name n => some n
    | _ => none

/-- The place of a path of this machine. -/
def placeOf (t : Tree) (path : String) : Place :=
  namesOf (((Pathname.mk path).absolute? t.cwdText).getD ⟨path⟩).text

/-- The tree with the directories above a place, and `node` there. -/
def putAt (t : Tree) (place : Place) (node : Files.Node) : Tree :=
  ((List.range place.length).foldl (fun t n => t.put (place.take n) .directory) t).put place node

/-- Adds a file of this machine to the tree, if it can be read. -/
def addFile (t : Tree) (path : String) : IO Tree := do
  try
    let content ← IO.FS.readBinFile path
    return putAt t (placeOf t path) (.file content.toList false)
  catch _ => return t

/-- Adds a directory of this machine with everything below it. -/
partial def addDirectory (t : Tree) (path : String) : IO Tree := do
  try
    let entries ← (← IO.FS.realPath path).readDir
    let mut t := putAt t (placeOf t path) .directory
    for entry in entries do
      let inner := path ++ "/" ++ entry.fileName
      t ← if ← entry.path.isDir then addDirectory t inner else addFile t inner
    return t
  catch _ => return t

/-- Everything on the standard input. -/
partial def readInput (stream : IO.FS.Stream) (taken : ByteArray) : IO ByteArray := do
  let chunk ← stream.read 65536
  if chunk.isEmpty then return taken else readInput stream (taken ++ chunk)

/-- Adds what a run with these arguments looks at: the configuration and the library. -/
def addNeeded (t : Tree) (places : Config.Places) (arguments : List String) : IO Tree := do
  let t ← match Config.file? places with
    | some file => addFile t file.text
    | none => pure t
  match CommandLine.parse arguments, Config.loadUser t places with
  | .ok (.run a), .ok config => addDirectory t (a.libDirOver config).text
  | _, _ => return t

end LiveLisp.Program

open LiveLisp in
/-- Runs the program with the given arguments; its exit code. -/
def main (arguments : List String) : IO UInt32 := do
  let places : Config.Places :=
    ⟨← IO.getEnv "XDG_CONFIG_HOME", ← IO.getEnv "HOME", ← IO.getEnv "APPDATA"⟩
  let cwd := Program.namesOf (← IO.currentDir).toString
  let files ← Program.addNeeded (Files.Tree.fresh cwd) places arguments
  let input ← match CommandLine.parse arguments with
    | .ok (.run _) => Program.readInput (← IO.getStdin) ByteArray.empty
    | _ => pure ByteArray.empty
  let now ← IO.monoMsNow
  let outcome := CommandLine.run Program.isolatedHost places (fun _ => now) arguments
    (Reading.linesOfBytes input.toList) files
  for shown in outcome.world.shown do
    IO.print shown.text
  match outcome.complaint with
  | some complaint => IO.eprintln ("error: " ++ complaint)
  | none => pure ()
  return UInt32.ofNat outcome.code
