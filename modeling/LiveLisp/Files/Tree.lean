import LiveLisp.Files.Name
import LiveLisp.Files.Pathname
import LiveLisp.Table
/-!
# File trees

A file tree is a value: the nodes by their place, a place being the names from the root down. A
path is resolved name by name from the root or from the current directory, and everything on the
way must be a directory.
-/

namespace LiveLisp.Files

open Text

/-- A place in the tree: the names from the root down, with any bytes that names may hold. -/
abbrev Place := List String

/-- A directory, or a file with its bytes. -/
inductive Node where
  | directory
  | file (content : List UInt8) (executable : Bool)
  deriving DecidableEq, Repr, Inhabited

/-- Why a file operation failed. -/
inductive FileError where
  | notFound
  | notDirectory
  | isDirectory
  | exists
  | irregular
  | invalidText
  deriving DecidableEq, Repr, Inhabited

/-- The text of a failed file operation. -/
def FileError.message : FileError → String
  | .notFound => "No such file or directory (os error 2)"
  | .notDirectory => "Not a directory (os error 20)"
  | .isDirectory => "Is a directory (os error 21)"
  | .exists => "File exists (os error 17)"
  | .irregular => "the source path is neither a regular file nor a symlink to a regular file"
  | .invalidText => "stream did not contain valid UTF-8"

/-- Nodes by place, with the current directory. The root is always a directory. -/
structure Tree where
  cwd : Place
  nodes : Table Place Node
  deriving DecidableEq, Repr, Inhabited

namespace Tree

/-- The tree with nothing but the directories down to `cwd`. -/
def fresh (cwd : Place) : Tree :=
  ⟨cwd, ⟨((List.range cwd.length).map fun n => (cwd.take (n + 1), .directory))⟩⟩

/-- The current directory as a path. -/
def cwdText (t : Tree) : String := "/" ++ "/".intercalate t.cwd

/-- The node at a place. -/
def node? (t : Tree) (place : Place) : Option Node :=
  if place = [] then some .directory else t.nodes.get? place

/-- The place one component further from a directory. -/
def step (t : Tree) (place : Place) (c : Component) : Except FileError Place :=
  match t.node? place with
  | none => .error .notFound
  | some (.file ..) => .error .notDirectory
  | some .directory =>
    match c with
    | .root => .ok []
    | .current => .ok place
    | .parent => .ok place.dropLast
    | .name n => .ok (place ++ [n])

/-- The place that components lead to. -/
def stepAll (t : Tree) (place : Place) : List Component → Except FileError Place
  | [] => .ok place
  | c :: rest =>
    match t.step place c with
    | .ok place => t.stepAll place rest
    | .error e => .error e

/-- Whether the spelling asks for a directory. -/
def wantsDirectory (p : Pathname) : Bool :=
  match p.text.toList.reverse with
  | '/' :: _ => true
  | '.' :: '/' :: _ => true
  | _ => false

/-- The place a path names, and what is there. -/
def locate (t : Tree) (p : Pathname) : Except FileError (Place × Option Node) :=
  if p.text.isEmpty then .error .notFound
  else
    match t.stepAll t.cwd p.components with
    | .error e => .error e
    | .ok place =>
      match t.node? place with
      | some (.file c x) =>
        if wantsDirectory p then .error .notDirectory else .ok (place, some (.file c x))
      | found => .ok (place, found)

/-- What is at a path, if something is. -/
def find? (t : Tree) (p : Pathname) : Option Node :=
  match t.locate p with
  | .ok (_, found) => found
  | .error _ => none

/-- Whether a file is at the path. -/
def isFile (t : Tree) (p : Pathname) : Bool :=
  match t.find? p with
  | some (.file ..) => true
  | _ => false

/-- Whether a directory is at the path. -/
def isDirectory (t : Tree) (p : Pathname) : Bool := t.find? p == some .directory

/-- The place of what is at a path; equal exactly for paths of the same node. -/
def canonical? (t : Tree) (p : Pathname) : Option Place :=
  match t.locate p with
  | .ok (place, some _) => some place
  | _ => none

/-- The bytes of a file. -/
def readBytes (t : Tree) (p : Pathname) : Except FileError (List UInt8) :=
  match t.locate p with
  | .error e => .error e
  | .ok (_, none) => .error .notFound
  | .ok (_, some .directory) => .error .isDirectory
  | .ok (_, some (.file content _)) => .ok content

/-- The text of a file. -/
def readText (t : Tree) (p : Pathname) : Except FileError String :=
  match t.readBytes p with
  | .error e => .error e
  | .ok content =>
    match Utf8.decode? content with
    | some text => .ok text
    | none => .error .invalidText

/-- The tree with `node` at `place`. -/
def put (t : Tree) (place : Place) (node : Node) : Tree :=
  { t with nodes := t.nodes.insert place node }

/-- Makes a new file or replaces the content of an old one. The directory must exist. `executable`
tells whether the file can be run; without it an old file keeps what it was. -/
def writeBytes (t : Tree) (p : Pathname) (content : List UInt8) (executable : Option Bool) :
    Except FileError Tree :=
  match t.locate p with
  | .error e => .error e
  | .ok (_, some .directory) => .error .isDirectory
  | .ok (place, some (.file _ x)) => .ok (t.put place (.file content (executable.getD x)))
  | .ok (place, none) =>
    if wantsDirectory p then .error .isDirectory
    else .ok (t.put place (.file content (executable.getD false)))

/-- Writes a text. -/
def writeText (t : Tree) (p : Pathname) (text : String) : Except FileError Tree :=
  t.writeBytes p (Utf8.encode text) none

/-- Goes along components and makes the directories that are missing. -/
def makeAlong (t : Tree) (place : Place) : List Component → Except FileError Tree
  | [] => .ok t
  | c :: rest =>
    match t.step place c with
    | .error e => .error e
    | .ok place =>
      match t.node? place with
      | some .directory => t.makeAlong place rest
      | some (.file ..) => .error (if rest.isEmpty then .exists else .notDirectory)
      | none => (t.put place .directory).makeAlong place rest

/-- Makes a directory and those above it. -/
def makeDirectories (t : Tree) (p : Pathname) : Except FileError Tree :=
  t.makeAlong t.cwd p.components

/-- Copies a file with its permission to be run. -/
def copy (t : Tree) (source target : Pathname) : Except FileError Tree :=
  match t.locate source with
  | .error e => .error e
  | .ok (_, none) => .error .notFound
  | .ok (_, some .directory) => .error .irregular
  | .ok (_, some (.file content x)) => t.writeBytes target content (some x)

/-- The tree without a node and what is below it. -/
def remove (t : Tree) (p : Pathname) : Tree :=
  match t.canonical? p with
  | none => t
  | some place =>
    { t with nodes := ⟨t.nodes.entries.filter fun e => !place.isPrefixOf e.1⟩ }

/-- The order of names, name by name. -/
def placeBefore : Place → Place → Bool
  | [], _ => true
  | _ :: _, [] => false
  | a :: as, b :: bs => if a = b then placeBefore as bs else Name.before a b

/-- Everything below a place, directories before what is in them, names in order: the names from
the place down, and the node. -/
def below (t : Tree) (place : Place) : List (Place × Node) :=
  let inside := t.nodes.entries.filter fun e => place.isPrefixOf e.1 && place != e.1
  (inside.map fun e => (e.1.drop place.length, e.2)).mergeSort fun a b => placeBefore a.1 b.1

/-- The files at or below a path with their paths; a path without node has none. -/
def filesBelow? (t : Tree) (root : Pathname) : Option (List (Pathname × List UInt8)) :=
  match t.locate root with
  | .ok (_, some (.file content _)) => some [(root, content)]
  | .ok (place, some .directory) =>
    some <| (t.below place).filterMap fun (names, node) =>
      match node with
      | .directory => none
      | .file content _ => some (names.foldl Pathname.join root, content)
  | _ => none

end Tree

end LiveLisp.Files
