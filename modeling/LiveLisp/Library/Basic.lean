import LiveLisp.Analysis.Env
import LiveLisp.Files.Tree
import LiveLisp.Library.Declarations
/-!
# Libraries of compiled units

A library is a directory of compiled units, indexed by the namespaces they provide. No namespace
has two providers.
-/

namespace LiveLisp.Library

open Files (Pathname Tree FileError)

/-- Why something could not be built. -/
inductive BuildError where
  | file (cause : FileError)
  | walk (root : Pathname) (cause : FileError)
  | unknownNamespace (ns : String)
  | cycle (namespaces : List String)
  | duplicateProvide (ns first second : String)
  | missingRuntime (path : Pathname)
  deriving DecidableEq, Repr, Inhabited

/-- The text shown for a build error. -/
def BuildError.message : BuildError → String
  | .file cause => "IO error: " ++ cause.message
  | .walk root cause =>
    "Cannot scan library: IO error for operation on " ++ root.text ++ ": " ++ cause.message
  | .unknownNamespace ns => "Unknown namespace: " ++ ns
  | .cycle namespaces => "Circular dependency: " ++ " -> ".intercalate namespaces
  | .duplicateProvide ns first second =>
    "Namespace " ++ ns ++ " is provided by both " ++ first ++ " and " ++ second
  | .missingRuntime path => "Runtime file not found in library: " ++ path.text

/-- A compiled unit of a library. -/
structure CompiledUnit where
  relPath : String
  path : Pathname
  provides : List String
  requires : List String
  deriving DecidableEq, Repr, Inhabited

/-- Whether a record stands for a unit, or for the request that a closure answers. -/
inductive RecordKind where
  | ordinary
  | seed
  deriving DecidableEq, Repr, Inhabited

/-- One entry of a dependency closure. -/
structure Record where
  provides : List String
  requires : List String
  relPath : String
  url : Pathname
  kind : RecordKind
  deriving DecidableEq, Repr, Inhabited

namespace Record

/-- The record of a unit. -/
def ofUnit (u : CompiledUnit) : Record := ⟨u.provides, u.requires, u.relPath, u.path, .ordinary⟩

/-- The record that asks for `ns`, at the place of its provider. -/
def seedOf (ns : String) (u : CompiledUnit) : Record := ⟨[], [ns], u.relPath, u.path, .seed⟩

/-- Whether `ns` is the only namespace provided. -/
def providesOnly (r : Record) (ns : String) : Bool := r.provides == [ns]

end Record

end Library

/-- The units below a root with an index from namespaces to units. -/
structure Library where
  root : Files.Pathname
  units : List Library.CompiledUnit
  providers : Table String Nat
  deriving DecidableEq, Repr, Inhabited

namespace Library

open Files (Pathname Tree FileError)

/-- The library without units. -/
def empty (root : Pathname) : Library := ⟨root, [], .empty⟩

/-- Claims the namespaces of a unit for the index `i`, in order. -/
def claim (lib : Library) (relPath : String) (i : Nat) (providers : Table String Nat) :
    List String → Except BuildError (Table String Nat)
  | [] => .ok providers
  | ns :: rest =>
    match providers.get? ns with
    | some other =>
      .error (.duplicateProvide ns ((lib.units[other]?.map CompiledUnit.relPath).getD "") relPath)
    | none => lib.claim relPath i (providers.insert ns i) rest

/-- Adds a unit at the end. -/
def add (lib : Library) (u : CompiledUnit) : Except BuildError Library :=
  match lib.claim u.relPath lib.units.length lib.providers u.provides with
  | .ok providers => .ok { lib with units := lib.units ++ [u], providers := providers }
  | .error e => .error e

/-- Whether some unit provides `ns`. -/
def provides (lib : Library) (ns : String) : Bool := lib.providers.contains ns

/-- The unit that provides `ns`, by its index. -/
def provider (lib : Library) (ns : String) : Except BuildError Nat :=
  match lib.providers.get? ns with
  | some i => .ok i
  | none => .error (.unknownNamespace ns)

/-- The records of all units, in the order in which they were found. -/
def records (lib : Library) : List Record := lib.units.map Record.ofUnit

/-- The names of a path below the root, as they are shown, with slashes between them. -/
def relativeText (root path : Pathname) : String :=
  let rest := path.components.drop root.components.length
  "/".intercalate (rest.map fun c => Files.Name.shown c.render)

/-- Takes files in, in order. Only scripts that provide something become units. -/
def addFiles (lib : Library) : List (Pathname × List UInt8) → Except BuildError Library
  | [] => .ok lib
  | (path, content) :: rest =>
    if path.extension? ≠ some "js" then lib.addFiles rest
    else
      match Text.Utf8.decode? content with
      | none => .error (.file .invalidText)
      | some js =>
        let u : CompiledUnit :=
          ⟨relativeText lib.root path, path, providesOf js, requiresOf js⟩
        if u.provides.isEmpty then lib.addFiles rest
        else
          match lib.add u with
          | .ok lib => lib.addFiles rest
          | .error e => .error e

/-- Indexes every unit below `root`. -/
def scan (t : Tree) (root : Pathname) : Except BuildError Library :=
  match t.filesBelow? root with
  | some files => (empty root).addFiles files
  | none => .error (.walk root .notFound)

end Library

end LiveLisp
