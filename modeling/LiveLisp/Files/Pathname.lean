import LiveLisp.Text.Split
/-!
# Paths

A path is kept as it was spelled. Two spellings name the same path when their components agree:
slashes may be doubled, and a lone dot counts only at the start.
-/

namespace LiveLisp.Files

/-- A part of a path between slashes. -/
inductive Component where
  | root
  | current
  | parent
  | name (text : String)
  deriving DecidableEq, Repr, Inhabited

/-- The text of a component. -/
def Component.render : Component → String
  | .root => "/"
  | .current => "."
  | .parent => ".."
  | .name t => t

/-- A path as it was spelled. -/
structure Pathname where
  text : String
  deriving DecidableEq, Repr, Inhabited

namespace Pathname

/-- Whether the path starts at the root. -/
def isAbsolute (p : Pathname) : Bool := p.text.toList.head? == some '/'

/-- Empty pieces and dots do not count. -/
def isIdle (piece : List Char) : Bool := piece.isEmpty || piece == ['.']

/-- What a piece between slashes stands for. -/
def componentOf (piece : List Char) : Component :=
  if piece = ['.', '.'] then .parent else .name (String.ofList piece)

/-- The components: the root of an absolute path, a leading dot of a relative one, and all pieces
that count. -/
def components (p : Pathname) : List Component :=
  let pieces := p.text.toList.splitOn '/'
  let start :=
    if p.isAbsolute then [Component.root]
    else if pieces.head? = some ['.'] then [.current]
    else []
  start ++ ((pieces.filter (fun s => !isIdle s)).map componentOf)

/-- Whether two spellings name the same path. -/
def same (p q : Pathname) : Bool := p.components == q.components

/-- `q` seen from `p`; an absolute `q` stands alone. -/
def join (p : Pathname) (q : String) : Pathname :=
  if (Pathname.mk q).isAbsolute then ⟨q⟩
  else if p.text.isEmpty || p.text.toList.getLast? == some '/' then ⟨p.text ++ q⟩
  else ⟨p.text ++ "/" ++ q⟩

/-- The spelling without slashes and dots at its end, from the last character on. -/
def trimReversed : List Char → List Char
  | '/' :: rest => trimReversed rest
  | '.' :: '/' :: rest => trimReversed rest
  | text => text

/-- What comes before the file name, and the file name, if the last component is a name. -/
def splitName? (p : Pathname) : Option (List Char × List Char) :=
  let trimmed := trimReversed p.text.toList.reverse
  let (name, before) := trimmed.span (· ≠ '/')
  let name := name.reverse
  if name = [] ∨ name = ['.'] ∨ name = ['.', '.'] then none else some (before.reverse, name)

/-- Splits a file name at its last dot, unless it is the first character. -/
def splitExtension (name : List Char) : List Char × Option (List Char) :=
  let (ext, rest) := name.reverse.span (· ≠ '.')
  match rest with
  | _ :: stem@(_ :: _) => (stem.reverse, some ext.reverse)
  | _ => (name, none)

/-- The text after the last dot of the file name. -/
def extension? (p : Pathname) : Option String :=
  p.splitName?.bind fun (_, name) => (splitExtension name).2.map String.ofList

/-- The path with another extension of its file name. -/
def withExtension (p : Pathname) (extension : String) : Pathname :=
  match p.splitName? with
  | none => p
  | some (before, name) =>
    ⟨String.ofList (before ++ (splitExtension name).1 ++ ['.']) ++ extension⟩

/-- The path with a suffix added to its spelling. -/
def addSuffix (p : Pathname) (suffix : String) : Pathname := ⟨p.text ++ suffix⟩

/-- The absolute path of `p` seen from the directory `cwd`: dots and doubled slashes go, and a
slash at the end stays. The empty path has none. -/
def absolute? (cwd : String) (p : Pathname) : Option Pathname :=
  if p.text.isEmpty then none
  else
    let names := (p.components.filter (fun c => c ≠ .root ∧ c ≠ .current)).map Component.render
    let chars := p.text.toList
    let start :=
      if !p.isAbsolute then cwd
      else if "//".toList.isPrefixOf chars && !"///".toList.isPrefixOf chars then "//"
      else "/"
    let path := names.foldl Pathname.join ⟨start⟩
    some (if chars.getLast? = some '/' then path.join "" else path)

/-- What is left of the pieces of a path after the given components, if it begins with them. -/
def stripComponents : List Component → List (List Char) → Option (List (List Char))
  | [], pieces => some pieces
  | _ :: _, [] => none
  | c :: cs, piece :: pieces =>
    if isIdle piece then stripComponents (c :: cs) pieces
    else if componentOf piece = c then stripComponents cs pieces
    else none

/-- The spelling of `p` below the directory `cwd`, if it is there. -/
def below? (cwd : String) (p : Pathname) : Option Pathname :=
  if p.isAbsolute then
    let wanted := (Pathname.mk cwd).components.filter (· ≠ .root)
    (stripComponents wanted (p.text.toList.splitOn '/')).map fun pieces =>
      let inner := (pieces.dropWhile isIdle).reverse.dropWhile isIdle |>.reverse
      ⟨String.ofList (['/'].intercalate inner)⟩
  else none

end Pathname

end LiveLisp.Files
