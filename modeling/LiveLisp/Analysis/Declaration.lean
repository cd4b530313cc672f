import LiveLisp.Analysis.Ast
import LiveLisp.Form.Printer
/-!
# Namespace declarations

A declaration `(ns name clause*)` names the namespaces it requires, with aliases and referred
names. Nothing is recorded unless the whole declaration is well formed.
-/

namespace LiveLisp.Analysis

open Text (Position)

/-- One namespace of a clause with its alias and the names referred from it. -/
structure LibSpec where
  ns : String
  asName : Option String
  refers : List String
  deriving DecidableEq, Repr, Inhabited

/-- Takes in one option of a library spec: `:as name`, or `:refer` or `:only` with names. -/
def LibSpec.addOption? (lib : LibSpec) (option : Form × Form) : Option LibSpec := do
  let key ← option.1.keyword?
  if key.name = "as" then
    let target ← option.2.symbol?
    return { lib with asName := some target.name }
  else if key.name = "refer" ∨ key.name = "only" then
    let names ← (← option.2.items?).mapM Form.symbol?
    return { lib with refers := lib.refers ++ names.map Symbol.name }
  else none

/-- A library spec is a plain symbol, or a vector of a symbol and options. -/
def LibSpec.ofForm? : Form → Option LibSpec
  | .atom _ (.symbol s) => s.plainName?.map (⟨·, none, []⟩)
  | .vector _ (head :: options) => do
    let name ← head.symbol?
    (← Form.pairUp options).foldlM LibSpec.addOption? ⟨name.render, none, []⟩
  | _ => none

/-- The clauses that name libraries. -/
inductive ClauseKind where
  | require
  | use
  | requireMacros
  deriving DecidableEq, Repr

namespace ClauseKind

def ofName? : String → Option ClauseKind
  | "require" => some .require
  | "use" => some .use
  | "require-macros" => some .requireMacros
  | _ => none

def name : ClauseKind → String
  | .require => "require"
  | .use => "use"
  | .requireMacros => "require-macros"

end ClauseKind

/-- A declaration in the making, with the aliases and referred names that go with it. -/
structure Draft where
  decl : NsDecl
  aliases : List (String × String)
  refers : List (String × String)

namespace Draft

/-- Takes in one library of a clause. -/
def addLib (d : Draft) (kind : ClauseKind) (lib : LibSpec) : Draft :=
  { decl := match kind with
      | .require => { d.decl with requires := d.decl.requires ++ [lib.ns] }
      | .use => { d.decl with uses := d.decl.uses ++ [lib.ns] }
      | .requireMacros => { d.decl with requireMacros := d.decl.requireMacros ++ [lib.ns] }
    aliases := d.aliases ++ (lib.asName.toList.map (·, lib.ns))
    refers := d.refers ++ lib.refers.map (·, lib.ns) }

/-- Takes in the specs of a clause. -/
def addSpecs (kind : ClauseKind) (d : Draft) : List Form → Except CompileError Draft
  | [] => .ok d
  | spec :: rest =>
    let spec := spec.unquote
    match LibSpec.ofForm? spec with
    | some lib => addSpecs kind (d.addLib kind lib) rest
    | none =>
      .error (.invalidSpecial "ns" spec.pos
        ("invalid :" ++ kind.name ++ " spec " ++ spec.render))

/-- Takes in one clause; strings are passed over as documentation. -/
def addClause (d : Draft) (clause : Form) : Except CompileError Draft :=
  match clause with
  | .atom _ (.str _) => .ok d
  | .list _ (head :: specs) =>
    match head.keyword?.bind Symbol.plainName? with
    | none => .error (.invalidSpecial "ns" head.pos "clause must start with a keyword")
    | some name =>
      match ClauseKind.ofName? name with
      | some kind => d.addSpecs kind specs
      | none =>
        if name = "refer-clojure" ∨ name = "import" then .ok d
        else .error (.invalidSpecial "ns" head.pos ("unsupported clause :" ++ name))
  | _ => .error (.invalidSpecial "ns" clause.pos ("unsupported clause " ++ clause.render))

/-- Takes in clauses from left to right. -/
def addClauses (d : Draft) : List Form → Except CompileError Draft
  | [] => .ok d
  | clause :: rest =>
    match d.addClause clause with
    | .ok d => d.addClauses rest
    | .error e => .error e

/-- The declaration with the given items after `ns`. -/
def ofItems (pos : Position) (items : List Form) : Except CompileError Draft :=
  match items with
  | [] => .error (.invalidSpecial "ns" pos "expected a namespace symbol")
  | name :: clauses =>
    match name.plainName? with
    | none => .error (.invalidSpecial "ns" pos "expected a namespace symbol")
    | some name => addClauses ⟨⟨name, [], [], []⟩, [], []⟩ clauses

/-- Records a declaration: it and its run-time dependencies become known, and what it says adds
to what is known about the namespace. -/
def record (d : Draft) (env : Env) : Env :=
  let env := (d.decl.requires ++ d.decl.uses).foldl Env.register (env.register d.decl.name)
  env.update d.decl.name fun info =>
    { info with
      requires := insertAllNew info.requires d.decl.runtimeDeps
      aliases := info.aliases.insertAll d.aliases
      refers := info.refers.insertAll d.refers }

end Draft

/-- Analyzes the declaration with the given items after `ns`. -/
def analyzeDeclaration (pos : Position) (items : List Form) : Analyzing Ast := fun env =>
  match Draft.ofItems pos items with
  | .ok d => .ok (.ns pos d.decl) (d.record env)
  | .error e => .error e env

end LiveLisp.Analysis
