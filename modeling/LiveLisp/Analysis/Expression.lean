import LiveLisp.Analysis.Declaration
import LiveLisp.Munge
/-!
# Analysis of expressions

Symbols are resolved first as locals, then as dotted script paths, as referred names, as
definitions of the current namespace, and last as names of the core namespace. A definition is
recorded before its value is analyzed. The names bound around a form are passed down with it.
-/

namespace LiveLisp.Analysis

open Text (Position)
open Munge (munge mungePath)

/-- The special forms of expressions. -/
inductive Special where
  | ns
  | define
  | block
  | cond
  | bind
  | func
  | quote
  | assign
  | throw
  | guard
  | new
  | dot
  deriving DecidableEq, Repr

/-- The special form a head symbol stands for. -/
def Special.ofName? : String → Option Special
  | "ns" => some .ns
  | "def" => some .define
  | "do" => some .block
  | "if" => some .cond
  | "let" | "let*" => some .bind
  | "fn" | "fn*" => some .func
  | "quote" => some .quote
  | "set!" => some .assign
  | "throw" => some .throw
  | "try" => some .guard
  | "new" => some .new
  | "." => some .dot
  | _ => none

/-- Where a form is analyzed: the current namespace and the names bound around it, innermost
first. `spell` is how a local is written in the analyzed form. -/
structure Scope where
  ns : String
  locals : List String
  spell : String → String

namespace Scope

def isLocal (s : Scope) (name : String) : Bool := s.locals.contains name

/-- The scope inside a binding of `name`. -/
def bind (s : Scope) (name : String) : Scope := { s with locals := name :: s.locals }

/-- The scope inside bindings of `names`, the last one innermost. -/
def bindAll (s : Scope) (names : List String) : Scope := names.foldl Scope.bind s

theorem bindAll_eq (s : Scope) (names : List String) :
    s.bindAll names = { s with locals := names.reverse ++ s.locals } := by
  unfold bindAll
  induction names generalizing s with
  | nil => rfl
  | cons name names ih =>
    rw [List.foldl_cons, ih]
    simp [Scope.bind]

end Scope

/-- Whether a plain symbol is a path of script names: it has a dot, but not at its end. -/
def isDotted (name : String) : Bool :=
  let cs := name.toList
  cs.contains '.' && cs.getLast? != some '.'

/-- Whether a namespace belongs to the script library, which needs no registration. -/
def isScriptLibrary (ns : String) : Bool := ns == "goog" || "goog.".toList.isPrefixOf ns.toList

/-- What a symbol refers to. -/
def resolve (env : Env) (scope : Scope) (pos : Position) (sym : Symbol) :
    Except CompileError Ast :=
  let info := (env.namespace? scope.ns).getD (.fresh scope.ns)
  let name := sym.name
  match sym.ns with
  | some ns =>
    if ns = "js" then .ok (.global pos name)
    else
      match info.aliases.get? ns with
      | some target => .ok (.var pos target name)
      | none =>
        if env.contains ns || isScriptLibrary ns then .ok (.var pos ns name)
        else .error (.noSuchNamespace ns pos)
  | none =>
    if scope.isLocal name then .ok (.local pos (scope.spell name))
    else if isDotted name then .ok (.global pos (mungePath name))
    else
      match info.refers.get? name with
      | some target => .ok (.var pos target name)
      | none => .ok (.var pos (if info.defs.contains name then scope.ns else coreNs) name)

/-- Resolves a symbol in the environment at hand. -/
def analyzeSymbol (scope : Scope) (pos : Position) (sym : Symbol) : Analyzing Ast := fun env =>
  match resolve env scope pos sym with
  | .ok ast => .ok ast env
  | .error e => .error e env

/-- The name in a binding position of a special form: a plain symbol. -/
def bindingName (special : String) (form : Form) : Analyzing String :=
  match form.plainName? with
  | some name => return name
  | none => throw (.invalidSpecial special form.pos (form.render ++ " is not a valid binding"))

/-- The parameters of a function: plain ones, then perhaps `&` and one for the rest. -/
def parameters : List Form → Analyzing (List String × Option String)
  | [] => return ([], none)
  | param :: more => do
    let name ← bindingName "fn" param
    if name = "&" then
      match more with
      | [] => throw (.invalidSpecial "fn" param.pos "missing rest parameter after &")
      | [rest] => return ([], some (← bindingName "fn" rest))
      | rest :: _ :: _ => do
        let _ ← bindingName "fn" rest
        throw (.invalidSpecial "fn" param.pos "only one parameter may follow &")
    else do
      let (names, rest) ← parameters more
      return (name :: names, rest)

/-- The special form that a list head stands for, unless a local hides it. -/
def specialHead? (scope : Scope) (head : Form) : Option Special :=
  match head.plainName? with
  | some name => if scope.isLocal name then none else Special.ofName? name
  | none => none

/-- The member named by a list head `.member`, unless a local hides it. -/
def memberHead? (scope : Scope) (head : Form) : Option String :=
  match head.plainName? with
  | some name =>
    match name.toList with
    | '.' :: member@(_ :: _) =>
      if scope.isLocal name then none else some (String.ofList member)
    | _ => none
  | none => none

/-- The constructor named by a list head `Name.`. -/
def constructorHead? (head : Form) : Option Symbol :=
  match head.symbol? with
  | some sym =>
    let cs := sym.name.toList
    if 1 < cs.length && cs.getLast? == some '.' then
      some { sym with name := String.ofList cs.dropLast }
    else none
  | none => none

/-- Whether a form is a clause of a guarded block. -/
def isClause (form : Form) : Bool := form.isHeadedBy "catch" || form.isHeadedBy "finally"

/-- How the parts of an expression are analyzed. -/
abbrev Analyzer := Scope → Form → Analyzing Ast

/-- Analyzes expressions from left to right. -/
def analyzeAll (sub : Analyzer) (scope : Scope) : List Form → Analyzing (List Ast)
  | [] => return []
  | form :: rest => do
    let ast ← sub scope form
    return ast :: (← analyzeAll sub scope rest)

/-- Analyzes keys and values from left to right. -/
def analyzeEntries (sub : Analyzer) (scope : Scope) :
    List (Form × Form) → Analyzing (List (Ast × Ast))
  | [] => return []
  | (key, value) :: rest => do
    let k ← sub scope key
    let v ← sub scope value
    return (k, v) :: (← analyzeEntries sub scope rest)

/-- Analyzes a form that may be missing. -/
def analyzeOption (sub : Analyzer) (scope : Scope) : Option Form → Analyzing (Option Ast)
  | none => return none
  | some form => return some (← sub scope form)

/-- The name and the value of a definition; a string between them is documentation. -/
def definitionParts : List Form → Option (Form × Option Form)
  | [name] => some (name, none)
  | [name, init] => some (name, some init)
  | [name, doc, init] => if doc.str?.isSome then some (name, some init) else none
  | _ => none

/-- Analyzes `(def name doc? init?)`. The name is known from here on. -/
def analyzeDefine (sub : Analyzer) (scope : Scope) (pos : Position) (args : List Form) :
    Analyzing Ast := do
  match definitionParts args with
  | none => throw (.invalidSpecial "def" pos "expected (def name init?)")
  | some (name, init) =>
    match name.plainName? with
    | none => throw (.invalidSpecial "def" pos "name must be an unqualified symbol")
    | some name => do
      modify fun env => env.define scope.ns name
      return .define pos scope.ns name (← analyzeOption sub scope init)

/-- The test and the branches of a conditional. -/
def condParts : List Form → Option (Form × Form × Option Form)
  | [test, thenBranch] => some (test, thenBranch, none)
  | [test, thenBranch, elseBranch] => some (test, thenBranch, some elseBranch)
  | _ => none

/-- Analyzes `(if test then else?)`: the else branch before the test and the other branch. -/
def analyzeCond (sub : Analyzer) (scope : Scope) (pos : Position) (args : List Form) :
    Analyzing Ast := do
  match condParts args with
  | none => throw (.invalidSpecial "if" pos "expected 2 or 3 arguments")
  | some (test, thenBranch, elseBranch) => do
    let elseBranch ← analyzeOption sub scope elseBranch
    let test ← sub scope test
    let thenBranch ← sub scope thenBranch
    return .cond pos test thenBranch elseBranch

/-- Analyzes bindings from left to right, each in the scope of the ones before it; the result
has the scope of all of them. -/
def analyzeBindings (sub : Analyzer) (scope : Scope) :
    List (Form × Form) → Analyzing (List (String × Ast) × Scope)
  | [] => return ([], scope)
  | (name, init) :: rest => do
    let name ← bindingName "let" name
    let init ← sub scope init
    let (bindings, inner) ← analyzeBindings sub (scope.bind name) rest
    return ((scope.spell name, init) :: bindings, inner)

/-- Analyzes `(let [name init ...] body*)`. -/
def analyzeBind (sub : Analyzer) (scope : Scope) (pos : Position) (args : List Form) :
    Analyzing Ast := do
  match args with
  | .vector vectorPos items :: body =>
    match Form.pairUp items with
    | none =>
      throw (.invalidSpecial "let" vectorPos "binding vector needs an even number of forms")
    | some pairs => do
      let (bindings, inner) ← analyzeBindings sub scope pairs
      return .bind pos bindings (← analyzeAll sub inner body)
  | _ => throw (.invalidSpecial "let" pos "expected a binding vector")

/-- The optional name of a function, and the forms after it. -/
def functionName : List Form → Analyzing (Option String × List Form)
  | [] => return (none, [])
  | first :: rest =>
    if first.symbol?.isSome then do
      return (some (← bindingName "fn" first), rest)
    else return (none, first :: rest)

/-- Analyzes `(fn name? [parameter*] body*)`. -/
def analyzeFunc (sub : Analyzer) (scope : Scope) (pos : Position) (args : List Form) :
    Analyzing Ast := do
  let (name, args) ← functionName args
  match args with
  | [] => throw (.invalidSpecial "fn" pos "expected a parameter vector")
  | .vector _ params :: body => do
    let (names, rest) ← parameters params
    let inner := scope.bindAll (name.toList ++ names ++ rest.toList)
    let body ← analyzeAll sub inner body
    return .func pos (name.map scope.spell) (names.map scope.spell) (rest.map scope.spell) body
  | other :: _ =>
    throw (.invalidSpecial "fn" other.pos "multi-arity functions are not supported")

/-- Analyzes `(set! target value)`. -/
def analyzeAssign (sub : Analyzer) (scope : Scope) (pos : Position) (args : List Form) :
    Analyzing Ast := do
  match args with
  | [target, value] => do
    let target ← sub scope target
    if target.isAssignable then return .assign pos target (← sub scope value)
    else throw (.invalidSpecial "set!" pos "cannot assign to this target")
  | _ => throw (.invalidSpecial "set!" pos "expected (set! target value)")

/-- The handler and the cleanup of a guarded block, as far as they are known. -/
structure Clauses where
  handler : Option (String × List Ast)
  cleanup : List Ast

/-- Analyzes the clauses of a guarded block: one handler and one cleanup at most, the handler
first. A cleanup without forms counts as none. -/
def analyzeClauses (sub : Analyzer) (scope : Scope) (done : Clauses) :
    List Form → Analyzing Clauses
  | [] => return done
  | form :: rest =>
    let items := (form.list?.getD []).drop 1
    if form.isHeadedBy "catch" && done.handler.isNone && done.cleanup.isEmpty then
      match items with
      | _ :: binding :: body => do
        let name ← bindingName "try" binding
        let body ← analyzeAll sub (scope.bind name) body
        analyzeClauses sub scope { done with handler := some (scope.spell name, body) } rest
      | _ => throw (.invalidSpecial "try" form.pos "expected (catch type name body*)")
    else if form.isHeadedBy "finally" && done.cleanup.isEmpty then do
      let items ← analyzeAll sub scope items
      analyzeClauses sub scope { done with cleanup := items } rest
    else
      throw (.invalidSpecial "try" form.pos "body forms must precede catch and finally clauses")

/-- Analyzes `(try body* clause*)`; the body ends before the first clause. -/
def analyzeGuard (sub : Analyzer) (scope : Scope) (pos : Position) (args : List Form) :
    Analyzing Ast := do
  let (body, clauses) := args.span (fun form => !isClause form)
  let body ← analyzeAll sub scope body
  let clauses ← analyzeClauses sub scope ⟨none, []⟩ clauses
  return .guard pos body clauses.handler clauses.cleanup

/-- Analyzes `(new constructor argument*)`. -/
def analyzeNew (sub : Analyzer) (scope : Scope) (pos : Position) (args : List Form) :
    Analyzing Ast := do
  match args with
  | [] => throw (.invalidSpecial "new" pos "expected a constructor")
  | ctor :: args => do
    let ctor ← sub scope ctor
    return .new pos ctor (← analyzeAll sub scope args)

/-- Analyzes access to a member: `-name` is a field and takes no arguments, any other name is a
method. -/
def analyzeMember (sub : Analyzer) (scope : Scope) (pos : Position) (member : String)
    (args : List Form) : Analyzing Ast := do
  match args with
  | [] => throw (.invalidSpecial "." pos "missing target")
  | target :: args => do
    let target ← sub scope target
    match member.toList with
    | '-' :: field =>
      if field.isEmpty then throw (.invalidSpecial "." pos "missing field name")
      else if !args.isEmpty then
        throw (.invalidSpecial "." pos "field access takes no arguments")
      else return .field pos target (munge (String.ofList field))
    | _ => return .method pos target (munge member) (← analyzeAll sub scope args)

/-- Analyzes `(. target member argument*)` and `(. target (member argument*))`. -/
def analyzeDot (sub : Analyzer) (scope : Scope) (pos : Position) (args : List Form) :
    Analyzing Ast := do
  let access := fun (target member : Form) (args : List Form) => do
    let name ← bindingName "." member
    analyzeMember sub scope pos name (target :: args)
  match args with
  | [target, .list _ (member :: args)] => access target member args
  | target :: member :: args => access target member args
  | _ => throw (.invalidSpecial "." pos "expected (. target member args*)")

/-- Analyzes a special form from the forms after its head. -/
def analyzeSpecial (sub : Analyzer) (scope : Scope) (pos : Position) (special : Special)
    (args : List Form) : Analyzing Ast :=
  match special with
  | .ns => throw (.invalidSpecial "ns" pos "namespace declarations must appear at top level")
  | .define => analyzeDefine sub scope pos args
  | .block => return .block pos (← analyzeAll sub scope args)
  | .cond => analyzeCond sub scope pos args
  | .bind => analyzeBind sub scope pos args
  | .func => analyzeFunc sub scope pos args
  | .quote =>
    match args with
    | [quoted] => return .quote pos quoted
    | _ => throw (.invalidSpecial "quote" pos "expected exactly one argument")
  | .assign => analyzeAssign sub scope pos args
  | .throw =>
    match args with
    | [value] => return .throw pos (← sub scope value)
    | _ => throw (.invalidSpecial "throw" pos "expected exactly one argument")
  | .guard => analyzeGuard sub scope pos args
  | .new => analyzeNew sub scope pos args
  | .dot => analyzeDot sub scope pos args

/-- Analyzes a call of what the head of a list stands for. -/
def analyzeCall (sub : Analyzer) (scope : Scope) (pos : Position) (head : Form)
    (args : List Form) : Analyzing Ast := do
  let callee ← sub scope head
  if callee.isInertConst then throw (.notCallable head.render pos)
  else return .invoke pos callee (← analyzeAll sub scope args)

/-- Analyzes a list that is not empty: a special form, access to a member, a construction or a
call. -/
def analyzeList (sub : Analyzer) (scope : Scope) (pos : Position) (head : Form)
    (args : List Form) : Analyzing Ast :=
  match specialHead? scope head with
  | some special => analyzeSpecial sub scope pos special args
  | none =>
    match memberHead? scope head with
    | some member => analyzeMember sub scope pos member args
    | none =>
      match constructorHead? head with
      | some ctor => do
        let ctor ← analyzeSymbol scope head.pos ctor
        return .new pos ctor (← analyzeAll sub scope args)
      | none => analyzeCall sub scope pos head args

/-- Analyzes a form whose parts are analyzed by `sub`. -/
def analyzeWith (sub : Analyzer) (scope : Scope) : Form → Analyzing Ast
  | .atom pos (.symbol sym) => analyzeSymbol scope pos sym
  | .atom pos value => return .const pos (.atom pos value)
  | .vector pos items => return .vector pos (← analyzeAll sub scope items)
  | .set pos items => return .set pos (← analyzeAll sub scope items)
  | .map pos entries => return .map pos (← analyzeEntries sub scope entries)
  | .list pos [] => return .quote pos (.list pos [])
  | .list pos (head :: args) => analyzeList sub scope pos head args

/-- Analyzes a form no deeper than `depth`. -/
def analyzeTo : Nat → Analyzer
  | 0, _, form => throw (.notCallable form.render form.pos)
  | depth + 1, scope, form => analyzeWith (analyzeTo depth) scope form

/-- Analyzes an expression. -/
def analyzeExpression (scope : Scope) (form : Form) : Analyzing Ast :=
  analyzeTo form.depth scope form

/-- Analyzes a top-level form in the namespace `ns`, which becomes known, with locals as `spell`
writes them. Only here may a namespace be declared. -/
def analyzeSpelled (spell : String → String) (ns : String) (form : Form) : Analyzing Ast := do
  modify (·.register ns)
  match form with
  | .list pos (head :: items) =>
    if head.plainName? = some "ns" then analyzeDeclaration pos items
    else analyzeExpression ⟨ns, [], spell⟩ form
  | _ => analyzeExpression ⟨ns, [], spell⟩ form

end LiveLisp.Analysis
