import LiveLisp.Analysis.Expression
/-!
# Analysis with a stack of locals

A form is analyzed with the names that are bound around it on a stack. Bindings put names on the
stack and take them off again on the way out, also when the analysis inside them fails.
-/

namespace LiveLisp.Analysis

open Text (Position)
open Munge (munge)

/-- Where a form is analyzed when the names bound around it are those on a stack, innermost last;
locals are written as script identifiers. -/
def Scope.ofStack (ns : String) (locals : List String) : Scope := ⟨ns, locals.reverse, munge⟩

/-- What an analysis works with: the environment, the current namespace, and the names bound
around the form at hand, innermost last. -/
structure Context where
  env : Env
  ns : String
  locals : List String

namespace Context

/-- Where the form at hand is analyzed. -/
def scope (c : Context) : Scope := .ofStack c.ns c.locals

/-- Puts names on the stack, the last one innermost. -/
def push (names : List String) (c : Context) : Context := { c with locals := c.locals ++ names }

/-- Takes the innermost name off the stack. -/
def pop (c : Context) : Context := { c with locals := c.locals.dropLast }

/-- Cuts the stack to its `size` outermost names. -/
def truncate (size : Nat) (c : Context) : Context := { c with locals := c.locals.take size }

end Context

/-- Analysis with a stack of locals. -/
abbrev Stacking := EStateM CompileError Context

namespace Stacked

variable {α : Type}

/-- A computation on the environment alone. -/
def onEnv (x : Analyzing α) : Stacking α := fun c =>
  match x c.env with
  | .ok a env => .ok a { c with env }
  | .error e env => .error e { c with env }

/-- Does something to the context at the end, whether the computation succeeds or fails. -/
def leaving (exit : Context → Context) (x : Stacking α) : Stacking α := fun c =>
  match x c with
  | .ok a c => .ok a (exit c)
  | .error e c => .error e (exit c)

/-- Cuts the stack back to what it is now at the end. -/
def restoring (x : Stacking α) : Stacking α := do
  let size := (← get).locals.length
  leaving (Context.truncate size) x

/-- Resolves a symbol where it stands. -/
def analyzeSymbol (pos : Position) (sym : Symbol) : Stacking Ast := do
  onEnv (Analysis.analyzeSymbol (← get).scope pos sym)

/-- How the parts of an expression are analyzed. -/
abbrev Analyzer := Form → Stacking Ast

/-- Analyzes expressions from left to right. -/
def analyzeAll (sub : Analyzer) : List Form → Stacking (List Ast)
  | [] => return []
  | form :: rest => do
    let ast ← sub form
    return ast :: (← analyzeAll sub rest)

/-- Analyzes keys and values from left to right. -/
def analyzeEntries (sub : Analyzer) : List (Form × Form) → Stacking (List (Ast × Ast))
  | [] => return []
  | (key, value) :: rest => do
    let k ← sub key
    let v ← sub value
    return (k, v) :: (← analyzeEntries sub rest)

/-- Analyzes a form that may be missing. -/
def analyzeOption (sub : Analyzer) : Option Form → Stacking (Option Ast)
  | none => return none
  | some form => return some (← sub form)

/-- Analyzes `(def name doc? init?)`. The name is known from here on. -/
def analyzeDefine (sub : Analyzer) (pos : Position) (args : List Form) : Stacking Ast := do
  match definitionParts args with
  | none => throw (.invalidSpecial "def" pos "expected (def name init?)")
  | some (name, init) =>
    match name.plainName? with
    | none => throw (.invalidSpecial "def" pos "name must be an unqualified symbol")
    | some name => do
      let ns := (← get).ns
      onEnv (modify fun env => env.define ns name)
      return .define pos ns name (← analyzeOption sub init)

/-- Analyzes `(if test then else?)`: the else branch before the test and the other branch. -/
def analyzeCond (sub : Analyzer) (pos : Position) (args : List Form) : Stacking Ast := do
  match condParts args with
  | none => throw (.invalidSpecial "if" pos "expected 2 or 3 arguments")
  | some (test, thenBranch, elseBranch) => do
    let elseBranch ← analyzeOption sub elseBranch
    let test ← sub test
    let thenBranch ← sub thenBranch
    return .cond pos test thenBranch elseBranch

/-- Analyzes bindings from left to right. Each name is put on the stack after its value. -/
def analyzeBindings (sub : Analyzer) : List (Form × Form) → Stacking (List (String × Ast))
  | [] => return []
  | (name, init) :: rest => do
    let name ← onEnv (bindingName "let" name)
    let init ← sub init
    modify (Context.push [name])
    return (munge name, init) :: (← analyzeBindings sub rest)

/-- Analyzes `(let [name init ...] body*)`. -/
def analyzeBind (sub : Analyzer) (pos : Position) (args : List Form) : Stacking Ast := do
  match args with
  | .vector vectorPos items :: body =>
    match Form.pairUp items with
    | none =>
      throw (.invalidSpecial "let" vectorPos "binding vector needs an even number of forms")
    | some pairs => restoring do
      let bindings ← analyzeBindings sub pairs
      return .bind pos bindings (← analyzeAll sub body)
  | _ => throw (.invalidSpecial "let" pos "expected a binding vector")

/-- Analyzes `(fn name? [parameter*] body*)`. -/
def analyzeFunc (sub : Analyzer) (pos : Position) (args : List Form) : Stacking Ast := do
  let (name, args) ← onEnv (functionName args)
  match args with
  | [] => throw (.invalidSpecial "fn" pos "expected a parameter vector")
  | .vector _ params :: body => do
    let (names, rest) ← onEnv (parameters params)
    let body ← restoring do
      modify (Context.push (name.toList ++ names ++ rest.toList))
      analyzeAll sub body
    return .func pos (name.map munge) (names.map munge) (rest.map munge) body
  | other :: _ =>
    throw (.invalidSpecial "fn" other.pos "multi-arity functions are not supported")

/-- Analyzes `(set! target value)`. -/
def analyzeAssign (sub : Analyzer) (pos : Position) (args : List Form) : Stacking Ast := do
  match args with
  | [target, value] => do
    let target ← sub target
    if target.isAssignable then return .assign pos target (← sub value)
    else throw (.invalidSpecial "set!" pos "cannot assign to this target")
  | _ => throw (.invalidSpecial "set!" pos "expected (set! target value)")

/-- Analyzes the clauses of a guarded block: one handler and one cleanup at most, the handler
first. A cleanup without forms counts as none. -/
def analyzeClauses (sub : Analyzer) (done : Clauses) : List Form → Stacking Clauses
  | [] => return done
  | form :: rest =>
    let items := (form.list?.getD []).drop 1
    if form.isHeadedBy "catch" && done.handler.isNone && done.cleanup.isEmpty then
      match items with
      | _ :: binding :: body => do
        let name ← onEnv (bindingName "try" binding)
        modify (Context.push [name])
        let body ← leaving Context.pop (analyzeAll sub body)
        analyzeClauses sub { done with handler := some (munge name, body) } rest
      | _ => throw (.invalidSpecial "try" form.pos "expected (catch type name body*)")
    else if form.isHeadedBy "finally" && done.cleanup.isEmpty then do
      let items ← analyzeAll sub items
      analyzeClauses sub { done with cleanup := items } rest
    else
      throw (.invalidSpecial "try" form.pos "body forms must precede catch and finally clauses")

/-- Analyzes `(try body* clause*)`; the body ends before the first clause. -/
def analyzeGuard (sub : Analyzer) (pos : Position) (args : List Form) : Stacking Ast := do
  let (body, clauses) := args.span (fun form => !isClause form)
  let body ← analyzeAll sub body
  let clauses ← analyzeClauses sub ⟨none, []⟩ clauses
  return .guard pos body clauses.handler clauses.cleanup

/-- Analyzes `(new constructor argument*)`. -/
def analyzeNew (sub : Analyzer) (pos : Position) (args : List Form) : Stacking Ast := do
  match args with
  | [] => throw (.invalidSpecial "new" pos "expected a constructor")
  | ctor :: args => do
    let ctor ← sub ctor
    return .new pos ctor (← analyzeAll sub args)

/-- Analyzes access to a member: `-name` is a field and takes no arguments, any other name is a
method. -/
def analyzeMember (sub : Analyzer) (pos : Position) (member : String) (args : List Form) :
    Stacking Ast := do
  match args with
  | [] => throw (.invalidSpecial "." pos "missing target")
  | target :: args => do
    let target ← sub target
    match member.toList with
    | '-' :: field =>
      if field.isEmpty then throw (.invalidSpecial "." pos "missing field name")
      else if !args.isEmpty then
        throw (.invalidSpecial "." pos "field access takes no arguments")
      else return .field pos target (munge (String.ofList field))
    | _ => return .method pos target (munge member) (← analyzeAll sub args)

/-- Analyzes `(. target member argument*)` and `(. target (member argument*))`. -/
def analyzeDot (sub : Analyzer) (pos : Position) (args : List Form) : Stacking Ast := do
  let access := fun (target member : Form) (args : List Form) => do
    let name ← onEnv (bindingName "." member)
    analyzeMember sub pos name (target :: args)
  match args with
  | [target, .list _ (member :: args)] => access target member args
  | target :: member :: args => access target member args
  | _ => throw (.invalidSpecial "." pos "expected (. target member args*)")

/-- Analyzes a special form from the forms after its head. -/
def analyzeSpecial (sub : Analyzer) (pos : Position) (special : Special) (args : List Form) :
    Stacking Ast :=
  match special with
  | .ns => throw (.invalidSpecial "ns" pos "namespace declarations must appear at top level")
  | .define => analyzeDefine sub pos args
  | .block => return .block pos (← analyzeAll sub args)
  | .cond => analyzeCond sub pos args
  | .bind => analyzeBind sub pos args
  | .func => analyzeFunc sub pos args
  | .quote =>
    match args with
    | [quoted] => return .quote pos quoted
    | _ => throw (.invalidSpecial "quote" pos "expected exactly one argument")
  | .assign => analyzeAssign sub pos args
  | .throw =>
    match args with
    | [value] => return .throw pos (← sub value)
    | _ => throw (.invalidSpecial "throw" pos "expected exactly one argument")
  | .guard => analyzeGuard sub pos args
  | .new => analyzeNew sub pos args
  | .dot => analyzeDot sub pos args

/-- Analyzes a call of what the head of a list stands for. -/
def analyzeCall (sub : Analyzer) (pos : Position) (head : Form) (args : List Form) :
    Stacking Ast := do
  let callee ← sub head
  if callee.isInertConst then throw (.notCallable head.render pos)
  else return .invoke pos callee (← analyzeAll sub args)

/-- Analyzes a list whose head has no special meaning: a construction or a call. -/
def analyzeOrdinary (sub : Analyzer) (pos : Position) (head : Form) (args : List Form) :
    Stacking Ast :=
  match constructorHead? head with
  | some ctor => do
    let ctor ← analyzeSymbol head.pos ctor
    return .new pos ctor (← analyzeAll sub args)
  | none => analyzeCall sub pos head args

/-- Analyzes a list that is not empty: a special form, access to a member, a construction or a
call. -/
def analyzeList (sub : Analyzer) (pos : Position) (head : Form) (args : List Form) :
    Stacking Ast := do
  let scope := (← get).scope
  match specialHead? scope head with
  | some special => analyzeSpecial sub pos special args
  | none =>
    match memberHead? scope head with
    | some member => analyzeMember sub pos member args
    | none => analyzeOrdinary sub pos head args

/-- Analyzes a form whose parts are analyzed by `sub`. -/
def analyzeWith (sub : Analyzer) : Form → Stacking Ast
  | .atom pos (.symbol sym) => analyzeSymbol pos sym
  | .atom pos value => return .const pos (.atom pos value)
  | .vector pos items => return .vector pos (← analyzeAll sub items)
  | .set pos items => return .set pos (← analyzeAll sub items)
  | .map pos entries => return .map pos (← analyzeEntries sub entries)
  | .list pos [] => return .quote pos (.list pos [])
  | .list pos (head :: args) => analyzeList sub pos head args

/-- Analyzes a form no deeper than `depth`. -/
def analyzeTo : Nat → Analyzer
  | 0, form => throw (.notCallable form.render form.pos)
  | depth + 1, form => analyzeWith (analyzeTo depth) form

/-- Analyzes a top-level form. Only here may a namespace be declared. -/
def analyzeTop (form : Form) : Stacking Ast :=
  match form with
  | .list pos (head :: items) =>
    if head.plainName? = some "ns" then onEnv (analyzeDeclaration pos items)
    else analyzeTo form.depth form
  | _ => analyzeTo form.depth form

end Stacked

/-- Analyzes a top-level form in the namespace `ns`, which becomes known, beginning with an empty
stack. -/
def analyze (ns : String) (form : Form) : Analyzing Ast := fun env =>
  match Stacked.analyzeTop form ⟨env.register ns, ns, []⟩ with
  | .ok ast c => .ok ast c.env
  | .error e c => .error e c.env

end LiveLisp.Analysis
