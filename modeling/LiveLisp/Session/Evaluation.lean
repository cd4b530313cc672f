import LiveLisp.Form.Printer
import LiveLisp.Script.Emit
import LiveLisp.Session.Loading
import LiveLisp.Session.Wrap
import LiveLisp.SourceMap.Inline
import LiveLisp.Text.Quoted
/-!
# Evaluating forms

A form is wrapped, analyzed and emitted, and the script goes to the backend. A namespace
declaration first has what it needs loaded, and a successful one makes its namespace the current
one.
-/

namespace LiveLisp.Session

open Backend (Result)

variable {β : Type}

/-- The file name of forms typed at the prompt. -/
def promptFile : String := "<cljs repl>"

/-- A form that went to the backend: the script that was sent, and its result. -/
structure Evaluation where
  js : String
  result : Result
  deriving DecidableEq, Repr, Inhabited

/-- The script of an analyzed form. With source maps it carries its own, under a name made from
the time. -/
def scriptOf (options : Options) (now : Nat) (form : Form) (ast : Analysis.Ast) : String :=
  let emitted := Script.emit options.wantsSourceMap ast
  if options.wantsSourceMap then
    let stem := "repl-" ++ toString now
    emitted.js ++ SourceMap.inlineComment (stem ++ ".js") (stem ++ ".cljs") form.render
      emitted.mappings form.pos.line
  else emitted.js

/-- Loads what a declaration needs. -/
def loadDeclared (c : Setting β) (ast : Analysis.Ast) : Run β Unit := do
  match ast.nsDecl? with
  | some decl => let _ ← loadDependencies c decl.runtimeDeps
  | none => return

/-- Enters the namespace of a declaration. -/
def enterDeclared (ast : Analysis.Ast) : Run β Unit := do
  match ast.nsDecl? with
  | some decl => enter decl.name
  | none => return

/-- Shows a script before it goes out, if that is wanted. -/
def showScript (c : Setting β) (js : String) : Run β Unit :=
  if c.options.isVerbose then printText (js ++ "\n") else return

/-- Compiles a form in the current namespace and evaluates it. -/
def evaluateForm (c : Setting β) (file : String) (wrap : Wrap) (form : Form) :
    Run β Evaluation := do
  let ast ← onEnv (Analysis.analyze (← get).state.ns (wrap.apply form))
  let js := scriptOf c.options (c.clock (← get).exchanges.length) form ast
  showScript c js
  loadDeclared c ast
  let result ← send c file form.pos.line js
  if result.isSuccess then enterDeclared ast
  return ⟨js, result⟩

/-- Prints a stack trace: in source positions if the backend can read it and source maps are
wanted, else as it is. -/
def printTrace (c : Setting β) (result : Result) : Run β Unit := do
  match result.trace?, c.backend.traceParser, c.options.wantsSourceMap with
  | none, _, _ => return
  | some raw, some parse, true =>
    let s ← get
    let (text, tracer) := s.tracer.frames s.world.files (parse raw result c.options)
    set { s with tracer := tracer }
    printText text
  | some raw, _, _ => printText (raw ++ "\n")

/-- Prints a failed evaluation with its stack trace. -/
def displayFailure (c : Setting β) (form : Form) (e : Evaluation) : Run β Unit := do
  printText (errorLine c.options.isColored e.result.value)
  printTrace c e.result
  if c.options.isVerbose && e.result.isException then
    printText ("Error evaluating: " ++ form.render ++ " :as " ++ Text.quoted e.js ++ "\n")

/-- Remembers what came of a form, if it was wrapped for that. -/
def remember (wrap : Wrap) (result : Result) : Run β Unit :=
  match wrap with
  | .record =>
    modify fun s =>
      { s with
        state :=
          if result.isSuccess then s.state.recordSuccess result.value
          else s.state.recordFailure result.value }
  | _ => return

/-- Evaluates a form typed at the prompt and prints what came of it. -/
def evalAndPrint (c : Setting β) (form : Form) : Run β Unit := do
  let wrap := Wrap.ofForm form
  let e ← evaluateForm c promptFile wrap form
  if e.result.isSuccess then
    printText (e.result.value ++ "\n")
    remember wrap e.result
  else
    remember wrap e.result
    displayFailure c form e

end LiveLisp.Session
