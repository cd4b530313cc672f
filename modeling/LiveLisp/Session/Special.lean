import LiveLisp.Munge
import LiveLisp.Session.Evaluation
/-!
# Special forms of the prompt

Forms that the session deals with itself: changing the namespace, requiring namespaces, and
loading files.
-/

namespace LiveLisp.Session

open Files (Pathname)

variable {β : Type}

/-- A handler gets the whole form, its head included. -/
abbrev Special (β : Type) := Setting β → Form → Run β Unit

/-- What follows the head of a list. -/
def arguments (form : Form) : List Form := (form.list?.getD []).tail

/-- The namespace that is the only argument of a form, with or without a quote. -/
def namespaceArgument (special : String) (form : Form) : Except SessionError String :=
  match arguments form with
  | [argument] =>
    match argument.unquote.plainName? with
    | some ns => .ok ns
    | none => .error (.invalidSpecial special "expected a quoted namespace symbol")
  | _ => .error (.invalidSpecial special "expected exactly one argument")

/-- `(in-ns 'ns)` goes to a namespace. One that is not known yet is made known to the runtime. -/
def inNs : Special β := fun c form => do
  match namespaceArgument "in-ns" form with
  | .error e => throw e
  | .ok ns =>
    if !(← get).env.contains ns then
      modify fun s => { s with env := s.env.register ns }
      let code := "goog.provide('" ++ Munge.mungePath ns ++ "');"
      let result ← send c promptFile form.pos.line code
      if !result.isSuccess then throw (.evaluationFailed result.value)
    enter ns

/-- The declaration of `ns` with one clause over the unquoted arguments. -/
def declarationOf (ns clause : String) (form : Form) : Form :=
  let p := form.pos
  .list p
    [.symbol "ns" p, .symbol ns p,
      .list p (.keyword (.plain clause) p :: (arguments form).map Form.unquote)]

/-- `(require spec...)` declares the current namespace again, with one more clause. -/
def requireBy (clause : String) : Special β := fun c form => do
  if (arguments form).isEmpty then
    throw (.invalidSpecial clause "expected at least one libspec")
  let decl := declarationOf (← get).state.ns clause form
  let e ← evaluateForm c promptFile .identity decl
  if !e.result.isSuccess then displayFailure c decl e

/-- The file name that is the only argument of `load-file`. -/
def fileArgument (form : Form) : Except SessionError Pathname :=
  match arguments form with
  | [argument] =>
    match argument.str? with
    | some name => .ok ⟨name⟩
    | none => .error (.invalidSpecial "load-file" "expected a file name string")
  | _ => .error (.invalidSpecial "load-file" "expected exactly one argument")

/-- The forms of a source file. -/
def sourceForms (files : Files.Tree) (path : Pathname) : Except SessionError (List Form) :=
  if !files.isFile path then .error (.missingSource path)
  else
    match files.readText path with
    | .error e => .error (.unreadableSource path e.message [])
    | .ok text =>
      match Reading.readAll text with
      | .error e => .error (.read e)
      | .ok forms => .ok forms

/-- Evaluates forms of a file up to the first that fails, which is displayed. -/
def evaluateAll (c : Setting β) (file : String) : List Form → Run β Unit
  | [] => return
  | form :: rest => do
    let e ← evaluateForm c file .identity form
    if e.result.isSuccess then evaluateAll c file rest else displayFailure c form e

/-- A computation after which the session is in the namespace it was in before, also if it
fails. -/
def keepingNs (action : Run β Unit) : Run β Unit := fun s =>
  match action s with
  | .ok _ s' => .ok () { s' with state := s'.state.enter s.state.ns }
  | .error e s' => .error e { s' with state := s'.state.enter s.state.ns }

/-- `(load-file "name")` evaluates the forms of a file; the prompt keeps its namespace. -/
def loadFile : Special β := fun c form => do
  match fileArgument form with
  | .error e => throw e
  | .ok path =>
    match sourceForms (← get).world.files path with
    | .error e => throw e
    | .ok forms => keepingNs (evaluateAll c path.text forms)

/-- `(load-namespace 'ns)` delivers a namespace and what it needs. -/
def loadNamespaceForm : Special β := fun c form => do
  match namespaceArgument "load-namespace" form with
  | .error e => throw e
  | .ok ns => let _ ← loadNamespace c ns

/-- Handlers by the names that head their forms. -/
def builtins : Table String (Special β) :=
  ⟨[("in-ns", inNs), ("require", requireBy "require"),
    ("require-macros", requireBy "require-macros"), ("load-file", loadFile),
    ("load-namespace", loadNamespaceForm)]⟩

end LiveLisp.Session
