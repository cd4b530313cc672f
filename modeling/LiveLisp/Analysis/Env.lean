import LiveLisp.Distinct
import LiveLisp.Table
import LiveLisp.Text.Position
/-!
# Analysis environment

What is known about the namespaces of a session: their definitions, aliases, referred names and
required namespaces.
-/

namespace LiveLisp.Analysis

open Text (Position)

/-- The namespace of the base library, always present at run time. -/
def coreNs : String := "cljs.core"

/-- The namespace a session starts in. -/
def userNs : String := "cljs.user"

/-- What is known about one namespace. -/
structure NamespaceInfo where
  name : String
  defs : List String
  aliases : Table String String
  refers : Table String String
  requires : List String
  deriving DecidableEq, Repr, Inhabited

namespace NamespaceInfo

/-- A namespace about which nothing but its name is known. -/
def fresh (name : String) : NamespaceInfo := ⟨name, [], .empty, .empty, []⟩

/-- The defined names in the order of their characters. -/
def sortedDefs (info : NamespaceInfo) : List String := info.defs.mergeSort (fun a b => a ≤ b)

end NamespaceInfo

/-- The known namespaces. -/
structure Env where
  namespaces : Table String NamespaceInfo
  deriving DecidableEq, Repr, Inhabited

namespace Env

/-- Whether a namespace is known. -/
def contains (env : Env) (ns : String) : Bool := env.namespaces.contains ns

def namespace? (env : Env) (ns : String) : Option NamespaceInfo := env.namespaces.get? ns

/-- Makes a namespace known; one that is known stays as it is. -/
def register (env : Env) (ns : String) : Env :=
  if env.contains ns then env else ⟨env.namespaces.insert ns (.fresh ns)⟩

/-- Changes what is known about a namespace, making it known first. -/
def update (env : Env) (ns : String) (f : NamespaceInfo → NamespaceInfo) : Env :=
  ⟨env.namespaces.insert ns (f ((env.namespace? ns).getD (.fresh ns)))⟩

/-- Records the definition of `name` in `ns`. -/
def define (env : Env) (ns name : String) : Env :=
  env.update ns fun info => { info with defs := insertNew info.defs name }

/-- The environment that knows the core and the user namespace. -/
def initial : Env := (Env.mk .empty).register coreNs |>.register userNs

end Env

/-- Why a form does not compile. -/
inductive CompileError where
  | invalidSpecial (special : String) (pos : Position) (reason : String)
  | noSuchNamespace (ns : String) (pos : Position)
  | notCallable (form : String) (pos : Position)
  deriving DecidableEq, Repr, Inhabited

/-- The text shown for a compile error. -/
def CompileError.message : CompileError → String
  | .invalidSpecial special p reason =>
    "Invalid " ++ special ++ " form at " ++ p.render ++ ": " ++ reason
  | .noSuchNamespace ns p => "No such namespace: " ++ ns ++ " at " ++ p.render
  | .notCallable form p => "Can't call " ++ form ++ " at " ++ p.render

/-- Computations on an environment that may fail; what was recorded before a failure stays. -/
abbrev Analyzing := EStateM CompileError Env

end LiveLisp.Analysis
