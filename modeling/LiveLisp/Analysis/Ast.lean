import LiveLisp.Analysis.Env
import LiveLisp.Form.Basic
/-!
# Analyzed forms

An analyzed form has its names resolved and its special forms checked. Names of locals, members
and parameters are already script identifiers.
-/

namespace LiveLisp.Analysis

open Text (Position)

/-- A namespace declaration. -/
structure NsDecl where
  name : String
  requires : List String
  uses : List String
  requireMacros : List String
  deriving DecidableEq, Repr, Inhabited

/-- The namespaces that must be present at run time: the required ones, then the used ones, each
once. -/
def NsDecl.runtimeDeps (d : NsDecl) : List String :=
  distinct (d.requires ++ d.uses)

/-- An analyzed form with its position in the source. -/
inductive Ast where
  | const (pos : Position) (value : Form)
  | quote (pos : Position) (form : Form)
  | var (pos : Position) (ns name : String)
  | local (pos : Position) (name : String)
  | global (pos : Position) (name : String)
  | vector (pos : Position) (items : List Ast)
  | set (pos : Position) (items : List Ast)
  | map (pos : Position) (entries : List (Ast × Ast))
  | ns (pos : Position) (decl : NsDecl)
  | define (pos : Position) (ns name : String) (init : Option Ast)
  | block (pos : Position) (body : List Ast)
  | cond (pos : Position) (test thenBranch : Ast) (elseBranch : Option Ast)
  | bind (pos : Position) (bindings : List (String × Ast)) (body : List Ast)
  | func (pos : Position) (name : Option String) (params : List String) (rest : Option String)
      (body : List Ast)
  | assign (pos : Position) (target value : Ast)
  | throw (pos : Position) (value : Ast)
  | guard (pos : Position) (body : List Ast) (handler : Option (String × List Ast))
      (cleanup : List Ast)
  | new (pos : Position) (ctor : Ast) (args : List Ast)
  | method (pos : Position) (target : Ast) (name : String) (args : List Ast)
  | field (pos : Position) (target : Ast) (name : String)
  | invoke (pos : Position) (callee : Ast) (args : List Ast)
  deriving Inhabited

namespace Ast

/-- Where the analyzed form stands in the source. -/
def pos : Ast → Position
  | .const p .. | .quote p .. | .var p .. | .local p .. | .global p .. | .vector p ..
  | .set p .. | .map p .. | .ns p .. | .define p .. | .block p .. | .cond p .. | .bind p ..
  | .func p .. | .assign p .. | .throw p .. | .guard p .. | .new p .. | .method p ..
  | .field p .. | .invoke p .. => p

/-- The declaration, if this is one. -/
def nsDecl? : Ast → Option NsDecl
  | .ns _ d => some d
  | _ => none

/-- Whether a value can be assigned to this. -/
def isAssignable : Ast → Bool
  | .var .. | .local .. | .global .. | .field .. => true
  | _ => false

/-- Whether this is a constant that cannot be called; keywords can. -/
def isInertConst : Ast → Bool
  | .const _ value => value.keyword?.isNone
  | _ => false

end Ast

end LiveLisp.Analysis
