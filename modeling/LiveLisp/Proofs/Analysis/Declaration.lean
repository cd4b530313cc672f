import LiveLisp.Proofs.Analysis.Failure
/-!
# What declarations make known

An analysis forgets no namespace.  A top-level form is analyzed as a declaration exactly if it is
headed by `ns`, and then the namespace that it names is known.
-/

namespace LiveLisp

/-- The name that a declaration gives to its namespace. -/
def Form.declaredName? : Form → Option String
  | .list _ (_ :: name :: _) => name.plainName?
  | _ => none

namespace Analysis

open Fallible
open Munge (munge)
open Text (Position)

/-! ## Known namespaces -/

namespace Env

/-- What is known to the first environment is known to the second. -/
def Grows (env env' : Env) : Prop := ∀ ns, env.contains ns = true → env'.contains ns = true

theorem Grows.refl (env : Env) : env.Grows env := fun _ h => h

theorem Grows.trans {env env' env'' : Env} (h : env.Grows env') (h' : env'.Grows env'') :
    env.Grows env'' := fun ns hns => h' ns (h ns hns)

theorem contains_update (env : Env) (ns other : String) (f : NamespaceInfo → NamespaceInfo) :
    (env.update ns f).contains other = (decide (ns = other) || env.contains other) :=
  Table.contains_insert ..

theorem grows_update (env : Env) (ns : String) (f : NamespaceInfo → NamespaceInfo) :
    env.Grows (env.update ns f) := by
  intro other h
  rw [contains_update, h, Bool.or_true]

theorem contains_register (env : Env) (ns other : String) :
    (env.register ns).contains other = (decide (ns = other) || env.contains other) := by
  unfold register
  by_cases hknown : env.contains ns = true
  · rw [if_pos hknown]
    by_cases hother : ns = other
    · rw [← hother, hknown, Bool.or_true]
    · simp [hother]
  · rw [if_neg hknown]
    exact Table.contains_insert ..

theorem contains_register_self (env : Env) (ns : String) :
    (env.register ns).contains ns = true := by
  simp [contains_register]

theorem grows_register (env : Env) (ns : String) : env.Grows (env.register ns) := by
  intro other h
  rw [contains_register, h, Bool.or_true]

theorem grows_foldl_register (env : Env) (names : List String) :
    env.Grows (names.foldl register env) := by
  induction names generalizing env with
  | nil => exact .refl env
  | cons name names ih => exact (grows_register env name).trans (ih (env.register name))

end Env

theorem Draft.grows_record (d : Draft) (env : Env) : env.Grows (d.record env) :=
  (env.grows_register d.decl.name).trans
    ((Env.grows_foldl_register _ _).trans (Env.grows_update _ _ _))

theorem Draft.contains_record (d : Draft) (env : Env) :
    (d.record env).contains d.decl.name = true := by
  unfold Draft.record
  simp [Env.contains_update]

/-! ## Declared names -/

namespace Draft

variable {d d' : Draft}

/-! What every library keeps is kept by all clauses. -/

section Kept

variable {P : Draft → Prop} (hlib : ∀ d kind lib, P d → P (d.addLib kind lib))
include hlib

theorem of_addSpecs {kind : ClauseKind} {specs : List Form} (hd : P d)
    (h : d.addSpecs kind specs = .ok d') : P d' := by
  induction specs generalizing d with
  | nil => rwa [← Except.ok.inj h]
  | cons spec rest ih =>
    rw [addSpecs] at h
    cases hspec : LibSpec.ofForm? spec.unquote with
    | none =>
      rw [hspec] at h
      contradiction
    | some lib =>
      rw [hspec] at h
      exact ih (hlib d kind lib hd) h

theorem of_addClause {clause : Form} (hd : P d) (h : d.addClause clause = .ok d') : P d' := by
  unfold addClause at h
  split at h
  · rwa [← Except.ok.inj h]
  · split at h
    · contradiction
    · split at h
      · exact of_addSpecs hlib hd h
      · split at h
        · rwa [← Except.ok.inj h]
        · contradiction
  · contradiction

theorem of_addClauses {clauses : List Form} (hd : P d) (h : d.addClauses clauses = .ok d') :
    P d' := by
  induction clauses generalizing d with
  | nil => rwa [← Except.ok.inj h]
  | cons clause rest ih =>
    rw [addClauses] at h
    cases hclause : d.addClause clause with
    | error e =>
      rw [hclause] at h
      contradiction
    | ok d₁ =>
      rw [hclause] at h
      exact ih (of_addClause hlib hd hclause) h

end Kept

/-- A declaration begins with a name, and then come its clauses. -/
theorem ofItems_eq_ok {pos : Position} {items : List Form} (h : ofItems pos items = .ok d) :
    ∃ name clauses plain, items = name :: clauses ∧ name.plainName? = some plain ∧
      addClauses ⟨⟨plain, [], [], []⟩, [], []⟩ clauses = .ok d := by
  unfold ofItems at h
  split at h
  · contradiction
  · next name clauses =>
    split at h
    · contradiction
    · next plain hname => exact ⟨name, clauses, plain, rfl, hname, h⟩

theorem name_addLib (d : Draft) (kind : ClauseKind) (lib : LibSpec) :
    (d.addLib kind lib).decl.name = d.decl.name := by
  cases kind <;> rfl

theorem name_ofItems {pos : Position} {head : Form} {items : List Form}
    (h : ofItems pos items = .ok d) :
    (Form.list pos (head :: items)).declaredName? = some d.decl.name := by
  obtain ⟨name, clauses, plain, rfl, hname, hclauses⟩ := ofItems_eq_ok h
  have hkept : d.decl.name = plain :=
    of_addClauses (P := fun d => d.decl.name = plain)
      (fun d kind lib hd => (name_addLib d kind lib).trans hd) rfl hclauses
  rw [hkept]
  exact hname

end Draft

/-- The libraries of all clauses. -/
def NsDecl.libraries (decl : NsDecl) : List String :=
  decl.requires ++ decl.uses ++ decl.requireMacros

theorem Draft.libraries_addLib (d : Draft) (kind : ClauseKind) (lib : LibSpec) {other : String} :
    other ∈ (d.addLib kind lib).decl.libraries ↔ other ∈ d.decl.libraries ∨ other = lib.ns := by
  cases kind <;> simp [NsDecl.libraries, Draft.addLib, or_left_comm, or_comm]

/-- Aliases and referred names lead to libraries of the declaration. -/
theorem Draft.target_mem_libraries {d : Draft} {pos : Position} {items : List Form}
    (h : Draft.ofItems pos items = .ok d) :
    ∀ e ∈ d.aliases ++ d.refers, e.2 ∈ d.decl.libraries := by
  obtain ⟨name, clauses, plain, rfl, -, hclauses⟩ := Draft.ofItems_eq_ok h
  refine Draft.of_addClauses (P := fun d => ∀ e ∈ d.aliases ++ d.refers, e.2 ∈ d.decl.libraries)
    (fun d kind lib hd e he => ?_) (by simp) hclauses
  rw [Draft.libraries_addLib]
  have hcases : e ∈ d.aliases ++ d.refers ∨ e.2 = lib.ns := by
    simp only [Draft.addLib, List.mem_append, List.mem_map] at he
    rcases he with (he | ⟨short, -, rfl⟩) | (he | ⟨name, -, rfl⟩)
    · exact .inl (List.mem_append_left _ he)
    · exact .inr rfl
    · exact .inl (List.mem_append_right _ he)
    · exact .inr rfl
  exact hcases.imp_left (hd e)

/-! ## Expressions -/

section Expressions

/-- The computation gives an expression, if anything. -/
def GivesExpression (x : Analyzing Ast) : Prop := Returns (fun ast => ast.nsDecl? = none) x

variable (sub : Analyzer) (scope : Scope) (pos : Position)

theorem givesExpression_analyzeSymbol (sym : Symbol) :
    GivesExpression (analyzeSymbol scope pos sym) := by
  intro env ast env' h
  unfold analyzeSymbol at h
  cases hresolve : resolve env scope pos sym with
  | error e =>
    rw [hresolve] at h
    contradiction
  | ok found =>
    rw [hresolve] at h
    obtain ⟨rfl, -⟩ := EStateM.Result.ok.inj h
    rcases resolve_eq env scope pos sym with ⟨ast, hok, hshape, -⟩ | ⟨e, other, herror, -⟩
    · obtain rfl := Except.ok.inj (hresolve.symm.trans hok)
      -- what a symbol stands for can be assigned to, and a declaration cannot
      have hplace := hshape.place
      cases found with
      | ns => contradiction
      | _ => rfl
    · rw [hresolve] at herror
      contradiction

theorem givesExpression_analyzeMember (member : String) (args : List Form) :
    GivesExpression (analyzeMember sub scope pos member args) := by
  unfold analyzeMember
  split
  · exact returns_throw _
  · refine returns_bind fun target => ?_
    split
    · split
      · exact returns_throw _
      · split
        · exact returns_throw _
        · exact returns_pure rfl
    · exact returns_bind fun _ => returns_pure rfl

theorem givesExpression_analyzeDot (args : List Form) :
    GivesExpression (analyzeDot sub scope pos args) := by
  unfold analyzeDot
  dsimp only
  split
  · exact returns_bind fun name => givesExpression_analyzeMember sub scope pos name _
  · exact returns_bind fun name => givesExpression_analyzeMember sub scope pos name _
  · exact returns_throw _

theorem givesExpression_analyzeSpecial (special : Special) (args : List Form) :
    GivesExpression (analyzeSpecial sub scope pos special args) := by
  cases special with
  | ns => exact returns_throw _
  | define =>
    change Returns _ (analyzeDefine sub scope pos args)
    unfold analyzeDefine
    split
    · exact returns_throw _
    · split
      · exact returns_throw _
      · exact returns_bind fun _ => returns_bind fun _ => returns_pure rfl
  | block => exact returns_bind fun _ => returns_pure rfl
  | cond =>
    change Returns _ (analyzeCond sub scope pos args)
    unfold analyzeCond
    split
    · exact returns_throw _
    · exact returns_bind fun _ => returns_bind fun _ => returns_bind fun _ => returns_pure rfl
  | bind =>
    change Returns _ (analyzeBind sub scope pos args)
    unfold analyzeBind
    split
    · split
      · exact returns_throw _
      · exact returns_bind fun _ => returns_bind fun _ => returns_pure rfl
    · exact returns_throw _
  | func =>
    refine returns_bind fun r => ?_
    obtain ⟨name, args⟩ := r
    dsimp only
    split
    · exact returns_throw _
    · exact returns_bind fun _ => returns_bind fun _ => returns_pure rfl
    · exact returns_throw _
  | quote =>
    match args with
    | [] | _ :: _ :: _ => exact returns_throw _
    | [quoted] => exact returns_pure rfl
  | assign =>
    change Returns _ (analyzeAssign sub scope pos args)
    unfold analyzeAssign
    split
    · refine returns_bind fun target => ?_
      split
      · exact returns_bind fun _ => returns_pure rfl
      · exact returns_throw _
    · exact returns_throw _
  | throw =>
    match args with
    | [] | _ :: _ :: _ => exact returns_throw _
    | [value] => exact returns_bind fun _ => returns_pure rfl
  | guard => exact returns_bind fun _ => returns_bind fun _ => returns_pure rfl
  | new =>
    cases args with
    | nil => exact returns_throw _
    | cons ctor args => exact returns_bind fun _ => returns_bind fun _ => returns_pure rfl
  | dot => exact givesExpression_analyzeDot sub scope pos args

theorem givesExpression_analyzeWith (form : Form) :
    GivesExpression (analyzeWith sub scope form) := by
  cases form with
  | atom pos value =>
    cases value with
    | symbol sym => exact givesExpression_analyzeSymbol scope pos sym
    | _ => exact returns_pure rfl
  | vector | set | map => exact returns_bind fun _ => returns_pure rfl
  | list pos items =>
    cases items with
    | nil => exact returns_pure rfl
    | cons head args =>
      change Returns _ (analyzeList sub scope pos head args)
      unfold analyzeList
      split
      · exact givesExpression_analyzeSpecial sub scope pos _ args
      · split
        · exact givesExpression_analyzeMember sub scope pos _ args
        · split
          · exact returns_bind fun _ => returns_bind fun _ => returns_pure rfl
          · refine returns_bind fun callee => ?_
            split
            · exact returns_throw _
            · exact returns_bind fun _ => returns_pure rfl

theorem givesExpression_analyzeTo (depth : Nat) (form : Form) :
    GivesExpression (analyzeTo depth scope form) := by
  cases depth with
  | zero => exact returns_throw _
  | succ depth => exact givesExpression_analyzeWith (analyzeTo depth) scope form

end Expressions

/-! ## Top-level forms -/

section TopLevel

variable {ns : String} {form : Form} {env env' : Env} {ast : Ast}

theorem grows_analyzeDeclaration (pos : Position) (items : List Form) (env : Env) :
    env.Grows (finalState (analyzeDeclaration pos items) env) := by
  unfold finalState analyzeDeclaration
  cases Draft.ofItems pos items with
  | ok d => exact d.grows_record env
  | error e => exact .refl env

theorem grows_analyzeTo (depth : Nat) (ns : String) (form : Form) (h : env.contains ns = true) :
    env.Grows (finalState (analyzeTo depth ⟨ns, [], munge⟩ form) env) := by
  have htaken := guided_analyzeTo ns depth ⟨ns, [], munge⟩ form rfl env h
  intro other hother
  unfold finalState
  cases hrun : analyzeTo depth ⟨ns, [], munge⟩ form env with
  | ok a env' =>
    rw [hrun] at htaken
    cases htaken with
    | ok _ henv _ => rw [henv, Env.contains_defineAll h, hother]
  | error e env' =>
    rw [hrun] at htaken
    cases htaken with
    | failed _ henv => rw [henv, Env.contains_defineAll h, hother]

theorem grows_analyze (ns : String) (form : Form) (env : Env) :
    env.Grows (finalState (analyze ns form) env) := by
  refine (env.grows_register ns).trans ?_
  unfold finalState
  rcases analyze_top_cases ns form env with ⟨pos, head, items, -, -, hrun⟩ | ⟨-, hrun⟩
  · rw [hrun]
    exact grows_analyzeDeclaration pos items _
  · rw [hrun]
    exact grows_analyzeTo form.depth ns form (env.contains_register_self ns)

/-- What a successful analysis of a top-level form gives. -/
inductive Analyzed (form : Form) (env' : Env) : Option NsDecl → Prop
  | declaration {decl : NsDecl} (hheaded : form.isHeadedBy "ns" = true)
    (hname : form.declaredName? = some decl.name) (hknown : env'.contains decl.name = true) :
    Analyzed form env' (some decl)
  | expression (hheaded : form.isHeadedBy "ns" = false) : Analyzed form env' none

theorem analyzed_of_analyze (h : analyze ns form env = .ok ast env') :
    Analyzed form env' ast.nsDecl? := by
  rcases analyze_top_cases ns form env with ⟨pos, head, items, rfl, hheaded, hrun⟩ |
    ⟨hheaded, hrun⟩
  · rw [hrun, analyzeDeclaration] at h
    cases hdraft : Draft.ofItems pos items with
    | error e =>
      rw [hdraft] at h
      contradiction
    | ok d =>
      rw [hdraft] at h
      obtain ⟨rfl, rfl⟩ := EStateM.Result.ok.inj h
      exact .declaration hheaded (Draft.name_ofItems hdraft) (d.contains_record _)
  · rw [hrun] at h
    rw [givesExpression_analyzeTo _ _ _ _ _ _ h]
    exact .expression hheaded

end TopLevel

end Analysis

end LiveLisp
