import LiveLisp.Proofs.Analysis.Depth
import LiveLisp.Proofs.Analysis.Failure
import LiveLisp.Proofs.Session.Trace
import LiveLisp.Session.Wrap
/-!
# Analysis of wrapped forms

What a form is wrapped in does not get in the way of the form: analysis accepts the wrapped form
exactly if it accepts the form, and finds the same in it.  But the names that the wrapper uses are
resolved as any other names are.  They are names of the core namespace as long as the current
namespace does not take them.
-/

namespace LiveLisp.Analysis

open Fallible
open Munge (munge)
open Text (Position)

/-! ## Expressions by parts -/

section Parts

variable {sub : Analyzer} {scope : Scope} {pos : Position} {form head : Form}
  {forms args : List Form} {ast : Ast} {asts : List Ast} {env env₁ env₂ : Env} {e : CompileError}

theorem analyzeAll_cons_of_ok (h : sub scope form env = .ok ast env₁)
    (hrest : analyzeAll sub scope forms env₁ = .ok asts env₂) :
    analyzeAll sub scope (form :: forms) env = .ok (ast :: asts) env₂ := by
  rw [analyzeAll, bind_of_ok h, bind_of_ok hrest]
  rfl

theorem analyzeAll_cons_of_error (h : sub scope form env = .error e env₁) :
    analyzeAll sub scope (form :: forms) env = .error e env₁ := by
  rw [analyzeAll, bind_of_error h]

theorem analyzeExpression_special {special : Special}
    (h : specialHead? scope head = some special) :
    analyzeExpression scope (.list pos (head :: args)) =
      analyzeSpecial analyzeExpression scope pos special args := by
  rw [analyzeExpression_eq, analyzeWith, analyzeList, h]

theorem analyzeExpression_call (hspecial : specialHead? scope head = none)
    (hmember : memberHead? scope head = none) (hctor : constructorHead? head = none) :
    analyzeExpression scope (.list pos (head :: args)) =
      analyzeCall analyzeExpression scope pos head args := by
  rw [analyzeExpression_eq, analyzeWith, analyzeList, hspecial, hmember, hctor]

end Parts

/-! ## Plain names -/

/-- The namespace whose `name` is meant by a plain name in `ns`. -/
def Env.target (env : Env) (ns name : String) : String :=
  let info := (env.namespace? ns).getD (.fresh ns)
  (info.refers.get? name).getD (if info.defs.contains name then ns else coreNs)

theorem Env.target_register (env : Env) (ns name : String) :
    (env.register ns).target ns name = env.target ns name := by
  rw [target, target, getD_namespace?_register]

/-- The namespace `ns` leaves `name` to the core namespace: it neither refers to a `name` of another
namespace nor has one of its own. -/
def Env.LeavesToCore (env : Env) (ns name : String) : Prop :=
  ∀ info ∈ env.namespace? ns, (∀ target ∈ info.refers.get? name, target = coreNs) ∧
    (info.refers.get? name = none → name ∈ info.defs → ns = coreNs)

theorem Env.target_eq_coreNs_iff (env : Env) (ns name : String) :
    env.target ns name = coreNs ↔ env.LeavesToCore ns name := by
  unfold target LeavesToCore
  cases env.namespace? ns with
  | none => simp [NamespaceInfo.fresh]
  | some info =>
    cases hrefers : info.refers.get? name with
    | some target => simp [hrefers]
    | none =>
      by_cases hdefs : name ∈ info.defs
      · simp [hrefers, hdefs]
      · simp [hrefers, hdefs]

instance (env : Env) (ns name : String) : Decidable (env.LeavesToCore ns name) :=
  decidable_of_iff _ (env.target_eq_coreNs_iff ns name)

section Names

variable {scope : Scope} {name : String}

theorem analyzeExpression_name (hplain : Symbol.ofText name = .plain name)
    (hdotted : isDotted name = false) (hlocal : scope.isLocal name = false) (pos : Position)
    (env : Env) :
    analyzeExpression scope (.symbol name pos) env =
      .ok (.var pos (env.target scope.ns name) name) env := by
  rw [analyzeExpression_eq, Form.symbol, hplain, analyzeWith, analyzeSymbol, resolve]
  simp only [Symbol.plain, hlocal, hdotted, Bool.false_eq_true, if_false, Env.target]
  cases ((env.namespace? scope.ns).getD (.fresh scope.ns)).refers.get? name <;> rfl

theorem analyzeExpression_local (hplain : Symbol.ofText name = .plain name)
    (hlocal : scope.isLocal name = true) (pos : Position) (env : Env) :
    analyzeExpression scope (.symbol name pos) env = .ok (.local pos (scope.spell name)) env := by
  rw [analyzeExpression_eq, Form.symbol, hplain, analyzeWith, analyzeSymbol, resolve]
  simp only [Symbol.plain, hlocal, if_true]

theorem bindingName_symbol (hplain : Symbol.ofText name = .plain name) (special : String)
    (pos : Position) : bindingName special (.symbol name pos) = pure name := by
  rw [bindingName, Form.symbol, hplain]
  rfl

end Names

section Bind

variable {sub : Analyzer} {scope : Scope} {name : String}
  (hplain : Symbol.ofText name = .plain name) {init : Form} {body : List Form} {ast : Ast}
  {asts : List Ast} {env env₁ env₂ : Env} {e : CompileError}
include hplain

theorem analyzeBind_single_of_ok (hinit : sub scope init env = .ok ast env₁)
    (hbody : analyzeAll sub (scope.bind name) body env₁ = .ok asts env₂) (pos p q : Position) :
    analyzeBind sub scope pos (.vector p [.symbol name q, init] :: body) env =
      .ok (.bind pos [(scope.spell name, ast)] asts) env₂ := by
  have hbindings : analyzeBindings sub scope [(.symbol name q, init)] env =
      .ok ([(scope.spell name, ast)], scope.bind name) env₁ := by
    rw [analyzeBindings, bindingName_symbol hplain, pure_bind, bind_of_ok hinit]
    rfl
  rw [analyzeBind, Form.pairUp, Form.pairUp]
  dsimp only [Option.map_some]
  rw [bind_of_ok hbindings, bind_of_ok hbody]
  rfl

theorem analyzeBind_single_of_error (hinit : sub scope init env = .error e env₁)
    (pos p q : Position) :
    analyzeBind sub scope pos (.vector p [.symbol name q, init] :: body) env = .error e env₁ := by
  have hbindings : analyzeBindings sub scope [(.symbol name q, init)] env = .error e env₁ := by
    rw [analyzeBindings, bindingName_symbol hplain, pure_bind, bind_of_error hinit]
  rw [analyzeBind, Form.pairUp, Form.pairUp]
  dsimp only [Option.map_some]
  rw [bind_of_error hbindings]

end Bind

/-- A form that is no declaration is an expression in a namespace that is known. -/
theorem analyze_of_not_headed {ns : String} {form : Form} (h : form.isHeadedBy "ns" = false)
    (env : Env) :
    analyze ns form env = analyzeExpression ⟨ns, [], munge⟩ form (env.register ns) := by
  rcases analyze_top_cases ns form env with ⟨pos, head, items, -, hheaded, -⟩ | ⟨-, hrun⟩
  · rw [h] at hheaded
    contradiction
  · exact hrun

end LiveLisp.Analysis

namespace LiveLisp.Session

open Analysis Fallible
open Munge (munge)
open Text (Position)

namespace Wrap

/-- What analysis finds in a wrapped form: the form itself, and the names that the wrapper uses. -/
structure Parts where
  form : Ast
  references : List Ast

/-- The parts of an analyzed form that was wrapped. -/
def parts? : Wrap → Ast → Option Parts
  | .identity, ast => some ⟨ast, []⟩
  | .printOnly, .invoke _ printer [form] => some ⟨form, [printer]⟩
  | .record, .guard _
      [.bind _ [("ret__auto__", form)]
        [.assign _ third second, .assign _ second' first,
          .assign _ first' (.local _ "ret__auto__"), .invoke _ printer [.local _ "ret__auto__"]]]
      (some ("e__auto__",
        [.assign _ failure (.local _ "e__auto__"), .throw _ (.local _ "e__auto__")])) [] =>
    some ⟨form, [third, second, second', first, first', printer, failure]⟩
  | _, _ => none

/-- The names that the wrapper uses. -/
def names : Wrap → List String
  | .identity => []
  | .printOnly => ["pr-str"]
  | .record => ["*3", "*2", "*2", "*1", "*1", "pr-str", "*e"]

/-- A name that the wrapper uses in `ns`, resolved in `env`. -/
def reference (env : Env) (ns : String) (p : Position) (name : String) : Ast :=
  .var p (env.target ns name) name

section Analyzed

variable (ns : String) (p : Position) (env : Env)

/-- What analysis makes of the part that shifts the kept values and prints the new one. -/
def kept : List Ast :=
  let ref := reference env ns p
  let value := Ast.local p (munge "ret__auto__")
  [.assign p (ref "*3") (ref "*2"), .assign p (ref "*2") (ref "*1"), .assign p (ref "*1") value,
    .invoke p (ref "pr-str") [value]]

/-- What analysis makes of the part that keeps a failure and throws it on. -/
def thrown : List Ast :=
  let failure := Ast.local p (munge "e__auto__")
  [.assign p (reference env ns p "*e") failure, .throw p failure]

/-- What analysis makes of a form wrapped in `ns`. -/
def analyzed (wrap : Wrap) (ast : Ast) : Ast :=
  match wrap with
  | .identity => ast
  | .printOnly => .invoke p (reference env ns p "pr-str") [ast]
  | .record =>
    .guard p [.bind p [(munge "ret__auto__", ast)] (kept ns p env)]
      (some (munge "e__auto__", thrown ns p env)) []

theorem parts?_analyzed (wrap : Wrap) (ast : Ast) :
    wrap.parts? (analyzed ns p env wrap ast) =
      some ⟨ast, wrap.names.map (reference env ns p)⟩ := by
  cases wrap <;> rfl

end Analyzed

/-! ## The parts of the wrapper -/

section Wrapper

variable {scope : Scope} {p : Position} {env env' : Env}

theorem analyze_assignment {target value : String} {place ast : Ast}
    (hset : scope.isLocal "set!" = false) (hplace : place.isAssignable = true)
    (htarget : analyzeExpression scope (.symbol target p) env = .ok place env)
    (hvalue : analyzeExpression scope (.symbol value p) env = .ok ast env) :
    analyzeExpression scope (assignment p target value) env = .ok (.assign p place ast) env := by
  have hspecial : specialHead? scope (.symbol "set!" p) = some .assign := by
    simp only [specialHead?, show (Form.symbol "set!" p).plainName? = some "set!" from rfl, hset]
    rfl
  rw [assignment, analyzeExpression_special hspecial, analyzeSpecial, analyzeAssign,
    bind_of_ok htarget, if_pos hplace, bind_of_ok hvalue]
  rfl

theorem analyze_printing (hlocal : scope.isLocal "pr-str" = false) (p : Position) (value : Form)
    (env : Env) :
    analyzeExpression scope (printing p value) env =
      (analyzeAll analyzeExpression scope [value] >>= fun args =>
        pure (.invoke p (.var p (env.target scope.ns "pr-str") "pr-str") args)) env := by
  have hname : (Form.symbol "pr-str" p).plainName? = some "pr-str" := rfl
  have hspecial : specialHead? scope (.symbol "pr-str" p) = none := by
    simp only [specialHead?, hname, hlocal]
    rfl
  have hmember : memberHead? scope (.symbol "pr-str" p) = none := by
    simp only [memberHead?, hname]
    rfl
  have hcallee := analyzeExpression_name (by decide) (by decide) hlocal p env
  rw [printing, analyzeExpression_call hspecial hmember rfl, analyzeCall, bind_of_ok hcallee]
  rfl

end Wrapper

/-- What is done with the value of the form. -/
def keeping (p : Position) : List Form :=
  [assignment p "*3" "*2", assignment p "*2" "*1", assignment p "*1" "ret__auto__",
    printing p (.symbol "ret__auto__" p)]

/-- What is done with a failure of the form. -/
def failing (p : Position) : List Form :=
  [assignment p "*e" "e__auto__", .list p [.symbol "throw" p, .symbol "e__auto__" p]]

def binding (p : Position) (form : Form) : Form :=
  .list p (.symbol "let" p :: .vector p [.symbol "ret__auto__" p, form] :: keeping p)

def catching (p : Position) : Form :=
  .list p (.symbol "catch" p :: .keyword (.plain "default") p :: .symbol "e__auto__" p :: failing p)

theorem recording_eq (p : Position) (form : Form) :
    recording p form = .list p [.symbol "try" p, binding p form, catching p] :=
  rfl

section Recording

variable (ns : String) (p : Position) (env : Env)

theorem analyze_keeping :
    analyzeAll analyzeExpression ⟨ns, ["ret__auto__"], munge⟩ (keeping p) env =
      .ok (kept ns p env) env := by
  let scope : Scope := ⟨ns, ["ret__auto__"], munge⟩
  have hslot : ∀ name, Symbol.ofText name = .plain name → isDotted name = false →
      scope.isLocal name = false →
      analyzeExpression scope (.symbol name p) env = .ok (reference env ns p name) env :=
    fun name hplain hdotted hlocal => analyzeExpression_name hplain hdotted hlocal p env
  have hthree := hslot "*3" (by decide) (by decide) rfl
  have htwo := hslot "*2" (by decide) (by decide) rfl
  have hone := hslot "*1" (by decide) (by decide) rfl
  have hvalue : analyzeExpression scope (.symbol "ret__auto__" p) env =
      .ok (.local p (munge "ret__auto__")) env := analyzeExpression_local (by decide) rfl p env
  have hprinted : analyzeExpression scope (printing p (.symbol "ret__auto__" p)) env =
      .ok (.invoke p (reference env ns p "pr-str") [.local p (munge "ret__auto__")]) env := by
    rw [analyze_printing rfl, bind_of_ok (analyzeAll_cons_of_ok hvalue rfl)]
    rfl
  apply analyzeAll_cons_of_ok (analyze_assignment rfl rfl hthree htwo)
  apply analyzeAll_cons_of_ok (analyze_assignment rfl rfl htwo hone)
  apply analyzeAll_cons_of_ok (analyze_assignment rfl rfl hone hvalue)
  exact analyzeAll_cons_of_ok hprinted rfl

theorem analyze_failing :
    analyzeAll analyzeExpression ⟨ns, ["e__auto__"], munge⟩ (failing p) env =
      .ok (thrown ns p env) env := by
  let scope : Scope := ⟨ns, ["e__auto__"], munge⟩
  have hslot : analyzeExpression scope (.symbol "*e" p) env =
      .ok (reference env ns p "*e") env := analyzeExpression_name (by decide) (by decide) rfl p env
  have hfailure : analyzeExpression scope (.symbol "e__auto__" p) env =
      .ok (.local p (munge "e__auto__")) env := analyzeExpression_local (by decide) rfl p env
  have hthrow : specialHead? scope (.symbol "throw" p) = some .throw := rfl
  have hthrown : analyzeExpression scope (.list p [.symbol "throw" p, .symbol "e__auto__" p]) env =
      .ok (.throw p (.local p (munge "e__auto__"))) env := by
    rw [analyzeExpression_special hthrow, analyzeSpecial, bind_of_ok hfailure]
    rfl
  apply analyzeAll_cons_of_ok (analyze_assignment rfl rfl hslot hfailure)
  exact analyzeAll_cons_of_ok hthrown rfl

theorem analyze_catching :
    analyzeClauses analyzeExpression ⟨ns, [], munge⟩ ⟨none, []⟩ [catching p] env =
      .ok ⟨some (munge "e__auto__", thrown ns p env), []⟩ env := by
  have hclause : ((catching p).isHeadedBy "catch" && true && true) = true := rfl
  rw [analyzeClauses]
  dsimp only [Option.isNone_none, List.isEmpty_nil]
  rw [if_pos hclause]
  change (bindingName "try" (.symbol "e__auto__" p) >>= fun name => _) env = _
  rw [bindingName_symbol (by decide), pure_bind]
  exact bind_of_ok (analyze_failing ns p env)

theorem analyze_binding (form : Form) :
    analyzeExpression ⟨ns, [], munge⟩ (binding p form) =
      analyzeBind analyzeExpression ⟨ns, [], munge⟩ p
        (.vector p [.symbol "ret__auto__" p, form] :: keeping p) := by
  have hbind : specialHead? ⟨ns, [], munge⟩ (.symbol "let" p) = some .bind := rfl
  rw [binding, analyzeExpression_special hbind, analyzeSpecial]

theorem analyze_recording (form : Form) :
    analyzeExpression ⟨ns, [], munge⟩ (recording p form) = do
      let body ← analyzeAll analyzeExpression ⟨ns, [], munge⟩ [binding p form]
      let clauses ← analyzeClauses analyzeExpression ⟨ns, [], munge⟩ ⟨none, []⟩ [catching p]
      return .guard p body clauses.handler clauses.cleanup := by
  have hguard : specialHead? ⟨ns, [], munge⟩ (.symbol "try" p) = some .guard := rfl
  rw [recording_eq, analyzeExpression_special hguard, analyzeSpecial]
  rfl

end Recording

/-! ## Wrapped forms -/

section Apply

variable (wrap : Wrap) {ns : String} {form : Form} {env env' : Env} {ast wrapped : Ast}
  {e : CompileError}

/-- The environment that the names of the wrapper are resolved in: the printer of a plain value
stands before the form, and all else stands behind it. -/
def resolvedIn (before behind : Env) : Env :=
  match wrap with
  | .record => behind
  | .identity | .printOnly => before

theorem analyzeExpression_apply_of_ok
    (h : analyzeExpression ⟨ns, [], munge⟩ form env = .ok ast env') :
    analyzeExpression ⟨ns, [], munge⟩ (wrap.apply form) env =
      .ok (analyzed ns form.pos (wrap.resolvedIn env env') wrap ast) env' := by
  cases wrap with
  | identity => exact h
  | printOnly =>
    rw [apply, analyze_printing rfl, bind_of_ok (analyzeAll_cons_of_ok h rfl)]
    rfl
  | record =>
    have hbound := analyzeBind_single_of_ok (by decide) h (analyze_keeping ns form.pos env')
      form.pos form.pos form.pos
    rw [← analyze_binding] at hbound
    rw [apply, analyze_recording, bind_of_ok (analyzeAll_cons_of_ok hbound rfl),
      bind_of_ok (analyze_catching ns form.pos env')]
    rfl

theorem analyzeExpression_apply_of_error
    (h : analyzeExpression ⟨ns, [], munge⟩ form env = .error e env') :
    analyzeExpression ⟨ns, [], munge⟩ (wrap.apply form) env = .error e env' := by
  cases wrap with
  | identity => exact h
  | printOnly => rw [apply, analyze_printing rfl, bind_of_error (analyzeAll_cons_of_error h)]
  | record =>
    have hbound : analyzeExpression ⟨ns, [], munge⟩ (binding form.pos form) env =
        .error e env' := by
      rw [analyze_binding]
      exact analyzeBind_single_of_error (by decide) h form.pos form.pos form.pos
    rw [apply, analyze_recording, bind_of_error (analyzeAll_cons_of_error hbound)]

/-- Making the current namespace known takes no name. -/
theorem reference_resolvedIn_register (env env' : Env) (ns : String) (p : Position) :
    reference (wrap.resolvedIn (env.register ns) env') ns p =
      reference (wrap.resolvedIn env env') ns p := by
  funext name
  cases wrap with
  | record => rfl
  | identity | printOnly => rw [reference, reference, resolvedIn, Env.target_register]; rfl

/-- The wrapper stands around what analysis finds in the form, and analysis finds that alone. -/
theorem exists_of_analyzeExpression_apply
    (h : analyzeExpression ⟨ns, [], munge⟩ (wrap.apply form) env = .ok wrapped env') :
    ∃ ast, analyzeExpression ⟨ns, [], munge⟩ form env = .ok ast env' ∧
      wrapped = analyzed ns form.pos (wrap.resolvedIn env env') wrap ast := by
  cases hrun : analyzeExpression ⟨ns, [], munge⟩ form env with
  | ok ast env₁ =>
    rw [analyzeExpression_apply_of_ok wrap hrun] at h
    obtain ⟨rfl, rfl⟩ := EStateM.Result.ok.inj h
    exact ⟨ast, rfl, rfl⟩
  | error e env₁ =>
    rw [analyzeExpression_apply_of_error wrap hrun] at h
    contradiction

end Apply

end Wrap

/-! ## The form inside -/

/-- Analysis accepts a wrapped form exactly if it accepts the form, finds in the wrapper what it
finds in the form, and leaves the same environment; it refuses both for the same reason. -/
theorem analyze_apply_iff (wrap : Wrap) (ns : String) {form : Form}
    (hform : form.isHeadedBy "ns" = false) (env : Env) :
    (∀ ast env', analyze ns form env = .ok ast env' ↔
        ∃ wrapped parts, analyze ns (wrap.apply form) env = .ok wrapped env' ∧
          wrap.parts? wrapped = some parts ∧ parts.form = ast) ∧
      ∀ e env', analyze ns form env = .error e env' ↔
        analyze ns (wrap.apply form) env = .error e env' := by
  have hwrapped : (wrap.apply form).isHeadedBy "ns" = false := by
    by_cases hwrap : wrap = .identity
    · rw [hwrap]
      exact hform
    · exact isHeadedBy_apply hwrap form
  rw [analyze_of_not_headed hform, analyze_of_not_headed hwrapped]
  constructor
  · intro ast env'
    constructor
    · intro h
      exact ⟨_, _, wrap.analyzeExpression_apply_of_ok h, Wrap.parts?_analyzed .., rfl⟩
    · rintro ⟨wrapped, parts, h, hparts, rfl⟩
      obtain ⟨ast, hast, rfl⟩ := wrap.exists_of_analyzeExpression_apply h
      rw [Wrap.parts?_analyzed] at hparts
      obtain rfl := Option.some.inj hparts
      exact hast
  · intro e env'
    constructor
    · exact wrap.analyzeExpression_apply_of_error
    · intro h
      cases hrun : analyzeExpression ⟨ns, [], munge⟩ form (env.register ns) with
      | ok ast env₁ =>
        rw [wrap.analyzeExpression_apply_of_ok hrun] at h
        contradiction
      | error e' env₁ =>
        rw [← h]
        exact (wrap.analyzeExpression_apply_of_error hrun).symm

/-- `(let [ret__auto__ *1] (def pr-str ret__auto__))`. -/
def wrapperNames : Form :=
  .list .start
    [.symbol "let" .start, .vector .start [.symbol "ret__auto__" .start, .symbol "*1" .start],
      .list .start [.symbol "def" .start, .symbol "pr-str" .start, .symbol "ret__auto__" .start]]

/-- `(pr-str (nope/x))`. -/
def unmetPrinting : Form :=
  .list .start [.symbol "pr-str" .start, .list .start [.symbol "nope/x" .start]]

/-- A form may use the names of the wrapper for itself, and one that needs a namespace that nobody
knows is refused with and without the wrapper. -/
theorem analyze_apply_wrapperNames :
    (∃ ast env' wrapped parts, analyze userNs wrapperNames .initial = .ok ast env' ∧
        analyze userNs (Wrap.record.apply wrapperNames) .initial = .ok wrapped env' ∧
        Wrap.record.parts? wrapped = some parts ∧ parts.form = ast) ∧
      ∃ e env', analyze userNs unmetPrinting .initial = .error e env' ∧
        analyze userNs (Wrap.printOnly.apply unmetPrinting) .initial = .error e env' := by
  have hrun : analyze userNs wrapperNames .initial = .ok _ _ := analyze_of_spelled rfl
  have hfails : analyze userNs unmetPrinting .initial = .error _ _ := analyze_of_spelled rfl
  obtain ⟨wrapped, parts, hwrapped⟩ :=
    ((analyze_apply_iff .record userNs (by decide) .initial).1 _ _).mp hrun
  have hrefused := ((analyze_apply_iff .printOnly userNs (by decide) .initial).2 _ _).mp hfails
  exact ⟨⟨_, _, wrapped, parts, hrun, hwrapped⟩, _, _, hfails, hrefused⟩

/-! ## The names around it -/

/-- The environments that a session can come to: forms are analyzed in any namespace, and namespaces
are entered. -/
inductive Reachable : Env → Prop where
  | initial : Reachable .initial
  | enter {env : Env} (h : Reachable env) (ns : String) : Reachable (env.register ns)
  | analyze {env : Env} (h : Reachable env) (ns : String) (form : Form) :
      Reachable (finalState (analyze ns form) env)

theorem parts?_of_analyze (wrap : Wrap) {ns : String} {form : Form} {env env' : Env} {wrapped : Ast}
    (h : analyze ns (wrap.apply form) env = .ok wrapped env') :
    ∃ ast, wrap.parts? wrapped =
      some ⟨ast, wrap.names.map (Wrap.reference (wrap.resolvedIn env env') ns form.pos)⟩ := by
  by_cases hwrap : wrap = .identity
  · subst hwrap
    exact ⟨wrapped, rfl⟩
  · rw [analyze_of_not_headed (isHeadedBy_apply hwrap form)] at h
    obtain ⟨ast, -, rfl⟩ := wrap.exists_of_analyzeExpression_apply h
    rw [Wrap.parts?_analyzed, wrap.reference_resolvedIn_register]
    exact ⟨ast, rfl⟩

/-- The names of the wrapper are resolved as any names in the current namespace, and they are those
of the core namespace exactly if the current namespace leaves them to it. -/
theorem references_core_iff (wrap : Wrap) {ns : String} {form : Form} {env env' : Env}
    {wrapped : Ast} (h : analyze ns (wrap.apply form) env = .ok wrapped env') :
    ∃ parts, wrap.parts? wrapped = some parts ∧
      parts.references = wrap.names.map (Wrap.reference (wrap.resolvedIn env env') ns form.pos) ∧
      (parts.references = wrap.names.map (.var form.pos coreNs) ↔
        ∀ name ∈ wrap.names, (wrap.resolvedIn env env').LeavesToCore ns name) := by
  obtain ⟨ast, hparts⟩ := parts?_of_analyze wrap h
  refine ⟨_, hparts, rfl, ?_⟩
  rw [List.map_inj_left]
  apply forall₂_congr
  intro name _
  rw [← Env.target_eq_coreNs_iff, Wrap.reference]
  simp

/-- `(inc 1)`. -/
def callSample : Form := .list .start [.symbol "inc" .start, .atom .start (.int 1)]

/-- At the start nothing is taken: the names around `(inc 1)` are those of the core namespace. -/
theorem references_core_initial :
    ∃ wrapped env' parts,
      analyze userNs (Wrap.record.apply callSample) .initial = .ok wrapped env' ∧
        Wrap.record.parts? wrapped = some parts ∧
        parts.references = Wrap.record.names.map (.var .start coreNs) := by
  have hrun : analyze userNs (Wrap.record.apply callSample) .initial = .ok _ _ :=
    analyze_of_spelled rfl
  obtain ⟨parts, hparts, -, hcore⟩ := references_core_iff .record hrun
  exact ⟨_, _, parts, hrun, hparts, hcore.mpr (by decide)⟩

/-- `(def pr-str 1)`. -/
def printerDefinition : Form :=
  .list .start [.symbol "def" .start, .symbol "pr-str" .start, .atom .start (.int 1)]

/-- `(def pr-str 1)` takes the name of the printer, and the wrapper around it prints with what the
form defines. -/
theorem redefined_printer_referred :
    ¬∀ (wrap : Wrap) (ns : String) (form : Form) (env env' : Env) (wrapped : Ast)
      (parts : Wrap.Parts), Reachable env →
        analyze ns (wrap.apply form) env = .ok wrapped env' → wrap.parts? wrapped = some parts →
        ∀ reference ∈ parts.references, ∃ pos name, reference = .var pos coreNs name := by
  intro h
  have hrun : analyze userNs (Wrap.record.apply printerDefinition) .initial = .ok _ _ :=
    analyze_of_spelled rfl
  obtain ⟨ast, hparts⟩ := parts?_of_analyze .record hrun
  have hmem : "pr-str" ∈ Wrap.record.names := by decide
  obtain ⟨pos, name, href⟩ :=
    h .record userNs _ _ _ _ _ .initial hrun hparts _ (List.mem_map_of_mem hmem)
  injection href with _ htarget _
  exact absurd htarget (by decide)

end LiveLisp.Session
