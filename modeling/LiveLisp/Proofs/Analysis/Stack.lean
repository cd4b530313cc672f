import LiveLisp.Analysis.Stack
import LiveLisp.Proofs.Fallible
/-!
# The stack of locals is a lexical scope

Analysis with a stack comes to the same as analysis that is given the names bound around each form.
However it ends, the stack is then as it was before.
-/

namespace LiveLisp.Analysis

open Fallible
open Text (Position)
open Munge (munge)

/-! ## Two analyses side by side -/

/-- What is returned, together with a stack. -/
def standing {α : Type} (ns : String) (locals : List String) :
    EStateM.Result CompileError Env α → EStateM.Result CompileError Context α
  | .ok a env => .ok a ⟨env, ns, locals⟩
  | .error e env => .error e ⟨env, ns, locals⟩

/-- With these names on the stack, `x` does what `y` does and leaves the stack as it is. -/
def Mirrors {α : Type} (ns : String) (locals : List String) (x : Stacking α) (y : Analyzing α) :
    Prop :=
  ∀ env, x ⟨env, ns, locals⟩ = standing ns locals (y env)

/-- With these names on the stack, `x` does what `y` does and leaves names on top of them. -/
def Deepens {α : Type} (ns : String) (locals : List String) (x : Stacking α) (y : Analyzing α) :
    Prop :=
  ∀ env, ∃ inner, locals <+: inner ∧ x ⟨env, ns, locals⟩ = standing ns inner (y env)

section Mirrors

variable {α β : Type} {ns : String} {locals : List String} {x : Stacking α} {y : Analyzing α}
  {k : α → Stacking β} {l : α → Analyzing β}

theorem mirrors_pure (a : α) : Mirrors ns locals (pure a) (pure a) := fun _ => rfl

theorem mirrors_throw (e : CompileError) :
    Mirrors ns locals (throw e : Stacking α) (throw e) := fun _ => rfl

theorem mirrors_onEnv (y : Analyzing α) : Mirrors ns locals (Stacked.onEnv y) y := by
  intro env
  unfold Stacked.onEnv
  cases y env <;> rfl

theorem Mirrors.bind (hx : Mirrors ns locals x y) (hk : ∀ a, Mirrors ns locals (k a) (l a)) :
    Mirrors ns locals (x >>= k) (y >>= l) := by
  intro env
  have hfirst := hx env
  cases hrun : y env with
  | ok a env' =>
    rw [hrun] at hfirst
    rw [bind_of_ok hfirst, bind_of_ok hrun, hk a env']
  | error e env' =>
    rw [hrun] at hfirst
    rw [bind_of_error hfirst, bind_of_error hrun]
    rfl

/-- The context tells the namespace and the stack. -/
theorem mirrors_get_bind {k : Context → Stacking α}
    (hk : ∀ env, Mirrors ns locals (k ⟨env, ns, locals⟩) y) :
    Mirrors ns locals (get >>= k) y :=
  fun env => hk env env

theorem Mirrors.deepens (h : Mirrors ns locals x y) : Deepens ns locals x y :=
  fun env => ⟨locals, List.prefix_refl _, h env⟩

theorem Mirrors.bind_deepens (hx : Mirrors ns locals x y)
    (hk : ∀ a, Deepens ns locals (k a) (l a)) : Deepens ns locals (x >>= k) (y >>= l) := by
  intro env
  have hfirst := hx env
  cases hrun : y env with
  | ok a env' =>
    rw [hrun] at hfirst
    rw [bind_of_ok hfirst, bind_of_ok hrun]
    exact hk a env'
  | error e env' =>
    rw [hrun] at hfirst
    rw [bind_of_error hfirst, bind_of_error hrun]
    exact ⟨locals, List.prefix_refl _, rfl⟩

theorem Deepens.push {names : List String} (h : Deepens ns (locals ++ names) x y) :
    Deepens ns locals (modify (Context.push names) >>= fun _ => x) y := by
  intro env
  obtain ⟨inner, hinner, hrun⟩ := h env
  exact ⟨inner, (List.prefix_append _ _).trans hinner, hrun⟩

/-! ## Leaving a scope -/

theorem leaving_of_standing {exit : Context → Context} {c : Context} {inner : List String}
    {r : EStateM.Result CompileError Env α} (h : x c = standing ns inner r)
    (hexit : ∀ env, exit ⟨env, ns, inner⟩ = ⟨env, ns, locals⟩) :
    Stacked.leaving exit x c = standing ns locals r := by
  unfold Stacked.leaving
  rw [h]
  cases r with
  | ok a env => exact congrArg _ (hexit env)
  | error e env => exact congrArg _ (hexit env)

theorem Deepens.restoring (h : Deepens ns locals x y) :
    Mirrors ns locals (Stacked.restoring x) y := by
  intro env
  obtain ⟨inner, hinner, hrun⟩ := h env
  refine leaving_of_standing hrun fun env' => ?_
  change (⟨env', ns, inner.take locals.length⟩ : Context) = _
  rw [← List.prefix_iff_eq_take.mp hinner]

/-- A name that is put on the stack for one computation. -/
theorem Mirrors.handling {name : String} (hx : Mirrors ns (locals ++ [name]) x y)
    (hk : ∀ a, Mirrors ns locals (k a) (l a)) :
    Mirrors ns locals
      (modify (Context.push [name]) >>= fun _ => Stacked.leaving Context.pop x >>= k)
      (y >>= l) := by
  have hinner : Mirrors ns locals
      (modify (Context.push [name]) >>= fun _ => Stacked.leaving Context.pop x) y := by
    intro env
    refine leaving_of_standing (hx env) fun env' => ?_
    simp [Context.pop]
  exact hinner.bind hk

end Mirrors

/-! ## Expressions -/

theorem ofStack_append (ns : String) (locals names : List String) :
    Scope.ofStack ns (locals ++ names) = (Scope.ofStack ns locals).bindAll names := by
  simp [Scope.ofStack, Scope.bindAll_eq]

theorem bind_ofStack (ns : String) (locals : List String) (name : String) :
    (Scope.ofStack ns locals).bind name = .ofStack ns (locals ++ [name]) :=
  (ofStack_append ns locals [name]).symm

/-- `sub` analyzes with a stack what `sub'` analyzes in the scope of the stack. -/
def MirrorsAll (ns : String) (sub : Stacked.Analyzer) (sub' : Analyzer) : Prop :=
  ∀ locals form, Mirrors ns locals (sub form) (sub' (.ofStack ns locals) form)

section Parts

variable {ns : String} {sub : Stacked.Analyzer} {sub' : Analyzer} (h : MirrorsAll ns sub sub')
  {locals : List String}

theorem mirrors_symbol (pos : Position) (sym : Symbol) :
    Mirrors ns locals (Stacked.analyzeSymbol pos sym)
      (analyzeSymbol (.ofStack ns locals) pos sym) :=
  mirrors_get_bind fun _ => mirrors_onEnv _

include h

theorem mirrors_all (forms : List Form) :
    Mirrors ns locals (Stacked.analyzeAll sub forms)
      (analyzeAll sub' (.ofStack ns locals) forms) := by
  induction forms with
  | nil => exact mirrors_pure _
  | cons form rest ih =>
    exact (h locals form).bind fun ast => ih.bind fun asts => mirrors_pure _

theorem mirrors_entries (entries : List (Form × Form)) :
    Mirrors ns locals (Stacked.analyzeEntries sub entries)
      (analyzeEntries sub' (.ofStack ns locals) entries) := by
  induction entries with
  | nil => exact mirrors_pure _
  | cons entry rest ih =>
    exact (h locals entry.1).bind fun key => (h locals entry.2).bind fun value =>
      ih.bind fun asts => mirrors_pure _

theorem mirrors_option (form : Option Form) :
    Mirrors ns locals (Stacked.analyzeOption sub form)
      (analyzeOption sub' (.ofStack ns locals) form) := by
  cases form with
  | none => exact mirrors_pure _
  | some form => exact (h locals form).bind fun ast => mirrors_pure _

theorem mirrors_define (pos : Position) (args : List Form) :
    Mirrors ns locals (Stacked.analyzeDefine sub pos args)
      (analyzeDefine sub' (.ofStack ns locals) pos args) := by
  unfold Stacked.analyzeDefine analyzeDefine
  cases definitionParts args with
  | none => exact mirrors_throw _
  | some parts =>
    dsimp only
    cases parts.1.plainName? with
    | none => exact mirrors_throw _
    | some name =>
      exact mirrors_get_bind fun _ => (mirrors_onEnv _).bind fun _ =>
        (mirrors_option h _).bind fun init => mirrors_pure _

theorem mirrors_cond (pos : Position) (args : List Form) :
    Mirrors ns locals (Stacked.analyzeCond sub pos args)
      (analyzeCond sub' (.ofStack ns locals) pos args) := by
  unfold Stacked.analyzeCond analyzeCond
  cases condParts args with
  | none => exact mirrors_throw _
  | some parts =>
    exact (mirrors_option h _).bind fun elseBranch => (h locals _).bind fun test =>
      (h locals _).bind fun thenBranch => mirrors_pure _

/-- After bindings, the rest is analyzed in the scope of all of them. -/
theorem deepens_bindings {β : Type} (pairs : List (Form × Form))
    {k : List (String × Ast) → Stacking β} {l : List (String × Ast) → Scope → Analyzing β}
    (hk : ∀ bindings inner, Deepens ns inner (k bindings) (l bindings (.ofStack ns inner))) :
    Deepens ns locals (Stacked.analyzeBindings sub pairs >>= k)
      (analyzeBindings sub' (.ofStack ns locals) pairs >>= fun r => l r.1 r.2) := by
  -- What comes after the bindings is part of the statement: the stack on which it runs is known
  -- only when all of them have been made.
  induction pairs generalizing locals k l with
  | nil => exact hk [] locals
  | cons pair rest ih =>
    obtain ⟨name, init⟩ := pair
    simp only [Stacked.analyzeBindings, analyzeBindings, bind_assoc]
    refine (mirrors_onEnv _).bind_deepens fun name => (h locals init).bind_deepens fun init => ?_
    refine Deepens.push ?_
    rw [bind_ofStack]
    exact ih fun bindings inner => hk ((munge name, init) :: bindings) inner

theorem mirrors_bind (pos : Position) (args : List Form) :
    Mirrors ns locals (Stacked.analyzeBind sub pos args)
      (analyzeBind sub' (.ofStack ns locals) pos args) := by
  cases args with
  | nil => exact mirrors_throw _
  | cons first body =>
    cases first with
    | vector vectorPos items =>
      unfold Stacked.analyzeBind analyzeBind
      dsimp only
      cases Form.pairUp items with
      | none => exact mirrors_throw _
      | some pairs =>
        refine Deepens.restoring (deepens_bindings h pairs
          (l := fun bindings inner => analyzeAll sub' inner body >>= fun asts =>
            pure (Ast.bind pos bindings asts)) fun bindings inner => ?_)
        exact ((mirrors_all h body).bind fun asts => mirrors_pure _).deepens
    | _ => exact mirrors_throw _

theorem mirrors_func (pos : Position) (args : List Form) :
    Mirrors ns locals (Stacked.analyzeFunc sub pos args)
      (analyzeFunc sub' (.ofStack ns locals) pos args) := by
  refine (mirrors_onEnv _).bind fun r => ?_
  obtain ⟨name, args⟩ := r
  cases args with
  | nil => exact mirrors_throw _
  | cons first body =>
    cases first with
    | vector _ params =>
      refine (mirrors_onEnv _).bind fun r => ?_
      obtain ⟨names, rest⟩ := r
      dsimp only
      rw [← ofStack_append]
      exact (Deepens.restoring (mirrors_all h body).deepens.push).bind fun asts => mirrors_pure _
    | _ => exact mirrors_throw _

theorem mirrors_assign (pos : Position) (args : List Form) :
    Mirrors ns locals (Stacked.analyzeAssign sub pos args)
      (analyzeAssign sub' (.ofStack ns locals) pos args) := by
  cases args with
  | nil => exact mirrors_throw _
  | cons target args =>
    cases args with
    | nil => exact mirrors_throw _
    | cons value args =>
      cases args with
      | cons => exact mirrors_throw _
      | nil =>
        refine (h locals target).bind fun ast => ?_
        cases ast.isAssignable with
        | true => exact (h locals value).bind fun value => mirrors_pure _
        | false => exact mirrors_throw _

theorem mirrors_clauses (done : Clauses) (forms : List Form) :
    Mirrors ns locals (Stacked.analyzeClauses sub done forms)
      (analyzeClauses sub' (.ofStack ns locals) done forms) := by
  induction forms generalizing done with
  | nil => exact mirrors_pure _
  | cons form rest ih =>
    unfold Stacked.analyzeClauses analyzeClauses
    dsimp only
    split
    · cases (form.list?.getD []).drop 1 with
      | nil => exact mirrors_throw _
      | cons type items =>
        cases items with
        | nil => exact mirrors_throw _
        | cons binding body =>
          refine (mirrors_onEnv _).bind fun name => ?_
          rw [bind_ofStack]
          exact (mirrors_all h body).handling fun asts => ih _
    · split
      · exact (mirrors_all h _).bind fun items => ih _
      · exact mirrors_throw _

theorem mirrors_guard (pos : Position) (args : List Form) :
    Mirrors ns locals (Stacked.analyzeGuard sub pos args)
      (analyzeGuard sub' (.ofStack ns locals) pos args) :=
  (mirrors_all h _).bind fun _ => (mirrors_clauses h _ _).bind fun _ => mirrors_pure _

theorem mirrors_new (pos : Position) (args : List Form) :
    Mirrors ns locals (Stacked.analyzeNew sub pos args)
      (analyzeNew sub' (.ofStack ns locals) pos args) := by
  cases args with
  | nil => exact mirrors_throw _
  | cons ctor args =>
    exact (h locals ctor).bind fun ctor => (mirrors_all h args).bind fun asts => mirrors_pure _

theorem mirrors_member (pos : Position) (member : String) (args : List Form) :
    Mirrors ns locals (Stacked.analyzeMember sub pos member args)
      (analyzeMember sub' (.ofStack ns locals) pos member args) := by
  cases args with
  | nil => exact mirrors_throw _
  | cons target args =>
    refine (h locals target).bind fun ast => ?_
    by_cases hfield : ∃ field, member.toList = '-' :: field
    · obtain ⟨field, hfield⟩ := hfield
      simp only [hfield]
      split
      · exact mirrors_throw _
      · split
        · exact mirrors_throw _
        · exact mirrors_pure _
    · have hmethod : ∀ field, member.toList ≠ '-' :: field := not_exists.mp hfield
      simp only
      exact (mirrors_all h args).bind fun asts => mirrors_pure _

theorem mirrors_dot (pos : Position) (args : List Form) :
    Mirrors ns locals (Stacked.analyzeDot sub pos args)
      (analyzeDot sub' (.ofStack ns locals) pos args) := by
  have haccess : ∀ target member args, Mirrors ns locals
      (Stacked.onEnv (bindingName "." member) >>= fun name =>
        Stacked.analyzeMember sub pos name (target :: args))
      (bindingName "." member >>= fun name =>
        analyzeMember sub' (.ofStack ns locals) pos name (target :: args)) :=
    fun target member args => (mirrors_onEnv _).bind fun name => mirrors_member h pos name _
  cases args with
  | nil => exact mirrors_throw _
  | cons target args =>
    cases args with
    | nil => exact mirrors_throw _
    | cons member args =>
      cases member with
      | list _ items =>
        cases items with
        | nil => exact haccess target _ args
        | cons inner more =>
          cases args with
          | nil => exact haccess target inner more
          | cons => exact haccess target _ _
      | _ => exact haccess target _ args

theorem mirrors_special (pos : Position) (special : Special) (args : List Form) :
    Mirrors ns locals (Stacked.analyzeSpecial sub pos special args)
      (analyzeSpecial sub' (.ofStack ns locals) pos special args) := by
  cases special with
  | ns => exact mirrors_throw _
  | define => exact mirrors_define h pos args
  | block => exact (mirrors_all h _).bind fun asts => mirrors_pure _
  | cond => exact mirrors_cond h pos args
  | bind => exact mirrors_bind h pos args
  | func => exact mirrors_func h pos args
  | quote =>
    cases args with
    | nil => exact mirrors_throw _
    | cons quoted args =>
      cases args with
      | nil => exact mirrors_pure _
      | cons => exact mirrors_throw _
  | assign => exact mirrors_assign h pos args
  | throw =>
    cases args with
    | nil => exact mirrors_throw _
    | cons value args =>
      cases args with
      | nil => exact (h locals value).bind fun ast => mirrors_pure _
      | cons => exact mirrors_throw _
  | guard => exact mirrors_guard h pos args
  | new => exact mirrors_new h pos args
  | dot => exact mirrors_dot h pos args

theorem mirrors_call (pos : Position) (head : Form) (args : List Form) :
    Mirrors ns locals (Stacked.analyzeCall sub pos head args)
      (analyzeCall sub' (.ofStack ns locals) pos head args) := by
  refine (h locals head).bind fun callee => ?_
  split
  · exact mirrors_throw _
  · exact (mirrors_all h _).bind fun args => mirrors_pure _

theorem mirrors_list (pos : Position) (head : Form) (args : List Form) :
    Mirrors ns locals (Stacked.analyzeList sub pos head args)
      (analyzeList sub' (.ofStack ns locals) pos head args) := by
  unfold Stacked.analyzeList analyzeList
  refine mirrors_get_bind fun _ => ?_
  dsimp only [Context.scope]
  cases specialHead? (.ofStack ns locals) head with
  | some special => exact mirrors_special h pos special args
  | none =>
    cases memberHead? (.ofStack ns locals) head with
    | some member => exact mirrors_member h pos member args
    | none =>
      dsimp only [Stacked.analyzeOrdinary]
      cases constructorHead? head with
      | some ctor =>
        exact (mirrors_symbol _ ctor).bind fun ctor =>
          (mirrors_all h args).bind fun asts => mirrors_pure _
      | none => exact mirrors_call h pos head args

theorem mirrorsAll_with : MirrorsAll ns (Stacked.analyzeWith sub) (analyzeWith sub') := by
  intro locals form
  cases form with
  | atom pos value =>
    cases value with
    | symbol sym => exact mirrors_symbol pos sym
    | _ => exact mirrors_pure _
  | vector pos items => exact (mirrors_all h _).bind fun asts => mirrors_pure _
  | set pos items => exact (mirrors_all h _).bind fun asts => mirrors_pure _
  | map pos entries => exact (mirrors_entries h _).bind fun asts => mirrors_pure _
  | list pos items =>
    cases items with
    | nil => exact mirrors_pure _
    | cons head args => exact mirrors_list h pos head args

end Parts

theorem mirrorsAll_to (ns : String) (depth : Nat) :
    MirrorsAll ns (Stacked.analyzeTo depth) (analyzeTo depth) := by
  induction depth with
  | zero => exact fun locals form => mirrors_throw _
  | succ depth ih => exact mirrorsAll_with ih

/-! ## Whole forms -/

theorem mirrors_top (ns : String) (form : Form) (env : Env) :
    Stacked.analyzeTop form ⟨env.register ns, ns, []⟩ =
      standing ns [] (analyzeSpelled munge ns form env) := by
  have hregister : (modify (·.register ns) : Analyzing PUnit) env = .ok () (env.register ns) := rfl
  unfold Stacked.analyzeTop analyzeSpelled
  rw [bind_of_ok hregister]
  cases form with
  | atom | vector | set | map => exact mirrorsAll_to ns _ [] _ _
  | list pos items =>
    cases items with
    | nil => exact mirrorsAll_to ns _ [] _ _
    | cons head items =>
      dsimp only
      split
      · exact mirrors_onEnv _ _
      · exact mirrorsAll_to ns _ [] _ _

/-- A top-level form is analyzed as with an empty scope. -/
theorem analyze_eq (ns : String) (form : Form) :
    analyze ns form = analyzeSpelled munge ns form := by
  funext env
  unfold analyze
  rw [mirrors_top]
  cases analyzeSpelled munge ns form env <;> rfl

theorem analyze_of_spelled {ns : String} {form : Form} {env : Env}
    {r : EStateM.Result CompileError Env Ast} (h : analyzeSpelled munge ns form env = r) :
    analyze ns form env = r :=
  (congrFun (analyze_eq ns form) env).trans h

/-! ## Symbols and heads -/

theorem isLocal_ofStack {ns name : String} {locals : List String} :
    (Scope.ofStack ns locals).isLocal name = true ↔ name ∈ locals := by
  simp [Scope.ofStack, Scope.isLocal]

/-- A symbol is a local exactly if it is a plain name that is bound around it. -/
theorem resolve_local_iff {env : Env} {scope : Scope} {pos : Position} {sym : Symbol} :
    (∃ ident, resolve env scope pos sym = .ok (.local pos ident)) ↔
      ∃ name, sym.plainName? = some name ∧ scope.isLocal name = true := by
  unfold resolve Symbol.plainName?
  cases sym.ns with
  | some ns =>
    dsimp only
    split
    · simp
    · split
      · simp
      · split <;> simp
  | none =>
    dsimp only
    by_cases hlocal : scope.isLocal sym.name = true
    · simp [hlocal]
    · rw [if_neg hlocal]
      split
      · simp [hlocal]
      · split <;> simp [hlocal]

theorem analyzeSymbol_run {ns : String} {locals : List String} {pos : Position} {sym : Symbol}
    {env : Env} {ast : Ast} :
    (∃ c, Stacked.analyzeSymbol pos sym ⟨env, ns, locals⟩ = .ok ast c) ↔
      resolve env (.ofStack ns locals) pos sym = .ok ast := by
  rw [mirrors_symbol pos sym env]
  unfold analyzeSymbol
  cases resolve env (.ofStack ns locals) pos sym <;> simp [standing]

section Heads

variable {sub : Stacked.Analyzer} {pos : Position} {head : Form} {args : List Form} {env : Env}
  {ns : String} {locals : List String} {name : String}

theorem specialHead?_eq {scope : Scope} (hname : head.plainName? = some name) :
    specialHead? scope head = if scope.isLocal name then none else Special.ofName? name := by
  unfold specialHead?
  rw [hname]

/-- A name that begins with a dot and goes on is not that of a special form. -/
theorem ofName?_of_member {member : List Char} (hne : member ≠ [])
    (hmember : name.toList = '.' :: member) : Special.ofName? name = none := by
  unfold Special.ofName?
  split <;> simp_all

theorem memberHead?_eq {scope : Scope} (hname : head.plainName? = some name) {member : List Char}
    (hne : member ≠ []) (hmember : name.toList = '.' :: member) :
    memberHead? scope head =
      if scope.isLocal name then none else some (String.ofList member) := by
  obtain ⟨c, rest, rfl⟩ := List.exists_cons_of_ne_nil hne
  unfold memberHead?
  rw [hname]
  dsimp only
  rw [hmember]
  rfl

theorem memberHead?_of_isLocal {scope : Scope} (hname : head.plainName? = some name)
    (hlocal : scope.isLocal name = true) : memberHead? scope head = none := by
  unfold memberHead?
  rw [hname]
  dsimp only
  split
  · rw [if_pos hlocal]
  · rfl

/-- What a list is analyzed as depends on its head and the scope alone. -/
theorem analyzeList_eq (c : Context) :
    Stacked.analyzeList sub pos head args c =
      match specialHead? c.scope head, memberHead? c.scope head with
      | some special, _ => Stacked.analyzeSpecial sub pos special args c
      | none, some member => Stacked.analyzeMember sub pos member args c
      | none, none => Stacked.analyzeOrdinary sub pos head args c := by
  unfold Stacked.analyzeList
  rw [bind_of_ok (rfl : (get : Stacking Context) c = .ok c c)]
  cases specialHead? c.scope head with
  | some special => rfl
  | none => cases memberHead? c.scope head <;> rfl

theorem analyzeList_of_mem (hname : head.plainName? = some name) (hmem : name ∈ locals) :
    Stacked.analyzeList sub pos head args ⟨env, ns, locals⟩ =
      Stacked.analyzeOrdinary sub pos head args ⟨env, ns, locals⟩ := by
  have hlocal : (Scope.ofStack ns locals).isLocal name = true := isLocal_ofStack.mpr hmem
  rw [analyzeList_eq]
  dsimp only [Context.scope]
  rw [specialHead?_eq hname, if_pos hlocal, memberHead?_of_isLocal hname hlocal]

theorem analyzeList_special (hname : head.plainName? = some name) (hmem : name ∉ locals)
    {special : Special} (hspecial : Special.ofName? name = some special) :
    Stacked.analyzeList sub pos head args ⟨env, ns, locals⟩ =
      Stacked.analyzeSpecial sub pos special args ⟨env, ns, locals⟩ := by
  rw [analyzeList_eq]
  dsimp only [Context.scope]
  rw [specialHead?_eq hname, if_neg (mt isLocal_ofStack.mp hmem), hspecial]

theorem analyzeList_member (hname : head.plainName? = some name) (hmem : name ∉ locals)
    {member : List Char} (hne : member ≠ []) (hmember : name.toList = '.' :: member) :
    Stacked.analyzeList sub pos head args ⟨env, ns, locals⟩ =
      Stacked.analyzeMember sub pos (String.ofList member) args ⟨env, ns, locals⟩ := by
  have hlocal := mt (@isLocal_ofStack ns name locals).mp hmem
  rw [analyzeList_eq]
  dsimp only [Context.scope]
  rw [specialHead?_eq hname, memberHead?_eq hname hne hmember, if_neg hlocal, if_neg hlocal,
    ofName?_of_member hne hmember]

end Heads

/-- Analysis with a stack of locals is analysis in the lexical scope: with any names on the stack it
comes to the same result, failures and environment included, as analysis that is given these names
as its scope, and leaves the stack as it was. A symbol is a local, and the head of a list has no
special meaning, exactly if the name is on the stack. -/
theorem stack_is_lexical_scope (ns : String) :
    (∀ depth form locals env, Stacked.analyzeTo depth form ⟨env, ns, locals⟩ =
      standing ns locals (analyzeTo depth (.ofStack ns locals) form env)) ∧
    (∀ form env,
      Stacked.analyzeTop form ⟨env.register ns, ns, []⟩ =
        standing ns [] (analyzeSpelled munge ns form env) ∧
      analyze ns form env = analyzeSpelled munge ns form env) ∧
    (∀ depth pos sym locals env,
      (∃ ident c, Stacked.analyzeTo (depth + 1) (.atom pos (.symbol sym)) ⟨env, ns, locals⟩ =
        .ok (.local pos ident) c) ↔ ∃ name ∈ locals, sym.plainName? = some name) ∧
    ∀ depth pos head args locals env name, head.plainName? = some name →
      let result := Stacked.analyzeTo (depth + 1) (.list pos (head :: args)) ⟨env, ns, locals⟩
      let sub := Stacked.analyzeTo depth
      (name ∈ locals → result = Stacked.analyzeOrdinary sub pos head args ⟨env, ns, locals⟩) ∧
      (name ∉ locals → ∀ special, Special.ofName? name = some special →
        result = Stacked.analyzeSpecial sub pos special args ⟨env, ns, locals⟩) ∧
      (name ∉ locals → ∀ member, member ≠ [] → name.toList = '.' :: member →
        result = Stacked.analyzeMember sub pos (String.ofList member) args ⟨env, ns, locals⟩) := by
  refine ⟨?_, ?_, ?_, ?_⟩
  · exact fun depth form locals env => mirrorsAll_to ns depth locals form env
  · exact fun form env => ⟨mirrors_top ns form env, congrFun (analyze_eq ns form) env⟩
  · intro depth pos sym locals env
    change (∃ ident c, Stacked.analyzeSymbol pos sym _ = .ok (.local pos ident) c) ↔ _
    simp only [analyzeSymbol_run, resolve_local_iff, isLocal_ofStack]
    exact ⟨fun ⟨name, hname, hmem⟩ => ⟨name, hmem, hname⟩,
      fun ⟨name, hmem, hname⟩ => ⟨name, hname, hmem⟩⟩
  · intro depth pos head args locals env name hname
    refine ⟨fun hmem => ?_, fun hmem special hspecial => ?_, fun hmem member hne hmember => ?_⟩
    · exact analyzeList_of_mem hname hmem
    · exact analyzeList_special hname hmem hspecial
    · exact analyzeList_member hname hmem hne hmember

/-- `(if x)` calls a local `if`, is an incomplete conditional where `if` is not bound, and `(.x y)`
calls a method of the local `y`; in each case the stack remains. -/
theorem stack_is_lexical_scope_heads :
    Stacked.analyzeTo 2 (.list ⟨1, 1⟩ [.symbol "if" ⟨1, 2⟩, .symbol "x" ⟨1, 5⟩])
        ⟨.initial, userNs, ["x", "if"]⟩ =
      .ok (.invoke ⟨1, 1⟩ (.local ⟨1, 2⟩ "if$") [.local ⟨1, 5⟩ "x"])
        ⟨.initial, userNs, ["x", "if"]⟩ ∧
    Stacked.analyzeTo 2 (.list ⟨1, 1⟩ [.symbol "if" ⟨1, 2⟩, .symbol "x" ⟨1, 5⟩])
        ⟨.initial, userNs, ["x"]⟩ =
      .error (.invalidSpecial "if" ⟨1, 1⟩ "expected 2 or 3 arguments") ⟨.initial, userNs, ["x"]⟩ ∧
    Stacked.analyzeTo 2 (.list ⟨1, 1⟩ [.symbol ".x" ⟨1, 2⟩, .symbol "y" ⟨1, 5⟩])
        ⟨.initial, userNs, ["y"]⟩ =
      .ok (.method ⟨1, 1⟩ (.local ⟨1, 5⟩ "y") "x" []) ⟨.initial, userNs, ["y"]⟩ := by
  obtain ⟨-, -, -, hheads⟩ := stack_is_lexical_scope userNs
  have hif := hheads 1 ⟨1, 1⟩ (.symbol "if" ⟨1, 2⟩) [.symbol "x" ⟨1, 5⟩]
  have hmember := hheads 1 ⟨1, 1⟩ (.symbol ".x" ⟨1, 2⟩) [.symbol "y" ⟨1, 5⟩]
  refine ⟨?_, ?_, ?_⟩
  · exact ((hif ["x", "if"] .initial "if" (by decide)).1 (by decide)).trans (by rfl)
  · exact ((hif ["x"] .initial "if" (by decide)).2.1 (by decide) .cond rfl).trans (by rfl)
  · exact ((hmember ["y"] .initial ".x" (by decide)).2.2 (by decide) ['x'] (by decide)
      (by decide)).trans (by rfl)

end LiveLisp.Analysis
