import LiveLisp.Proofs.Analysis.Effects
import LiveLisp.Proofs.Analysis.Stack
/-!
# What a failed analysis leaves behind

The form determines the steps that its analysis takes, and their order.  So a failed analysis leaves
the environment as it was exactly if the names that it had begun to define were defined before.
-/

namespace LiveLisp.Analysis

open Fallible
open Munge (munge)
open Text (Position)

/-! ## Steps by form -/

/-- The name of a function, if it has one, and the forms after it. -/
def namedFunction? : List Form → Option (Option String × List Form)
  | [] => some (none, [])
  | first :: rest =>
    if first.symbol?.isSome then first.plainName?.map fun name => (some name, rest)
    else some (none, first :: rest)

/-- The names of parameters, and of the one for the rest. -/
def parameterNames? : List Form → Option (List String × Option String)
  | [] => some ([], none)
  | param :: more => do
    let name ← param.plainName?
    if name = "&" then
      match more with
      | [rest] => return ([], some (← rest.plainName?))
      | _ => none
    else
      let (names, rest) ← parameterNames? more
      return (name :: names, rest)

/-- Target, member and arguments of `(. target member argument*)`. -/
def dotParts? : List Form → Option (Form × Form × List Form)
  | [target, .list _ (member :: args)] => some (target, member, args)
  | target :: member :: args => some (target, member, args)
  | _ => none

def isFieldName (member : String) : Bool := member.toList.head? == some '-'

/-- Whether the form stands for a place that can be assigned to. -/
def isPlace (scope : Scope) : Form → Bool
  | .atom _ (.symbol _) => true
  | .list _ (head :: args) =>
    match specialHead? scope head with
    | some .dot => (dotParts? args).any fun parts => parts.2.1.plainName?.any isFieldName
    | some _ => false
    | none => (memberHead? scope head).any isFieldName
  | _ => false

/-- Whether the form is a value that cannot be called. -/
def isInert : Form → Bool
  | .atom _ (.symbol _) => false
  | .atom pos value => (Form.atom pos value).keyword?.isNone
  | _ => false

section StepsBy

variable (steps : Scope → Form → List Step)

def defineSteps (scope : Scope) (args : List Form) : List Step :=
  accepting (definitionParts args) fun (name, init) =>
    accepting name.plainName? fun name => .define name :: init.toList.flatMap (steps scope)

def condSteps (scope : Scope) (args : List Form) : List Step :=
  accepting (condParts args) fun (test, thenBranch, elseBranch) =>
    -- the last branch is looked at first
    elseBranch.toList.flatMap (steps scope) ++ (steps scope test ++ steps scope thenBranch)

def bindingSteps (scope : Scope) : List (Form × Form) → List Step
  | [] => []
  | (name, init) :: rest =>
    accepting name.plainName? fun name => steps scope init ++ bindingSteps (scope.bind name) rest

/-- The names that bindings bind. -/
def boundNames (pairs : List (Form × Form)) : List String := pairs.filterMap fun p => p.1.plainName?

def bindSteps (scope : Scope) : List Form → List Step
  | .vector _ items :: body =>
    accepting (Form.pairUp items) fun pairs =>
      bindingSteps steps scope pairs ++ body.flatMap (steps (scope.bindAll (boundNames pairs)))
  | _ => [.refuse]

def funcSteps (scope : Scope) (args : List Form) : List Step :=
  accepting (namedFunction? args) fun
    | (name, .vector _ params :: body) =>
      accepting (parameterNames? params) fun (names, rest) =>
        body.flatMap (steps (scope.bindAll (name.toList ++ names ++ rest.toList)))
    | _ => [.refuse]

def assignSteps (scope : Scope) : List Form → List Step
  | [target, value] =>
    steps scope target ++ if isPlace scope target then steps scope value else [.refuse]
  | _ => [.refuse]

/-- The clauses of a guarded block, as long as there is no handler and no cleanup yet. -/
def clauseSteps (scope : Scope) (noHandler noCleanup : Bool) : List Form → List Step
  | [] => []
  | form :: rest =>
    let items := (form.list?.getD []).drop 1
    if form.isHeadedBy "catch" && noHandler && noCleanup then
      match items with
      | _ :: binding :: body =>
        accepting binding.plainName? fun name =>
          body.flatMap (steps (scope.bind name)) ++ clauseSteps scope false noCleanup rest
      | _ => [.refuse]
    else if form.isHeadedBy "finally" && noCleanup then
      -- without forms it counts for nothing, and another one may follow
      items.flatMap (steps scope) ++ clauseSteps scope noHandler items.isEmpty rest
    else [.refuse]

def guardSteps (scope : Scope) (args : List Form) : List Step :=
  let (body, clauses) := args.span (fun form => !isClause form)
  body.flatMap (steps scope) ++ clauseSteps steps scope true true clauses

def newSteps (scope : Scope) : List Form → List Step
  | [] => [.refuse]
  | args => args.flatMap (steps scope)

def memberSteps (scope : Scope) (member : String) : List Form → List Step
  | [] => [.refuse]
  | target :: args =>
    steps scope target ++
      if isFieldName member then
        if member.toList.tail.isEmpty || !args.isEmpty then [.refuse] else []
      else args.flatMap (steps scope)

def dotSteps (scope : Scope) (args : List Form) : List Step :=
  accepting (dotParts? args) fun (target, member, args) =>
    accepting member.plainName? fun name => memberSteps steps scope name (target :: args)

def specialSteps (scope : Scope) (special : Special) (args : List Form) : List Step :=
  match special with
  | .ns => [.refuse]
  | .define => defineSteps steps scope args
  | .block => args.flatMap (steps scope)
  | .cond => condSteps steps scope args
  | .bind => bindSteps steps scope args
  | .func => funcSteps steps scope args
  | .quote =>
    match args with
    | [_] => []
    | _ => [.refuse]
  | .assign => assignSteps steps scope args
  | .throw =>
    match args with
    | [value] => steps scope value
    | _ => [.refuse]
  | .guard => guardSteps steps scope args
  | .new => newSteps steps scope args
  | .dot => dotSteps steps scope args

/-- A symbol needs its namespace, if it has one. -/
def symbolSteps (sym : Symbol) : List Step := sym.ns.toList.map .need

def listSteps (scope : Scope) (head : Form) (args : List Form) : List Step :=
  match specialHead? scope head with
  | some special => specialSteps steps scope special args
  | none =>
    match memberHead? scope head with
    | some member => memberSteps steps scope member args
    | none =>
      match constructorHead? head with
      | some ctor => symbolSteps ctor ++ args.flatMap (steps scope)
      | none =>
        steps scope head ++ if isInert head then [.refuse] else args.flatMap (steps scope)

def formSteps (scope : Scope) : Form → List Step
  | .atom _ (.symbol sym) => symbolSteps sym
  | .atom .. | .list _ [] => []
  | .vector _ items | .set _ items => items.flatMap (steps scope)
  | .map _ entries => entries.flatMap fun e => steps scope e.1 ++ steps scope e.2
  | .list _ (head :: args) => listSteps steps scope head args

end StepsBy

/-- The steps of the analysis of a form no deeper than `depth`. -/
def stepsTo : Nat → Scope → Form → List Step
  | 0, _, _ => [.refuse]
  | depth + 1, scope, form => formSteps (stepsTo depth) scope form

/-! ## Names -/

theorem answers_bindingName (special : String) (form : Form) :
    Answers (bindingName special form) form.plainName? := by
  unfold bindingName
  cases form.plainName? with
  | some name => exact answers_pure name
  | none => exact answers_throw _

theorem answers_functionName (args : List Form) :
    Answers (functionName args) (namedFunction? args) := by
  unfold functionName namedFunction?
  cases args with
  | nil => exact answers_pure _
  | cons first rest =>
    dsimp only
    split
    · rw [Option.map_eq_bind]
      exact (answers_bindingName "fn" first).bind fun name => answers_pure _
    · exact answers_pure _

theorem answers_parameters (params : List Form) :
    Answers (parameters params) (parameterNames? params) := by
  induction params with
  | nil => exact answers_pure _
  | cons param more ih =>
    refine (answers_bindingName "fn" param).bind fun name => ?_
    split
    · match more with
      | [] => exact answers_throw _
      | [rest] => exact (answers_bindingName "fn" rest).bind fun r => answers_pure _
      | rest :: _ :: _ =>
        rw [← Option.bind_fun_none rest.plainName?]
        exact (answers_bindingName "fn" rest).bind fun _ => answers_throw _
    · exact ih.bind fun r => answers_pure _

/-! ## Forms -/

/-- What later steps look at in a result. -/
structure Shaped (place inert : Bool) (ast : Ast) : Prop where
  place : ast.isAssignable = place
  inert : ast.isInertConst = inert

/-- A symbol is resolved exactly if its namespace is within reach, and stands for a place then. -/
theorem resolve_eq (env : Env) (scope : Scope) (pos : Position) (sym : Symbol) :
    (∃ ast, resolve env scope pos sym = .ok ast ∧ Shaped true false ast ∧
        ∀ other, sym.ns = some other → env.reaches scope.ns other = true) ∨
      ∃ e other, resolve env scope pos sym = .error e ∧ sym.ns = some other ∧
        env.reaches scope.ns other = false := by
  unfold resolve
  cases hns : sym.ns with
  | none =>
    refine .inl ?_
    dsimp only
    split
    · exact ⟨_, rfl, ⟨rfl, rfl⟩, by simp⟩
    · split
      · exact ⟨_, rfl, ⟨rfl, rfl⟩, by simp⟩
      · split
        · exact ⟨_, rfl, ⟨rfl, rfl⟩, by simp⟩
        · exact ⟨_, rfl, ⟨rfl, rfl⟩, by simp⟩
  | some other =>
    dsimp only
    split
    · next hjs => exact .inl ⟨_, rfl, ⟨rfl, rfl⟩, by simp [Env.reaches, hjs]⟩
    · next hjs =>
      split
      · next halias => exact .inl ⟨_, rfl, ⟨rfl, rfl⟩, by simp [Env.reaches, halias]⟩
      · next halias =>
        split
        · next hknown =>
          refine .inl ⟨_, rfl, ⟨rfl, rfl⟩, ?_⟩
          rintro _ ⟨⟩
          rw [Env.reaches, Bool.or_assoc, hknown, Bool.or_true]
        · next hknown =>
          refine .inr ⟨_, other, rfl, rfl, ?_⟩
          rw [Env.reaches, Bool.or_assoc, Bool.not_eq_true _ |>.mp hknown]
          simp [hjs, halias]

theorem begun_need (env : Env) (ns other : String) : begun env ns [.need other] = [] := by
  rw [begun_cons]
  split <;> rfl

theorem takes_analyzeSymbol (scope : Scope) (pos : Position) (sym : Symbol) :
    Takes scope.ns (analyzeSymbol scope pos sym) (symbolSteps sym) (Shaped true false) := by
  intro env _
  unfold analyzeSymbol symbolSteps
  rcases resolve_eq env scope pos sym with ⟨ast, hok, hshape, hreaches⟩ |
    ⟨e, other, herror, hns, hreaches⟩
  · rw [hok]
    cases hns : sym.ns with
    | none => exact .ok (by simp) rfl hshape
    | some other =>
      refine .ok ?_ (congrArg (env.defineAll scope.ns) (begun_need ..)).symm hshape
      simp [Step.fails, hreaches other hns]
  · rw [herror, hns]
    refine .failed ⟨.need other, List.mem_singleton_self _, ?_⟩
      (congrArg (env.defineAll scope.ns) (begun_need ..)).symm
    simp [Step.fails, hreaches]

theorem ns_bindAll (scope : Scope) (names : List String) : (scope.bindAll names).ns = scope.ns := by
  rw [Scope.bindAll_eq]

section Parts

variable {ns : String} {sub : Analyzer} {steps : Scope → Form → List Step}

/-- The parts of a form are analyzed in these steps. -/
def Guided (ns : String) (sub : Analyzer) (steps : Scope → Form → List Step) : Prop :=
  ∀ scope form, scope.ns = ns →
    Takes ns (sub scope form) (steps scope form) (Shaped (isPlace scope form) (isInert form))

variable (h : Guided ns sub steps) {scope : Scope} (hscope : scope.ns = ns)
include h hscope

theorem takes_analyzeAll (forms : List Form) :
    Takes ns (analyzeAll sub scope forms) (forms.flatMap (steps scope))
      fun asts => asts.isEmpty = forms.isEmpty := by
  induction forms with
  | nil => exact takes_pure rfl
  | cons form rest ih =>
    exact (h scope form hscope).bind fun ast _ => ih.map fun asts _ => rfl

theorem takes_analyzeEntries (entries : List (Form × Form)) :
    Takes ns (analyzeEntries sub scope entries)
      (entries.flatMap fun e => steps scope e.1 ++ steps scope e.2) fun _ => True := by
  induction entries with
  | nil => exact takes_pure trivial
  | cons entry rest ih =>
    obtain ⟨key, value⟩ := entry
    rw [List.flatMap_cons, List.append_assoc]
    exact (h scope key hscope).bind fun k _ => (h scope value hscope).bind fun v _ =>
      ih.map fun _ _ => trivial

theorem takes_analyzeOption (form : Option Form) :
    Takes ns (analyzeOption sub scope form) (form.toList.flatMap (steps scope)) fun _ => True := by
  cases form with
  | none => exact takes_pure trivial
  | some form =>
    rw [Option.toList_some, List.flatMap_singleton]
    exact (h scope form hscope).map fun _ _ => trivial

theorem takes_analyzeDefine (pos : Position) (args : List Form) :
    Takes ns (analyzeDefine sub scope pos args) (defineSteps steps scope args)
      (Shaped false false) := by
  unfold analyzeDefine defineSteps
  cases definitionParts args with
  | none => exact takes_throw _
  | some parts =>
    obtain ⟨name, init⟩ := parts
    dsimp only [accepting, Option.elim]
    cases name.plainName? with
    | none => exact takes_throw _
    | some name =>
      dsimp only
      rw [hscope, ← List.singleton_append]
      exact (takes_define name).bind fun _ _ =>
        (takes_analyzeOption h hscope init).map fun _ _ => ⟨rfl, rfl⟩

theorem takes_analyzeCond (pos : Position) (args : List Form) :
    Takes ns (analyzeCond sub scope pos args) (condSteps steps scope args)
      (Shaped false false) := by
  unfold analyzeCond condSteps
  cases condParts args with
  | none => exact takes_throw _
  | some parts =>
    obtain ⟨test, thenBranch, elseBranch⟩ := parts
    exact (takes_analyzeOption h hscope elseBranch).bind fun _ _ =>
      (h scope test hscope).bind fun _ _ => (h scope thenBranch hscope).map fun _ _ => ⟨rfl, rfl⟩

theorem takes_analyzeBindings (pairs : List (Form × Form)) :
    Takes ns (analyzeBindings sub scope pairs) (bindingSteps steps scope pairs)
      fun r => r.2 = scope.bindAll (boundNames pairs) := by
  induction pairs generalizing scope with
  | nil => exact takes_pure rfl
  | cons pair rest ih =>
    obtain ⟨name, init⟩ := pair
    refine (answers_bindingName "let" name).takes fun bound hbound => ?_
    refine (h scope init hscope).bind fun _ _ => ?_
    have hnames : boundNames ((name, init) :: rest) = bound :: boundNames rest :=
      List.filterMap_cons_some hbound
    have hrest := @ih (scope.bind bound) hscope
    rw [hnames]
    exact hrest.map fun r hr => hr

theorem takes_analyzeBind (pos : Position) (args : List Form) :
    Takes ns (analyzeBind sub scope pos args) (bindSteps steps scope args)
      (Shaped false false) := by
  cases args with
  | nil => exact takes_throw _
  | cons first body =>
    cases first with
    | atom | list | set | map => exact takes_throw _
    | vector vectorPos items =>
      unfold analyzeBind bindSteps
      dsimp only
      cases Form.pairUp items with
      | none => exact takes_throw _
      | some pairs =>
        have hinner := (ns_bindAll scope (boundNames pairs)).trans hscope
        refine (takes_analyzeBindings h hscope pairs).bind fun r hr => ?_
        obtain ⟨bindings, inner⟩ := r
        obtain rfl : inner = scope.bindAll (boundNames pairs) := hr
        exact (takes_analyzeAll h hinner body).map fun _ _ => ⟨rfl, rfl⟩

theorem takes_analyzeFunc (pos : Position) (args : List Form) :
    Takes ns (analyzeFunc sub scope pos args) (funcSteps steps scope args)
      (Shaped false false) := by
  refine (answers_functionName args).takes fun r _ => ?_
  obtain ⟨name, args⟩ := r
  cases args with
  | nil => exact takes_throw _
  | cons first body =>
    cases first with
    | atom | list | set | map => exact takes_throw _
    | vector vectorPos params =>
      refine (answers_parameters params).takes fun r _ => ?_
      obtain ⟨names, rest⟩ := r
      have hinner := (ns_bindAll scope (name.toList ++ names ++ rest.toList)).trans hscope
      exact (takes_analyzeAll h hinner body).map fun _ _ => ⟨rfl, rfl⟩

theorem takes_analyzeAssign (pos : Position) (args : List Form) :
    Takes ns (analyzeAssign sub scope pos args) (assignSteps steps scope args)
      (Shaped false false) := by
  unfold analyzeAssign assignSteps
  match args with
  | [] | [_] | _ :: _ :: _ :: _ => exact takes_throw _
  | [target, value] =>
    refine (h scope target hscope).bind fun ast hast => ?_
    rw [hast.place]
    split
    · exact (h scope value hscope).map fun _ _ => ⟨rfl, rfl⟩
    · exact takes_throw _

theorem takes_analyzeClauses (done : Clauses) (forms : List Form) :
    Takes ns (analyzeClauses sub scope done forms)
      (clauseSteps steps scope done.handler.isNone done.cleanup.isEmpty forms) fun _ => True := by
  induction forms generalizing done with
  | nil => exact takes_pure trivial
  | cons form rest ih =>
    unfold analyzeClauses clauseSteps
    dsimp only
    split
    · generalize (form.list?.getD []).drop 1 = parts
      rcases parts with _ | ⟨_, _ | ⟨binding, body⟩⟩
      · exact takes_throw _
      · exact takes_throw _
      · refine (answers_bindingName "try" binding).takes fun name _ => ?_
        have hinner : (scope.bind name).ns = ns := hscope
        exact (takes_analyzeAll h hinner body).bind fun _ _ => ih _
    · split
      · refine (takes_analyzeAll h hscope _).bind fun asts hasts => ?_
        rw [← hasts]
        exact ih { done with cleanup := asts }
      · exact takes_throw _

theorem takes_analyzeGuard (pos : Position) (args : List Form) :
    Takes ns (analyzeGuard sub scope pos args) (guardSteps steps scope args)
      (Shaped false false) := by
  unfold analyzeGuard guardSteps
  exact (takes_analyzeAll h hscope _).bind fun _ _ =>
    (takes_analyzeClauses h hscope ⟨none, []⟩ _).map fun _ _ => ⟨rfl, rfl⟩

theorem takes_analyzeNew (pos : Position) (args : List Form) :
    Takes ns (analyzeNew sub scope pos args) (newSteps steps scope args)
      (Shaped false false) := by
  cases args with
  | nil => exact takes_throw _
  | cons ctor args =>
    exact (h scope ctor hscope).bind fun _ _ =>
      (takes_analyzeAll h hscope args).map fun _ _ => ⟨rfl, rfl⟩

theorem takes_analyzeMember (pos : Position) (member : String) (args : List Form) :
    Takes ns (analyzeMember sub scope pos member args) (memberSteps steps scope member args)
      (Shaped (isFieldName member) false) := by
  cases args with
  | nil => exact takes_throw _
  | cons target args =>
    refine (h scope target hscope).bind fun _ _ => ?_
    unfold isFieldName
    split
    · next field hmember =>
      simp only [hmember, List.head?_cons, beq_self_eq_true, if_true, List.tail_cons]
      cases field with
      | nil => exact takes_throw _
      | cons ch chars =>
        cases args with
        | nil => exact takes_pure ⟨rfl, rfl⟩
        | cons arg args => exact takes_throw _
    · next hmember =>
      have hfield : (member.toList.head? == some '-') = false := by
        cases hchars : member.toList with
        | nil => rfl
        | cons ch chars =>
          have hch : ch ≠ '-' := by
            rintro rfl
            exact hmember chars hchars
          simp [hch]
      simp only [hfield]
      exact (takes_analyzeAll h hscope args).map fun _ _ => ⟨rfl, rfl⟩

theorem takes_analyzeDot (pos : Position) (args : List Form) :
    Takes ns (analyzeDot sub scope pos args) (dotSteps steps scope args)
      (Shaped ((dotParts? args).any fun parts => parts.2.1.plainName?.any isFieldName) false) := by
  have haccess : ∀ target member args, Takes ns
      (bindingName "." member >>= fun name => analyzeMember sub scope pos name (target :: args))
      (accepting member.plainName? fun name => memberSteps steps scope name (target :: args))
      (Shaped (member.plainName?.any isFieldName) false) := by
    intro target member args
    refine (answers_bindingName "." member).takes fun name hname => ?_
    rw [hname]
    exact takes_analyzeMember h hscope pos name (target :: args)
  unfold analyzeDot dotSteps
  dsimp only
  split
  · next target p member args => exact haccess target member args
  · next target member args hnested =>
    rw [dotParts?]
    · exact haccess target member args
    · exact hnested
  · next hfew hnone =>
    rw [dotParts?]
    · exact takes_throw _
    · exact hfew
    · exact hnone

theorem takes_analyzeSpecial (pos : Position) (special : Special) (args : List Form) :
    Takes ns (analyzeSpecial sub scope pos special args) (specialSteps steps scope special args)
      (Shaped (match special with
        | .dot => (dotParts? args).any fun parts => parts.2.1.plainName?.any isFieldName
        | _ => false) false) := by
  cases special with
  | ns => exact takes_throw _
  | define => exact takes_analyzeDefine h hscope pos args
  | block => exact (takes_analyzeAll h hscope args).map fun _ _ => ⟨rfl, rfl⟩
  | cond => exact takes_analyzeCond h hscope pos args
  | bind => exact takes_analyzeBind h hscope pos args
  | func => exact takes_analyzeFunc h hscope pos args
  | quote =>
    match args with
    | [] | _ :: _ :: _ => exact takes_throw _
    | [quoted] => exact takes_pure ⟨rfl, rfl⟩
  | assign => exact takes_analyzeAssign h hscope pos args
  | throw =>
    match args with
    | [] | _ :: _ :: _ => exact takes_throw _
    | [value] => exact (h scope value hscope).map fun _ _ => ⟨rfl, rfl⟩
  | guard => exact takes_analyzeGuard h hscope pos args
  | new => exact takes_analyzeNew h hscope pos args
  | dot => exact takes_analyzeDot h hscope pos args

theorem takes_analyzeCall (pos : Position) (head : Form) (args : List Form) :
    Takes ns (analyzeCall sub scope pos head args)
      (steps scope head ++ if isInert head then [.refuse] else args.flatMap (steps scope))
      (Shaped false false) := by
  refine (h scope head hscope).bind fun callee hcallee => ?_
  rw [hcallee.inert]
  split
  · exact takes_throw _
  · exact (takes_analyzeAll h hscope args).map fun _ _ => ⟨rfl, rfl⟩

theorem takes_analyzeList (pos : Position) (head : Form) (args : List Form) :
    Takes ns (analyzeList sub scope pos head args) (listSteps steps scope head args)
      (Shaped (isPlace scope (.list pos (head :: args))) false) := by
  unfold analyzeList listSteps isPlace
  dsimp only
  cases specialHead? scope head with
  | some special =>
    have hspecial := takes_analyzeSpecial h hscope pos special args
    cases special <;> exact hspecial
  | none =>
    cases memberHead? scope head with
    | some member => exact takes_analyzeMember h hscope pos member args
    | none =>
      cases constructorHead? head with
      | none => exact takes_analyzeCall h hscope pos head args
      | some ctor =>
        have hctor := takes_analyzeSymbol scope head.pos ctor
        rw [hscope] at hctor
        exact hctor.bind fun _ _ =>
          (takes_analyzeAll h hscope args).map fun _ _ => ⟨rfl, rfl⟩

theorem takes_analyzeWith (form : Form) :
    Takes ns (analyzeWith sub scope form) (formSteps steps scope form)
      (Shaped (isPlace scope form) (isInert form)) := by
  cases form with
  | atom pos value =>
    cases value with
    | symbol sym =>
      have hsym := takes_analyzeSymbol scope pos sym
      rwa [hscope] at hsym
    | _ => exact takes_pure ⟨rfl, rfl⟩
  | vector pos items => exact (takes_analyzeAll h hscope items).map fun _ _ => ⟨rfl, rfl⟩
  | set pos items => exact (takes_analyzeAll h hscope items).map fun _ _ => ⟨rfl, rfl⟩
  | map pos entries => exact (takes_analyzeEntries h hscope entries).map fun _ _ => ⟨rfl, rfl⟩
  | list pos items =>
    cases items with
    | nil => exact takes_pure ⟨rfl, rfl⟩
    | cons head args => exact takes_analyzeList h hscope pos head args

end Parts

theorem guided_analyzeTo (ns : String) (depth : Nat) :
    Guided ns (analyzeTo depth) (stepsTo depth) := by
  induction depth with
  | zero => exact fun scope form _ => takes_throw _
  | succ depth ih => exact fun scope form hscope => takes_analyzeWith ih hscope form

/-! ## Failures -/

/-- The names that the analysis of a top-level form defines before it ends.  A declaration defines
none. -/
def begunBy (env : Env) (ns : String) (form : Form) : List String :=
  if form.isHeadedBy "ns" then []
  else begun env ns (stepsTo form.depth ⟨ns, [], munge⟩ form)

theorem plainName?_eq_iff {form : Form} {name : String} :
    form.plainName? = some name ↔ form.symbol?.any (·.isPlain name) = true := by
  rw [Form.plainName?, Option.bind_eq_some_iff, Option.any_eq_true]
  simp only [Symbol.plainName?_eq_some_iff]

/-- The current namespace becomes known, and then the form is analyzed as a declaration or as an
expression. -/
theorem analyze_top_cases (ns : String) (form : Form) (env : Env) :
    (∃ pos head items, form = .list pos (head :: items) ∧ form.isHeadedBy "ns" = true ∧
        analyze ns form env = analyzeDeclaration pos items (env.register ns)) ∨
      form.isHeadedBy "ns" = false ∧
        analyze ns form env = analyzeTo form.depth ⟨ns, [], munge⟩ form (env.register ns) := by
  have hregister : (modify (·.register ns) : Analyzing PUnit) env = .ok () (env.register ns) := rfl
  rw [analyze_eq]
  unfold analyzeSpelled
  rw [bind_of_ok hregister]
  cases form with
  | atom | vector | set | map => exact .inr ⟨rfl, rfl⟩
  | list pos items =>
    cases items with
    | nil => exact .inr ⟨rfl, rfl⟩
    | cons head items =>
      dsimp only
      split
      · next hhead => exact .inl ⟨pos, head, items, rfl, plainName?_eq_iff.mp hhead, rfl⟩
      · next hhead =>
        refine .inr ⟨?_, rfl⟩
        rw [plainName?_eq_iff] at hhead
        exact Bool.not_eq_true _ |>.mp hhead

theorem analyze_cases {ns : String} {env : Env} (form : Form) (hns : env.contains ns = true) :
    (∃ pos items, form.isHeadedBy "ns" = true ∧
        analyze ns form env = analyzeDeclaration pos items env) ∨
      form.isHeadedBy "ns" = false ∧
        analyze ns form env = analyzeTo form.depth ⟨ns, [], munge⟩ form env := by
  have hregister : env.register ns = env := if_pos hns
  have hcases := analyze_top_cases ns form env
  rw [hregister] at hcases
  rcases hcases with ⟨pos, head, items, -, hheaded, hrun⟩ | hexpression
  · exact .inl ⟨pos, items, hheaded, hrun⟩
  · exact .inr hexpression

/-- A failed analysis leaves the definitions that it had begun, and nothing else: the environment
is as it was exactly if these were there before. -/
theorem analyze_error_iff {ns : String} {form : Form} {env env' : Env} {e : CompileError}
    (hns : env.contains ns = true) (h : analyze ns form env = .error e env') :
    env' = env.defineAll ns (begunBy env ns form) ∧
      (env' = env ↔ ∀ name ∈ begunBy env ns form, name ∈ env.defs ns) := by
  have hleft : env' = env.defineAll ns (begunBy env ns form) := by
    unfold begunBy
    rcases analyze_cases form hns with ⟨pos, items, hheaded, hrun⟩ | ⟨hheaded, hrun⟩
    · -- a declaration touches the environment only once nothing can fail any more
      rw [if_pos hheaded]
      rw [hrun, analyzeDeclaration] at h
      split at h
      · contradiction
      · exact (EStateM.Result.error.inj h).2.symm
    · rw [if_neg (by simp [hheaded])]
      have htaken := guided_analyzeTo ns form.depth ⟨ns, [], munge⟩ form rfl env hns
      rw [← hrun, h] at htaken
      cases htaken with
      | failed _ henv => exact henv
  refine ⟨hleft, ?_⟩
  rw [hleft]
  exact Env.defineAll_eq_self_iff hns

/-- `(def inc (nope/x))`: the value needs a namespace that nobody knows. -/
def unmetDefinition : Form :=
  .list .start [.symbol "def" .start, .symbol "inc" .start, .list .start [.symbol "nope/x" .start]]

/-- The name stays defined, so that `inc` no longer is the one of the core namespace. -/
theorem failed_definition_stays :
    ¬∀ (env : Env) (ns : String) (form : Form) (e : CompileError) (env' : Env),
      env.contains ns = true → analyze ns form env = .error e env' → env' = env := by
  intro h
  have hrun : analyze userNs unmetDefinition .initial =
      .error (.noSuchNamespace "nope" .start) (Env.initial.define userNs "inc") := rfl
  have hsame := h .initial userNs unmetDefinition _ _ (by decide) hrun
  exact absurd hsame (by decide)

/-- Where `inc` is defined already the failure leaves nothing behind: the definition after it is not
begun. -/
theorem failed_redefinition_leaves_nothing :
    let env := Env.initial.define userNs "inc"
    let form : Form := .list .start [.symbol "do" .start, unmetDefinition,
      .list .start [.symbol "def" .start, .symbol "later" .start]]
    env.contains userNs = true ∧ begunBy env userNs form = ["inc"] ∧
      ∃ e env', analyze userNs form env = .error e env' ∧ env' = env := by
  intro env form
  have hns : env.contains userNs = true := by decide
  have hbegun : begunBy env userNs form = ["inc"] := by decide
  have hrun : analyze userNs form env = .error (.noSuchNamespace "nope" .start)
      (env.define userNs "inc") := rfl
  refine ⟨hns, hbegun, _, _, hrun, (analyze_error_iff hns hrun).2.mpr ?_⟩
  rw [hbegun]
  decide

end LiveLisp.Analysis
