import LiveLisp.Proofs.Analysis.Depth
import LiveLisp.Proofs.Analysis.Stack
/-!
# The clauses of a guarded block

The arguments of a guarded block are its body, then perhaps a handler, then perhaps a cleanup.
Analysis accepts these and, with one exception, nothing else: a cleanup without forms leaves no
trace, so that a handler and other cleanups may come after it.
-/

namespace LiveLisp

/-- The forms after the head of a list that is headed by the plain symbol `name`. -/
def Form.headedBy? (name : String) : Form → Option (List Form)
  | .list _ (head :: items) => if head.plainName? = some name then some items else none
  | _ => none

theorem Form.isHeadedBy_iff {form : Form} {name : String} :
    form.isHeadedBy name = true ↔ ∃ items, form.headedBy? name = some items := by
  cases form with
  | list pos items =>
    cases items with
    | nil => simp [isHeadedBy, head?, headedBy?]
    | cons head items =>
      rw [isHeadedBy, Option.any_eq_true]
      simp only [← Symbol.plainName?_eq_some_iff, ← Option.bind_eq_some_iff]
      change head.plainName? = some name ↔ _
      simp [headedBy?]
  | _ => simp [isHeadedBy, head?, headedBy?]

theorem Form.items_of_headedBy? {form : Form} {name : String} {items : List Form}
    (h : form.headedBy? name = some items) : (form.list?.getD []).drop 1 = items := by
  unfold headedBy? at h
  split at h
  · split at h
    · exact Option.some.inj h
    · contradiction
  · contradiction

namespace Analysis

open Fallible
open Text (Position)
open Munge (munge)

/-! ## The grammar -/

/-- `(catch type name form*)` with the forms `body`. -/
def IsHandler (form : Form) (name : String) (body : List Form) : Prop :=
  ∃ type binding, form.headedBy? "catch" = some (type :: binding :: body) ∧
    binding.plainName? = some name

/-- `(finally form*)` with the forms `items`. -/
def IsCleanup (form : Form) (items : List Form) : Prop := form.headedBy? "finally" = some items

/-- At most one handler clause. -/
inductive Handling : Option (String × List Form) → List Form → Prop
  | none : Handling none []
  | some {form : Form} {name : String} {body : List Form} (h : IsHandler form name body) :
    Handling (some (name, body)) [form]

/-- At most one cleanup clause. -/
inductive Cleaning : List Form → List Form → Prop
  | none : Cleaning [] []
  | some {form : Form} {items : List Form} (h : IsCleanup form items) : Cleaning items [form]

/-- The parts of a guarded block: the forms of its body, the name that its handler binds with the
forms of the handler, and the forms of its cleanup. -/
structure Guarded where
  body : List Form
  handler : Option (String × List Form)
  cleanup : List Form

namespace Guarded

/-- `args` are the body, then at most one handler, then at most one cleanup. -/
def Spelled (g : Guarded) (args : List Form) : Prop :=
  ∃ handler cleanup, args = g.body ++ (handler ++ cleanup) ∧
    (∀ form ∈ g.body, isClause form = false) ∧ Handling g.handler handler ∧
      Cleaning g.cleanup cleanup

/-- The same with cleanups without forms before the handler and after it. -/
def LooselySpelled (g : Guarded) (args : List Form) : Prop :=
  ∃ idle handler idle' cleanup, args = g.body ++ (idle ++ (handler ++ (idle' ++ cleanup))) ∧
    (∀ form ∈ g.body, isClause form = false) ∧ (∀ form ∈ idle ++ idle', IsCleanup form []) ∧
      Handling g.handler handler ∧ Cleaning g.cleanup cleanup

/-- Analyzes the forms of a handler in the scope of its name. -/
def analyzeHandler (scope : Scope) :
    Option (String × List Form) → Analyzing (Option (String × List Ast))
  | none => return none
  | some (name, forms) =>
    return some (scope.spell name, ← analyzeAll analyzeExpression (scope.bind name) forms)

/-- Analyzes the parts one after the other. -/
def analyze (g : Guarded) (scope : Scope) (pos : Position) : Analyzing Ast := do
  let body ← analyzeAll analyzeExpression scope g.body
  let handler ← analyzeHandler scope g.handler
  let cleanup ← analyzeAll analyzeExpression scope g.cleanup
  return .guard pos body handler cleanup

end Guarded

/-- A cleanup without forms is not the last argument. -/
def Overtaken (args : List Form) : Prop := ∃ form ∈ args.dropLast, IsCleanup form []

/-! ## One clause -/

section Clauses

variable {sub : Analyzer} {scope : Scope} {done r : Clauses} {form : Form} {forms rest : List Form}
  {env env' : Env} {items body : List Form} {name : String}

theorem IsCleanup.isClause (h : IsCleanup form items) : isClause form = true := by
  rw [Analysis.isClause, Form.isHeadedBy_iff.mpr ⟨items, h⟩, Bool.or_true]

theorem IsHandler.isHeadedBy (h : IsHandler form name body) : form.isHeadedBy "catch" = true := by
  obtain ⟨type, binding, hitems, -⟩ := h
  exact Form.isHeadedBy_iff.mpr ⟨_, hitems⟩

theorem IsHandler.isClause (h : IsHandler form name body) : isClause form = true := by
  rw [Analysis.isClause, h.isHeadedBy, Bool.true_or]

/-- A cleanup is no handler. -/
theorem IsCleanup.isHeadedBy_catch (h : IsCleanup form items) :
    form.isHeadedBy "catch" = false := by
  rw [← Bool.not_eq_true]
  intro hcatch
  have hname := Form.name_eq_of_isHeadedBy hcatch (Form.isHeadedBy_iff.mpr ⟨items, h⟩)
  exact absurd hname (by decide)

theorem analyzeClauses_cleanup (h : IsCleanup form items) (hdone : done.cleanup = []) :
    analyzeClauses sub scope done (form :: rest) = (do
      let asts ← analyzeAll sub scope items
      analyzeClauses sub scope { done with cleanup := asts } rest) := by
  have hfinally : form.isHeadedBy "finally" = true := Form.isHeadedBy_iff.mpr ⟨items, h⟩
  rw [analyzeClauses, Form.items_of_headedBy? h]
  simp [h.isHeadedBy_catch, hfinally, hdone]

/-- A cleanup without forms counts for nothing. -/
theorem analyzeClauses_idle (h : IsCleanup form []) (hdone : done.cleanup = []) :
    analyzeClauses sub scope done (form :: rest) = analyzeClauses sub scope done rest := by
  obtain ⟨handler, cleanup⟩ := done
  obtain rfl : cleanup = [] := hdone
  rw [analyzeClauses_cleanup h rfl]
  rfl

theorem analyzeClauses_handler (h : IsHandler form name body) :
    analyzeClauses sub scope ⟨none, []⟩ (form :: rest) = (do
      let asts ← analyzeAll sub (scope.bind name) body
      analyzeClauses sub scope ⟨some (scope.spell name, asts), []⟩ rest) := by
  have hcatch := h.isHeadedBy
  obtain ⟨type, binding, hitems, hname⟩ := h
  rw [analyzeClauses, Form.items_of_headedBy? hitems]
  simp [hcatch, bindingName, hname]

/-- Which clauses may come next. -/
theorem clause_of_ok (h : analyzeClauses sub scope done (form :: rest) env = .ok r env') :
    done.cleanup = [] ∧ ((∃ items, IsCleanup form items) ∨
      done.handler = none ∧ ∃ name body, IsHandler form name body) := by
  rw [analyzeClauses] at h
  split at h
  · next hcatch =>
    simp only [Bool.and_eq_true, Option.isNone_iff_eq_none, List.isEmpty_iff] at hcatch
    obtain ⟨⟨hheaded, hnone⟩, hcleanup⟩ := hcatch
    obtain ⟨all, hall⟩ := Form.isHeadedBy_iff.mp hheaded
    rw [Form.items_of_headedBy? hall] at h
    refine ⟨hcleanup, .inr ⟨hnone, ?_⟩⟩
    split at h
    · next type binding body =>
      obtain ⟨name, env₁, hname, -⟩ := bind_eq_ok.mp h
      cases hplain : binding.plainName? with
      | none =>
        simp only [bindingName, hplain] at hname
        exact absurd hname throw_ne_ok
      | some plain => exact ⟨plain, body, type, binding, hall, hplain⟩
    · exact absurd h throw_ne_ok
  · split at h
    · next hfinally =>
      simp only [Bool.and_eq_true, List.isEmpty_iff] at hfinally
      exact ⟨hfinally.2, .inl (Form.isHeadedBy_iff.mp hfinally.1)⟩
    · exact absurd h throw_ne_ok

theorem length_of_analyzeAll {asts : List Ast}
    (h : analyzeAll sub scope forms env = .ok asts env') : asts.length = forms.length := by
  induction forms generalizing env env' asts with
  | nil =>
    obtain ⟨rfl, -⟩ := pure_eq_ok.mp h
    rfl
  | cons form rest ih =>
    obtain ⟨ast, env₁, -, hrest⟩ := bind_eq_ok.mp h
    obtain ⟨more, env₂, hmore, hpure⟩ := bind_eq_ok.mp hrest
    obtain ⟨rfl, -⟩ := pure_eq_ok.mp hpure
    rw [List.length_cons, List.length_cons, ih hmore]

/-! ## All clauses -/

theorem analyzeClauses_idles {idle : List Form} (h : ∀ form ∈ idle, IsCleanup form [])
    (hdone : done.cleanup = []) :
    analyzeClauses sub scope done (idle ++ rest) = analyzeClauses sub scope done rest := by
  induction idle with
  | nil => rfl
  | cons form idle ih =>
    obtain ⟨hform, hidle⟩ := List.forall_mem_cons.mp h
    rw [List.cons_append, analyzeClauses_idle hform hdone, ih hidle]

/-- The clauses that may come after a handler. -/
theorem cleaning_of_ok (hhandler : done.handler ≠ none)
    (h : analyzeClauses sub scope done forms env = .ok r env') :
    ∃ items idle cleanup, forms = idle ++ cleanup ∧ (∀ form ∈ idle, IsCleanup form []) ∧
      Cleaning items cleanup := by
  induction forms generalizing done env with
  | nil => exact ⟨[], [], [], rfl, by simp, .none⟩
  | cons form rest ih =>
    obtain ⟨hdone, ⟨items, hform⟩ | ⟨hnone, -⟩⟩ := clause_of_ok h
    · cases items with
      | nil =>
        rw [analyzeClauses_idle hform hdone] at h
        obtain ⟨items, idle, cleanup, rfl, hidle, hcleanup⟩ := ih hhandler h
        exact ⟨items, form :: idle, cleanup, rfl, List.forall_mem_cons.mpr ⟨hform, hidle⟩, hcleanup⟩
      | cons item more =>
        -- Now there is a cleanup, and no clause may come after it.
        rw [analyzeClauses_cleanup hform hdone] at h
        obtain ⟨asts, env₁, hasts, hrest⟩ := bind_eq_ok.mp h
        have hlength := length_of_analyzeAll hasts
        cases rest with
        | nil => exact ⟨item :: more, [], [form], rfl, by simp, .some hform⟩
        | cons next rest =>
          obtain ⟨hnil, -⟩ := clause_of_ok hrest
          simp [show asts = [] from hnil] at hlength
    · exact absurd hnone hhandler

/-- The clauses that may come after a body. -/
theorem clauses_of_ok (h : analyzeClauses sub scope ⟨none, []⟩ forms env = .ok r env') :
    ∃ handled items idle handler idle' cleanup, forms = idle ++ (handler ++ (idle' ++ cleanup)) ∧
      (∀ form ∈ idle ++ idle', IsCleanup form []) ∧ Handling handled handler ∧
        Cleaning items cleanup := by
  induction forms generalizing env with
  | nil => exact ⟨none, [], [], [], [], [], rfl, by simp, .none, .none⟩
  | cons form rest ih =>
    obtain ⟨-, ⟨items, hform⟩ | ⟨-, name, body, hform⟩⟩ := clause_of_ok h
    · cases items with
      | nil =>
        rw [analyzeClauses_idle hform rfl] at h
        obtain ⟨handled, items, idle, handler, idle', cleanup, rfl, hidle, hhandler, hcleanup⟩ :=
          ih h
        exact ⟨handled, items, form :: idle, handler, idle', cleanup, rfl,
          List.forall_mem_cons.mpr ⟨hform, hidle⟩, hhandler, hcleanup⟩
      | cons item more =>
        rw [analyzeClauses_cleanup hform rfl] at h
        obtain ⟨asts, env₁, hasts, hrest⟩ := bind_eq_ok.mp h
        have hlength := length_of_analyzeAll hasts
        cases rest with
        | nil => exact ⟨none, item :: more, [], [], [], [form], rfl, by simp, .none, .some hform⟩
        | cons next rest =>
          obtain ⟨hnil, -⟩ := clause_of_ok hrest
          simp [show asts = [] from hnil] at hlength
    · rw [analyzeClauses_handler hform] at h
      obtain ⟨asts, env₁, -, hrest⟩ := bind_eq_ok.mp h
      obtain ⟨items, idle', cleanup, rfl, hidle, hcleanup⟩ := cleaning_of_ok (by simp) hrest
      exact ⟨some (name, body), items, [], [form], idle', cleanup, rfl, hidle, .some hform,
        hcleanup⟩

/-- What comes of at most one cleanup. -/
theorem analyzeClauses_cleaning {handler : Option (String × List Ast)} {cleanup : List Form}
    (h : Cleaning items cleanup) :
    analyzeClauses sub scope ⟨handler, []⟩ cleanup = (do
      let asts ← analyzeAll sub scope items
      return ⟨handler, asts⟩) := by
  cases h with
  | none => rfl
  | some hform => rw [analyzeClauses_cleanup hform rfl]; rfl

end Clauses

/-! ## Guarded blocks -/

section Guard

variable {g : Guarded} {args before after : List Form} {form : Form} {scope : Scope}
  {pos : Position} {env env' : Env} {ast : Ast}

theorem Handling.isClause {handled : Option (String × List Form)} {handler : List Form}
    (h : Handling handled handler) : ∀ form ∈ handler, isClause form = true := by
  cases h with
  | none => simp
  | some hform => simpa using hform.isClause

theorem Cleaning.isClause {items cleanup : List Form} (h : Cleaning items cleanup) :
    ∀ form ∈ cleanup, isClause form = true := by
  cases h with
  | none => simp
  | some hform => simpa using hform.isClause

/-- The body ends before the first clause. -/
theorem span_isClause {body clauses : List Form} (hbody : ∀ form ∈ body, isClause form = false)
    (hclauses : ∀ form ∈ clauses, isClause form = true) :
    (body ++ clauses).span (fun form => !isClause form) = (body, clauses) := by
  have hpos : ∀ form ∈ body, (!isClause form) = true := fun form hform => by simp [hbody form hform]
  rw [List.span_eq_takeWhile_dropWhile, List.takeWhile_append_of_pos hpos,
    List.dropWhile_append_of_pos hpos]
  cases clauses with
  | nil => simp
  | cons form rest => simp [hclauses form (by simp)]

/-- What is spelled like a guarded block is analyzed part by part. -/
theorem analyzeGuard_of_spelled (h : g.LooselySpelled args) :
    analyzeGuard analyzeExpression scope pos args = g.analyze scope pos := by
  obtain ⟨body, handled, items⟩ := g
  obtain ⟨idle, handler, idle', cleanup, rfl, hbody, hidle, hhandler, hcleanup⟩ := h
  obtain ⟨hidle, hidle'⟩ := List.forall_mem_append.mp hidle
  have hclauses : ∀ form ∈ idle ++ (handler ++ (idle' ++ cleanup)), isClause form = true := by
    simp only [List.forall_mem_append]
    exact ⟨fun form hform => (hidle form hform).isClause, hhandler.isClause,
      fun form hform => (hidle' form hform).isClause, hcleanup.isClause⟩
  have hrest : ∀ handler, analyzeClauses analyzeExpression scope ⟨handler, []⟩
      (idle' ++ cleanup) = (do
        let asts ← analyzeAll analyzeExpression scope items
        return ⟨handler, asts⟩) := by
    intro handler
    rw [analyzeClauses_idles hidle' rfl, analyzeClauses_cleaning hcleanup]
  unfold analyzeGuard Guarded.analyze
  rw [span_isClause hbody hclauses]
  dsimp only
  rw [analyzeClauses_idles hidle rfl]
  cases hhandler with
  | none => simp only [List.nil_append, hrest, Guarded.analyzeHandler, bind_assoc, pure_bind]
  | some hform =>
    rw [List.singleton_append, analyzeClauses_handler hform]
    simp only [hrest, Guarded.analyzeHandler, bind_assoc, pure_bind]

/-- What is analyzed as a guarded block is spelled like one. -/
theorem spelled_of_analyzeGuard
    (h : analyzeGuard analyzeExpression scope pos args env = .ok ast env') :
    ∃ g : Guarded, g.LooselySpelled args := by
  unfold analyzeGuard at h
  rw [List.span_eq_takeWhile_dropWhile] at h
  obtain ⟨asts, env₁, -, hrest⟩ := bind_eq_ok.mp h
  obtain ⟨clauses, env₂, hclauses, -⟩ := bind_eq_ok.mp hrest
  obtain ⟨handled, items, idle, handler, idle', cleanup, hargs, hidle, hhandler, hcleanup⟩ :=
    clauses_of_ok hclauses
  refine ⟨⟨args.takeWhile fun form => !isClause form, handled, items⟩, idle, handler, idle',
    cleanup, ?_, ?_, hidle, hhandler, hcleanup⟩
  · rw [← hargs, List.takeWhile_append_dropWhile]
  · intro form hform
    simpa using List.all_eq_true.mp List.all_takeWhile form hform

/-! ## Cleanups without forms -/

theorem Guarded.Spelled.loosely (h : g.Spelled args) : g.LooselySpelled args := by
  obtain ⟨handler, cleanup, hargs, hbody, hhandler, hcleanup⟩ := h
  exact ⟨[], handler, [], cleanup, hargs, hbody, by simp, hhandler, hcleanup⟩

theorem Guarded.Spelled.not_overtaken (h : g.Spelled args) : ¬Overtaken args := by
  obtain ⟨body, handled, items⟩ := g
  obtain ⟨handler, cleanup, rfl, hbody, hhandler, hcleanup⟩ := h
  rintro ⟨form, hmem, hidle⟩
  have hbefore : form ∈ body ++ handler := by
    rw [← List.append_assoc] at hmem
    cases hcleanup with
    | none => exact List.dropLast_subset _ (by simpa using hmem)
    | some => simpa using hmem
  rcases List.mem_append.mp hbefore with hbefore | hbefore
  · have hclause := hidle.isClause
    rw [hbody form hbefore] at hclause
    contradiction
  · cases hhandler with
    | none => simp at hbefore
    | some hform =>
      obtain rfl := List.mem_singleton.mp hbefore
      have hcatch := hidle.isHeadedBy_catch
      rw [hform.isHeadedBy] at hcatch
      contradiction

theorem eq_nil_of_not_overtaken (h : ¬Overtaken (before ++ form :: after))
    (hform : IsCleanup form []) : after = [] := by
  by_contra hne
  refine h ⟨form, ?_, hform⟩
  rw [List.dropLast_append_of_ne_nil (by simp), List.dropLast_cons_of_ne_nil hne]
  simp

/-- If nothing comes after a cleanup without forms, it is the only one. -/
theorem Guarded.LooselySpelled.spelled (h : g.LooselySpelled args) (hlast : ¬Overtaken args) :
    g.Spelled args := by
  obtain ⟨body, handled, items⟩ := g
  obtain ⟨idle, handler, idle', cleanup, rfl, hbody, hidle, hhandler, hcleanup⟩ := h
  cases idle with
  | cons form idle =>
    have hform := hidle form (by simp)
    have hnil : idle ++ (handler ++ (idle' ++ cleanup)) = [] :=
      eq_nil_of_not_overtaken hlast hform
    simp only [List.append_eq_nil_iff] at hnil
    obtain ⟨rfl, rfl, rfl, rfl⟩ := hnil
    cases hhandler
    cases hcleanup
    exact ⟨[], [form], rfl, hbody, .none, .some hform⟩
  | nil =>
    cases idle' with
    | cons form idle' =>
      have hform := hidle form (by simp)
      have hargs : body ++ ([] ++ (handler ++ (form :: idle' ++ cleanup))) =
          (body ++ handler) ++ form :: (idle' ++ cleanup) := by simp
      have hnil := eq_nil_of_not_overtaken (hargs ▸ hlast) hform
      obtain ⟨rfl, rfl⟩ := List.append_eq_nil_iff.mp hnil
      cases hcleanup
      exact ⟨handler, [form], rfl, hbody, hhandler, .some hform⟩
    | nil => exact ⟨handler, cleanup, rfl, hbody, hhandler, hcleanup⟩

/-! ## Expressions -/

/-- At a form that is headed by an unbound `try`, analysis is that of a guarded block. -/
theorem analyzeExpression_guard {head : Form} (hhead : head.plainName? = some "try")
    (hfree : scope.isLocal "try" = false) :
    analyzeExpression scope (.list pos (head :: args)) =
      analyzeGuard analyzeExpression scope pos args := by
  rw [analyzeExpression_eq, analyzeWith, analyzeList, specialHead?_eq hhead, hfree]
  rfl

end Guard

/-- A list that is headed by `try`, the name not being bound, is analyzed exactly if its arguments
are a body, then at most one handler, then at most one cleanup, and all their forms are analyzed in
their scopes; the analyzed form has them all.  The exception is a cleanup without forms that is
followed by another argument: then the arguments are of no such form, but they are accepted if they
are so without the cleanups that have no forms and come before the others. -/
theorem guard_grammar_iff {ns : String} {locals : List String} {head : Form} {args : List Form}
    {depth : Nat} (hhead : head.plainName? = some "try") (hfree : "try" ∉ locals) (pos : Position)
    (hdepth : (Form.list pos (head :: args)).depth ≤ depth) (env : Env) :
    let run := Stacked.analyzeTo depth (.list pos (head :: args)) ⟨env, ns, locals⟩
    let analyzed := fun g : Guarded => standing ns locals (g.analyze (.ofStack ns locals) pos env)
    (¬Overtaken args → ∀ ast c,
      run = .ok ast c ↔ ∃ g : Guarded, g.Spelled args ∧ analyzed g = .ok ast c) ∧
    (Overtaken args → (∀ g : Guarded, ¬g.Spelled args) ∧ ∀ ast c,
      run = .ok ast c ↔ ∃ g : Guarded, g.LooselySpelled args ∧ analyzed g = .ok ast c) := by
  intro run analyzed
  have hfree' : (Scope.ofStack ns locals).isLocal "try" = false := by
    rw [← Bool.not_eq_true]
    exact mt isLocal_ofStack.mp hfree
  have hrun : run = standing ns locals
      (analyzeGuard analyzeExpression (.ofStack ns locals) pos args env) := by
    rw [← analyzeExpression_guard hhead hfree', analyzeExpression,
      analyzeTo_congr (Nat.le_refl _) hdepth]
    exact mirrorsAll_to ns depth locals _ env
  have hiff : ∀ ast c,
      run = .ok ast c ↔ ∃ g : Guarded, g.LooselySpelled args ∧ analyzed g = .ok ast c := by
    intro ast c
    constructor
    · intro hok
      cases hguard : analyzeGuard analyzeExpression (.ofStack ns locals) pos args env with
      | error e env' => simp [hrun, hguard, standing] at hok
      | ok ast' env' =>
        obtain ⟨g, hg⟩ := spelled_of_analyzeGuard hguard
        refine ⟨g, hg, ?_⟩
        rw [← hok, hrun, analyzeGuard_of_spelled hg]
    · rintro ⟨g, hg, hok⟩
      rw [← hok, hrun, analyzeGuard_of_spelled hg]
  refine ⟨fun hlast ast c => ?_, fun hover => ⟨fun g hg => hg.not_overtaken hover, hiff⟩⟩
  rw [hiff]
  exact exists_congr fun g =>
    and_congr_left fun _ => ⟨fun hg => hg.spelled hlast, fun hg => hg.loosely⟩

/-- `(catch :default e e)` -/
def handlerClause : Form :=
  .list .start [.symbol "catch" .start, .keyword (.plain "default") .start, .symbol "e" .start,
    .symbol "e" .start]

/-- `(finally form*)` -/
def cleanupClause (items : List Form) : Form := .list .start (.symbol "finally" .start :: items)

/-- `(try f (catch :default e e) (finally g))` has a body, a handler and a cleanup. -/
theorem guard_grammar_full :
    let args := [.symbol "f" .start, handlerClause, cleanupClause [.symbol "g" .start]]
    "try" ∉ ([] : List String) ∧ ¬Overtaken args ∧
      Stacked.analyzeTo 3 (.list .start (.symbol "try" .start :: args)) ⟨.initial, userNs, []⟩ =
        .ok (.guard .start [.var .start coreNs "f"] (some ("e", [.local .start "e"]))
          [.var .start coreNs "g"]) ⟨.initial, userNs, []⟩ := by
  intro args
  have hfree : "try" ∉ ([] : List String) := by simp
  have hdepth : (Form.list .start (.symbol "try" .start :: args)).depth ≤ 3 := by decide
  have hspelled : Guarded.Spelled ⟨[.symbol "f" .start], some ("e", [.symbol "e" .start]),
      [.symbol "g" .start]⟩ args :=
    ⟨[handlerClause], [cleanupClause [.symbol "g" .start]], rfl, by decide,
      .some ⟨_, _, rfl, by decide⟩, .some rfl⟩
  have hlast := hspelled.not_overtaken
  obtain ⟨hexact, -⟩ := guard_grammar_iff (by decide) hfree .start hdepth .initial
  exact ⟨hfree, hlast, (hexact hlast _ _).mpr ⟨_, hspelled, rfl⟩⟩

/-- In `(try (finally) (catch :default e e))` a handler comes after a cleanup, and is accepted. -/
theorem handler_after_idle_cleanup :
    let args := [cleanupClause [], handlerClause]
    (∀ g : Guarded, ¬g.Spelled args) ∧
      Stacked.analyzeTo 3 (.list .start (.symbol "try" .start :: args)) ⟨.initial, userNs, []⟩ =
        .ok (.guard .start [] (some ("e", [.local .start "e"])) []) ⟨.initial, userNs, []⟩ := by
  intro args
  have hover : Overtaken args := ⟨cleanupClause [], by simp [args], rfl⟩
  exact ⟨fun g hg => hg.not_overtaken hover, rfl⟩

end Analysis

end LiveLisp
