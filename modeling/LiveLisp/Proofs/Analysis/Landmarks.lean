import LiveLisp.Proofs.Analysis.Ast
import LiveLisp.Proofs.Analysis.History
import LiveLisp.Proofs.Analysis.Occurrences
import LiveLisp.Proofs.Form.Tree
import Mathlib.Data.List.Forall2
/-!
# Landmarks of analyzed forms

The definitions and the references of an analyzed form are those of the form, one by one and in the
order of the source, each symbol resolved where exactly the definitions that are analyzed before it
have been added.  So a definition is visible to the symbols after it, but for one in the test or the
first branch of a conditional, which a symbol in the last branch does not see.
-/

namespace LiveLisp.Analysis

open Fallible
open Munge (munge)
open Text (Position)

/-! ## Landmarks -/

/-- A definition in an analyzed form, or what a symbol was resolved to. -/
inductive Landmark where
  | definition (ns name : String)
  | reference (target : Ast)

namespace Ast

def landmark? : Ast → Option Landmark
  | .define _ space name _ => some (.definition space name)
  | .var pos space name => some (.reference (.var pos space name))
  | .local pos name => some (.reference (.local pos name))
  | .global pos name => some (.reference (.global pos name))
  | _ => none

/-- The definitions and references of an analyzed form, in the order of the source. -/
def landmarks (a : Ast) : List Landmark := a.preorder.filterMap landmark?

theorem landmarks_eq (a : Ast) :
    a.landmarks = a.landmark?.toList ++ a.parts.flatMap landmarks := by
  have hparts : ∀ parts : List Ast,
      (parts.flatMap preorder).filterMap landmark? = parts.flatMap landmarks := by
    intro parts
    induction parts with
    | nil => rfl
    | cons b parts ih =>
      rw [List.flatMap_cons, List.filterMap_append, ih]
      rfl
  rw [landmarks, preorder_eq, List.filterMap_cons, hparts]
  cases a.landmark? <;> rfl

end Ast

/-! ## Resolution -/

namespace Env

/-- More definitions are all that is added to what is known. -/
theorem info_defineAll (env : Env) (ns other : String) (names : List String) :
    (env.defineAll ns names).info other =
      { env.info other with defs := (env.defineAll ns names).defs other } := by
  induction names generalizing env with
  | nil => rfl
  | cons name names ih =>
    have hdefine : (env.define ns name).info other =
        { env.info other with defs := (env.define ns name).defs other } := by
      change _ = { env.info other with defs := ((env.define ns name).info other).defs }
      rw [define, info_update]
      split
      · next h => rw [h]
      · rfl
    rw [defineAll_cons, ih, hdefine]

end Env

theorem resolve_congr {env env' : Env} {scope : Scope}
    (hcontains : ∀ other, env'.contains other = env.contains other)
    (hinfo : env'.info scope.ns = { env.info scope.ns with defs := env'.defs scope.ns })
    (hdefs : ∀ name, name ∈ env'.defs scope.ns ↔ name ∈ env.defs scope.ns)
    (pos : Position) (symbol : Symbol) :
    resolve env' scope pos symbol = resolve env scope pos symbol := by
  have hname : ((env'.info scope.ns).defs).contains symbol.name =
      ((env.info scope.ns).defs).contains symbol.name := by
    rw [Bool.eq_iff_iff, List.contains_iff_mem, List.contains_iff_mem]
    exact hdefs symbol.name
  have haliases := congrArg NamespaceInfo.aliases hinfo
  have hrefers := congrArg NamespaceInfo.refers hinfo
  unfold Env.info at hname haliases hrefers
  unfold resolve
  dsimp only at haliases hrefers ⊢
  rw [hname, haliases, hrefers]
  simp only [hcontains]

/-- The order in which names are defined does not count. -/
theorem resolve_defineAll_congr {env : Env} {scope : Scope} (h : env.contains scope.ns = true)
    {names more : List String} (hnames : ∀ name, name ∈ names ↔ name ∈ more) (pos : Position)
    (symbol : Symbol) :
    resolve (env.defineAll scope.ns names) scope pos symbol =
      resolve (env.defineAll scope.ns more) scope pos symbol := by
  refine resolve_congr (fun other => ?_) ?_ (fun name => ?_) pos symbol
  · rw [Env.contains_defineAll h, Env.contains_defineAll h]
  · rw [Env.info_defineAll, Env.info_defineAll env scope.ns scope.ns more]
  · rw [Env.mem_defs_defineAll, Env.mem_defs_defineAll, hnames]

/-- How a symbol comes to what it is resolved to. -/
inductive Found (env : Env) (scope : Scope) (pos : Position) (symbol : Symbol) : Ast → Prop
  | script (hns : symbol.ns = some "js") : Found env scope pos symbol (.global pos symbol.name)
  | aliased {ns target : String} (hns : symbol.ns = some ns) (hjs : ns ≠ "js")
    (halias : (env.info scope.ns).aliases.get? ns = some target) :
    Found env scope pos symbol (.var pos target symbol.name)
  | known {ns : String} (hns : symbol.ns = some ns)
    (hknown : env.contains ns = true ∨ isScriptLibrary ns = true) :
    Found env scope pos symbol (.var pos ns symbol.name)
  | bound (hlocal : scope.isLocal symbol.name = true) :
    Found env scope pos symbol (.local pos (scope.spell symbol.name))
  | path (hdotted : isDotted symbol.name = true) :
    Found env scope pos symbol (.global pos (Munge.mungePath symbol.name))
  | referred {target : String} (hdotted : isDotted symbol.name = false)
    (hrefer : (env.info scope.ns).refers.get? symbol.name = some target) :
    Found env scope pos symbol (.var pos target symbol.name)
  | own (hdefined : symbol.name ∈ env.defs scope.ns) :
    Found env scope pos symbol (.var pos scope.ns symbol.name)
  | core : Found env scope pos symbol (.var pos coreNs symbol.name)

theorem found_of_resolve {env : Env} {scope : Scope} {pos : Position} {symbol : Symbol}
    {target : Ast} (h : resolve env scope pos symbol = .ok target) :
    Found env scope pos symbol target := by
  unfold resolve at h
  dsimp only at h
  split at h
  · next ns hns =>
    split at h
    · next hjs =>
      rw [← Except.ok.inj h]
      exact .script (hjs ▸ hns)
    · next hjs =>
      split at h
      · next halias =>
        rw [← Except.ok.inj h]
        exact .aliased hns hjs halias
      · split at h
        · next hknown =>
          rw [← Except.ok.inj h]
          exact .known hns (Bool.or_eq_true _ _ |>.mp hknown)
        · contradiction
  · split at h
    · next hlocal =>
      rw [← Except.ok.inj h]
      exact .bound hlocal
    · split at h
      · next hdotted =>
        rw [← Except.ok.inj h]
        exact .path hdotted
      · next hdotted =>
        split at h
        · next hrefer =>
          rw [← Except.ok.inj h]
          exact .referred (Bool.not_eq_true _ |>.mp hdotted) hrefer
        · rw [← Except.ok.inj h]
          split
          · next hdefined => exact .own (List.contains_iff_mem.mp hdefined)
          · exact .core

/-- What a symbol is resolved to is a landmark by itself. -/
theorem landmarks_of_resolve {env : Env} {scope : Scope} {pos : Position} {symbol : Symbol}
    {target : Ast} (h : resolve env scope pos symbol = .ok target) :
    target.landmarks = [.reference target] := by
  rw [Ast.landmarks_eq]
  cases found_of_resolve h <;> rfl

/-- A free name without dots that is not referred belongs to the namespace that defines it. -/
theorem resolve_plain {env : Env} {scope : Scope} {x : String} (hdotless : '.' ∉ x.toList)
    (hfree : x ∉ scope.locals) (hrefer : (env.info scope.ns).refers.get? x = none)
    (pos : Position) :
    resolve env scope pos (.plain x) =
      .ok (.var pos (if x ∈ env.defs scope.ns then scope.ns else coreNs) x) := by
  have hlocal : scope.isLocal x = false := by
    rw [Scope.isLocal, ← Bool.not_eq_true, List.contains_iff_mem]
    exact hfree
  have hdotted : isDotted x = false := by
    rw [isDotted, Bool.and_eq_false_iff, ← Bool.not_eq_true, List.contains_iff_mem]
    exact .inl hdotless
  unfold Env.info at hrefer
  unfold resolve Env.defs
  simp only [Symbol.plain, hlocal, hdotted, hrefer, Bool.false_eq_true, if_false,
    List.contains_iff_mem]

/-- What an event comes to in `ns`: a symbol is resolved behind the definitions that it knows. -/
inductive Lands (env : Env) (ns : String) : Event → Landmark → Prop
  | define (name : String) : Lands env ns (.define name) (.definition ns name)
  | occurs {o : Occurrence} {target : Ast} (hscope : o.scope.ns = ns)
    (hresolve : resolve (env.defineAll ns o.known) o.scope o.pos o.symbol = .ok target) :
    Lands env ns (.occurs o) (.reference target)

section Lands

variable {env : Env} {ns : String} {e : Event} {landmark : Landmark}

theorem Lands.behind (hns : env.contains ns = true) {names more : List String}
    (hnames : ∀ name, name ∈ names ↔ name ∈ more)
    (h : Lands (env.defineAll ns names) ns e landmark) :
    Lands env ns (e.behind more) landmark := by
  cases h with
  | define name => exact .define name
  | @occurs o target hscope hresolve =>
    subst hscope
    refine .occurs rfl ?_
    rw [← Env.defineAll_append] at hresolve
    rw [← hresolve]
    refine resolve_defineAll_congr hns (fun name => ?_) o.pos o.symbol
    rw [List.mem_append, List.mem_append, hnames]

theorem Lands.overtaking (h : Lands env ns e landmark) (names : List String) :
    Lands env ns (e.overtaking names) landmark := by
  cases h with
  | define name => exact .define name
  | occurs hscope hresolve => exact .occurs hscope hresolve

end Lands

/-! ## Computations that resolve symbols -/

/-- From the first environment to the second, the names of the events are defined, and the events
come to the landmarks. -/
structure Tracked (ns : String) (env env' : Env) (es : List Event) (landmarks : List Landmark) :
    Prop where
  defined : ∃ names, (∀ name, name ∈ names ↔ name ∈ defined es) ∧ env' = env.defineAll ns names
  lands : List.Forall₂ (Lands env ns) es landmarks

section Tracked

variable {ns : String} {env env₁ env' : Env} {es fs : List Event} {landmarks more : List Landmark}

theorem tracked_nil (ns : String) (env : Env) : Tracked ns env env [] [] :=
  ⟨⟨[], fun _ => Iff.rfl, rfl⟩, .nil⟩

theorem Tracked.contains (h : Tracked ns env env' es landmarks) (hns : env.contains ns = true) :
    env'.contains ns = true := by
  obtain ⟨names, -, rfl⟩ := h.defined
  rw [Env.contains_defineAll hns, hns]

/-- What is analyzed second is resolved behind what is analyzed first. -/
theorem Tracked.behind (hns : env.contains ns = true) (hes : Tracked ns env env₁ es landmarks)
    (hfs : Tracked ns env₁ env' fs more) :
    List.Forall₂ (Lands env ns) (fs.map (Event.behind (Analysis.defined es))) more := by
  obtain ⟨names, hnames, rfl⟩ := hes.defined
  rw [List.forall₂_map_left_iff]
  exact hfs.lands.imp fun e landmark hlands => hlands.behind hns hnames

theorem Tracked.names (hes : Tracked ns env env₁ es landmarks)
    (hfs : Tracked ns env₁ env' fs more) :
    ∃ names, (∀ name, name ∈ names ↔ name ∈ Analysis.defined es ∨ name ∈ Analysis.defined fs) ∧
      env' = env.defineAll ns names := by
  obtain ⟨names, hnames, rfl⟩ := hes.defined
  obtain ⟨names', hnames', rfl⟩ := hfs.defined
  refine ⟨names ++ names', fun name => ?_, (Env.defineAll_append ..).symm⟩
  rw [List.mem_append, hnames, hnames']

theorem Tracked.chain (hns : env.contains ns = true) (hes : Tracked ns env env₁ es landmarks)
    (hfs : Tracked ns env₁ env' fs more) :
    Tracked ns env env' (Analysis.chain es fs) (landmarks ++ more) where
  defined := by
    obtain ⟨names, hnames, henv⟩ := hes.names hfs
    refine ⟨names, fun name => ?_, henv⟩
    rw [hnames, defined_chain, List.mem_append]
  lands := List.rel_append hes.lands (hes.behind hns hfs)

/-- What is analyzed first stands last in the source. -/
theorem Tracked.overtaken (hns : env.contains ns = true) (hfs : Tracked ns env env₁ fs more)
    (hes : Tracked ns env₁ env' es landmarks) :
    Tracked ns env env' (es.map (Event.behind (Analysis.defined fs)) ++
      fs.map (Event.overtaking (Analysis.defined es))) (landmarks ++ more) where
  defined := by
    obtain ⟨names, hnames, henv⟩ := hfs.names hes
    refine ⟨names, fun name => ?_, henv⟩
    rw [hnames, defined_append, defined_map_behind, defined_map_overtaking, List.mem_append,
      or_comm]
  lands := by
    refine List.rel_append (hfs.behind hns hes) ?_
    rw [List.forall₂_map_left_iff]
    exact hfs.lands.imp fun e landmark hlands => hlands.overtaking _

end Tracked

section Tracks

variable {α β : Type} {ns : String} {x : Analyzing α} {es fs : List Event}
  {P : List Landmark → α → Prop} {Q : List Landmark → β → Prop}

/-- Wherever `ns` is known, the computation defines the names of the events and resolves their
symbols to what goes with its result. -/
def Tracks (ns : String) (x : Analyzing α) (es : List Event) (P : List Landmark → α → Prop) :
    Prop :=
  ∀ env a env', env.contains ns = true → x env = .ok a env' →
    ∃ landmarks, Tracked ns env env' es landmarks ∧ P landmarks a

theorem tracks_pure {a : α} (ha : P [] a) : Tracks ns (pure a) [] P := by
  intro env a' env' _ hrun
  obtain ⟨rfl, rfl⟩ := pure_eq_ok.mp hrun
  exact ⟨[], tracked_nil ns env, ha⟩

theorem tracks_throw (e : CompileError) : Tracks ns (throw e) es P :=
  fun _ _ _ _ hrun => absurd hrun throw_ne_ok

theorem tracks_define (name : String) :
    Tracks ns (modify fun env => env.define ns name) [.define name]
      fun landmarks _ => landmarks = [.definition ns name] := by
  intro env a env' _ hrun
  obtain ⟨-, rfl⟩ := EStateM.Result.ok.inj hrun
  exact ⟨_, ⟨⟨[name], fun _ => Iff.rfl, rfl⟩, .cons (.define name) .nil⟩, rfl⟩

theorem Tracks.bind (hx : Tracks ns x es P) {k : α → Analyzing β}
    (hk : ∀ landmarks a, P landmarks a → Tracks ns (k a) fs fun more b => Q (landmarks ++ more) b) :
    Tracks ns (x >>= k) (chain es fs) Q := by
  intro env b env' hns hrun
  obtain ⟨a, env₁, hfirst, hrest⟩ := bind_eq_ok.mp hrun
  obtain ⟨landmarks, hlandmarks, ha⟩ := hx env a env₁ hns hfirst
  obtain ⟨more, hmore, hb⟩ := hk landmarks a ha env₁ b env' (hlandmarks.contains hns) hrest
  exact ⟨landmarks ++ more, hlandmarks.chain hns hmore, hb⟩

theorem chain_nil (es : List Event) : chain es [] = es := List.append_nil es

theorem Tracks.imp (hx : Tracks ns x es P) {P' : List Landmark → α → Prop}
    (hP : ∀ landmarks a, P landmarks a → P' landmarks a) : Tracks ns x es P' := by
  intro env a env' hns hrun
  obtain ⟨landmarks, hlandmarks, ha⟩ := hx env a env' hns hrun
  exact ⟨landmarks, hlandmarks, hP landmarks a ha⟩

/-- The result is given in another form at the end. -/
theorem Tracks.map (hx : Tracks ns x es P) {f : α → β}
    (hf : ∀ landmarks a, P landmarks a → Q landmarks (f a)) :
    Tracks ns (x >>= fun a => pure (f a)) es Q := by
  rw [← chain_nil es]
  refine hx.bind fun landmarks a ha => tracks_pure ?_
  rw [List.append_nil]
  exact hf landmarks a ha

theorem Answers.tracks {answer : Option α} (hx : Answers x answer) {k : α → Analyzing β}
    {next : α → List Event} (hk : ∀ a, answer = some a → Tracks ns (k a) (next a) Q) :
    Tracks ns (x >>= k) (answer.elim [] next) Q := by
  intro env b env' hns hrun
  cases answer with
  | none =>
    obtain ⟨e, he⟩ := (hx env).2 rfl
    rw [bind_of_error he] at hrun
    contradiction
  | some a =>
    rw [bind_of_ok ((hx env).1 a rfl)] at hrun
    exact hk a rfl env b env' hns hrun

end Tracks

/-! ## Forms -/

/-- The analyzed form has exactly these landmarks. -/
def Bears (landmarks : List Landmark) (a : Ast) : Prop := a.landmarks = landmarks

def BearsAll (landmarks : List Landmark) (asts : List Ast) : Prop :=
  asts.flatMap Ast.landmarks = landmarks

section Bears

variable {landmarks more : List Landmark} {asts bsts : List Ast} {a : Ast}

theorem bearsAll_nil : BearsAll [] [] := rfl

theorem BearsAll.cons (h : Bears landmarks a) (hasts : BearsAll more asts) :
    BearsAll (landmarks ++ more) (a :: asts) := by
  rw [BearsAll, List.flatMap_cons, h, hasts]

theorem BearsAll.append (h : BearsAll landmarks asts) (hbsts : BearsAll more bsts) :
    BearsAll (landmarks ++ more) (asts ++ bsts) := by
  rw [BearsAll, List.flatMap_append, h, hbsts]

/-- A form that is no landmark has those of its parts. -/
theorem BearsAll.node (h : BearsAll landmarks a.parts) (hnode : a.landmark? = none) :
    Bears landmarks a := by
  rw [Bears, Ast.landmarks_eq, hnode]
  exact h

theorem BearsAll.define {pos : Position} {ns name : String} {init : Option Ast}
    (h : BearsAll landmarks init.toList) :
    Bears (.definition ns name :: landmarks) (.define pos ns name init) := by
  rw [Bears, Ast.landmarks_eq]
  exact congrArg _ h

end Bears

theorem tracks_analyzeSymbol {ns : String} {scope : Scope} (hscope : scope.ns = ns)
    (pos : Position) (symbol : Symbol) :
    Tracks ns (analyzeSymbol scope pos symbol) [symbolEvent scope pos symbol] Bears := by
  intro env a env' _ hrun
  unfold analyzeSymbol at hrun
  cases hresolve : resolve env scope pos symbol with
  | error e =>
    rw [hresolve] at hrun
    contradiction
  | ok target =>
    rw [hresolve] at hrun
    obtain ⟨rfl, rfl⟩ := EStateM.Result.ok.inj hrun
    have hdefined : ∀ name, name ∈ [] ↔ name ∈ defined [symbolEvent scope pos symbol] :=
      fun _ => Iff.rfl
    exact ⟨_, ⟨⟨[], hdefined, rfl⟩, .cons (.occurs hscope hresolve) .nil⟩,
      landmarks_of_resolve hresolve⟩

/-- The analyzed forms in the clauses of a guarded block. -/
def Clauses.parts (clauses : Clauses) : List Ast :=
  (clauses.handler.map Prod.snd).getD [] ++ clauses.cleanup

section Parts

variable {ns : String} {sub : Analyzer} {events : Scope → Form → List Event}

/-- The parts of a form are analyzed with these events. -/
def Followed (ns : String) (sub : Analyzer) (events : Scope → Form → List Event) : Prop :=
  ∀ scope form, scope.ns = ns → Tracks ns (sub scope form) (events scope form) Bears

variable (h : Followed ns sub events) {scope : Scope} (hscope : scope.ns = ns)
include h hscope

theorem tracks_analyzeAll (forms : List Form) :
    Tracks ns (analyzeAll sub scope forms) (chainAll (events scope) forms) BearsAll := by
  induction forms with
  | nil => exact tracks_pure bearsAll_nil
  | cons form rest ih =>
    exact (h scope form hscope).bind fun landmarks ast hast => ih.map fun more asts hasts =>
      .cons hast hasts

theorem tracks_analyzeEntries (entries : List (Form × Form)) :
    Tracks ns (analyzeEntries sub scope entries)
      (chainAll (events scope) (entries.flatMap fun e => [e.1, e.2]))
      fun landmarks out => BearsAll landmarks (out.flatMap fun e => [e.1, e.2]) := by
  induction entries with
  | nil => exact tracks_pure bearsAll_nil
  | cons entry rest ih =>
    obtain ⟨key, value⟩ := entry
    exact (h scope key hscope).bind fun landmarks k hk => (h scope value hscope).bind
      fun landmarks' v hv => ih.map fun more out hout => .cons hk (.cons hv hout)

theorem tracks_analyzeOption (form : Option Form) :
    Tracks ns (analyzeOption sub scope form) (chainAll (events scope) form.toList)
      fun landmarks out => BearsAll landmarks out.toList := by
  cases form with
  | none => exact tracks_pure bearsAll_nil
  | some form =>
    exact (h scope form hscope).bind fun landmarks ast hast =>
      tracks_pure (.cons hast bearsAll_nil)

theorem tracks_analyzeDefine (pos : Position) (args : List Form) :
    Tracks ns (analyzeDefine sub scope pos args) (defineEvents events scope args) Bears := by
  unfold analyzeDefine defineEvents
  cases definitionParts args with
  | none => exact tracks_throw _
  | some parts =>
    obtain ⟨name, init⟩ := parts
    dsimp only [Option.elim]
    cases name.plainName? with
    | none => exact tracks_throw _
    | some name =>
      dsimp only
      rw [hscope]
      refine (tracks_define name).bind fun landmarks _ hlandmarks => ?_
      subst hlandmarks
      exact (tracks_analyzeOption h hscope init).map fun more out hout => hout.define

theorem tracks_analyzeCond (pos : Position) (args : List Form) :
    Tracks ns (analyzeCond sub scope pos args) (condEvents events scope args) Bears := by
  unfold analyzeCond condEvents
  cases condParts args with
  | none => exact tracks_throw _
  | some parts =>
    obtain ⟨test, thenBranch, elseBranch⟩ := parts
    intro env ast env' hns hrun
    obtain ⟨last, env₁, hlast, hrun⟩ := bind_eq_ok.mp hrun
    obtain ⟨more, hmore, hlast⟩ := tracks_analyzeOption h hscope elseBranch env last env₁ hns hlast
    have hfirst : Tracks ns (do
        let test ← sub scope test
        let thenBranch ← sub scope thenBranch
        return .cond pos test thenBranch last)
        (chain (events scope test) (events scope thenBranch))
        fun landmarks ast => Bears (landmarks ++ more) ast := by
      refine (h scope test hscope).bind fun landmarks t ht => ?_
      refine (h scope thenBranch hscope).map fun landmarks' b hb => ?_
      rw [List.append_assoc]
      exact (BearsAll.cons ht (.cons hb hlast)).node rfl
    obtain ⟨landmarks, hlandmarks, hast⟩ := hfirst env₁ ast env' (hmore.contains hns) hrun
    exact ⟨landmarks ++ more, hmore.overtaken hns hlandmarks, hast⟩

theorem tracks_analyzeBindings (pairs : List (Form × Form)) :
    Tracks ns (analyzeBindings sub scope pairs) (bindingEvents events scope pairs)
      fun landmarks r => BearsAll landmarks (r.1.map Prod.snd) ∧
        r.2 = scope.bindAll (boundNames pairs) := by
  induction pairs generalizing scope with
  | nil => exact tracks_pure ⟨bearsAll_nil, rfl⟩
  | cons pair rest ih =>
    obtain ⟨name, init⟩ := pair
    refine (answers_bindingName "let" name).tracks fun bound hbound => ?_
    have hnames : boundNames ((name, init) :: rest) = bound :: boundNames rest :=
      List.filterMap_cons_some hbound
    rw [hnames]
    have hrest := @ih (scope.bind bound) hscope
    exact (h scope init hscope).bind fun landmarks ast hast =>
      hrest.map fun more r hr => ⟨.cons hast hr.1, hr.2⟩

theorem tracks_analyzeBind (pos : Position) (args : List Form) :
    Tracks ns (analyzeBind sub scope pos args) (bindEvents events scope args) Bears := by
  cases args with
  | nil => exact tracks_throw _
  | cons first body =>
    cases first with
    | atom | list | set | map => exact tracks_throw _
    | vector vectorPos items =>
      unfold analyzeBind bindEvents
      dsimp only
      cases Form.pairUp items with
      | none => exact tracks_throw _
      | some pairs =>
        have hinner := (ns_bindAll scope (boundNames pairs)).trans hscope
        refine (tracks_analyzeBindings h hscope pairs).bind fun landmarks r hr => ?_
        obtain ⟨bindings, inner⟩ := r
        obtain ⟨hbindings, rfl⟩ : BearsAll landmarks (bindings.map Prod.snd) ∧
          inner = scope.bindAll (boundNames pairs) := hr
        exact (tracks_analyzeAll h hinner body).map fun more asts hasts =>
          (hbindings.append hasts).node rfl

theorem tracks_analyzeFunc (pos : Position) (args : List Form) :
    Tracks ns (analyzeFunc sub scope pos args) (funcEvents events scope args) Bears := by
  refine (answers_functionName args).tracks fun r _ => ?_
  obtain ⟨name, args⟩ := r
  cases args with
  | nil => exact tracks_throw _
  | cons first body =>
    cases first with
    | atom | list | set | map => exact tracks_throw _
    | vector vectorPos params =>
      refine (answers_parameters params).tracks fun r _ => ?_
      obtain ⟨names, rest⟩ := r
      have hinner := (ns_bindAll scope (name.toList ++ names ++ rest.toList)).trans hscope
      exact (tracks_analyzeAll h hinner body).map fun landmarks asts hasts => hasts.node rfl

theorem tracks_analyzeAssign (pos : Position) (args : List Form) :
    Tracks ns (analyzeAssign sub scope pos args) (chainAll (events scope) args) Bears := by
  unfold analyzeAssign
  match args with
  | [] | [_] | _ :: _ :: _ :: _ => exact tracks_throw _
  | [target, value] =>
    refine (h scope target hscope).bind fun landmarks ast hast => ?_
    split
    · exact (h scope value hscope).bind fun more v hv =>
        tracks_pure ((BearsAll.cons hast (.cons hv bearsAll_nil)).node rfl)
    · exact tracks_throw _

theorem tracks_analyzeClauses (done : Clauses) (forms : List Form) :
    Tracks ns (analyzeClauses sub scope done forms) (clauseEvents events scope forms)
      fun landmarks out => BearsAll (done.parts.flatMap Ast.landmarks ++ landmarks) out.parts := by
  induction forms generalizing done with
  | nil => exact tracks_pure (List.append_nil _).symm
  | cons form rest ih =>
    obtain ⟨handler, cleanup⟩ := done
    unfold analyzeClauses clauseEvents
    dsimp only
    split
    · next hcatch =>
      simp only [Bool.and_eq_true, Option.isNone_iff_eq_none, List.isEmpty_iff] at hcatch
      obtain ⟨⟨hcatch, rfl⟩, rfl⟩ := hcatch
      rw [if_pos hcatch]
      generalize (form.list?.getD []).drop 1 = parts
      rcases parts with _ | ⟨_, _ | ⟨binding, body⟩⟩
      · exact tracks_throw _
      · exact tracks_throw _
      · refine (answers_bindingName "try" binding).tracks fun name _ => ?_
        have hinner : (scope.bind name).ns = ns := hscope
        refine (tracks_analyzeAll h hinner body).bind fun landmarks asts hasts => ?_
        refine (ih _).imp fun more out hout => ?_
        rw [Clauses.parts, List.append_nil] at hout
        change BearsAll (asts.flatMap Ast.landmarks ++ more) _ at hout
        rwa [hasts] at hout
    · split
      · next hfinally =>
        simp only [Bool.and_eq_true, List.isEmpty_iff] at hfinally
        obtain ⟨hfinally, rfl⟩ := hfinally
        have hcatch : ¬form.isHeadedBy "catch" = true := fun hcatch =>
          absurd (Form.name_eq_of_isHeadedBy hcatch hfinally) (by decide)
        rw [if_neg hcatch]
        refine (tracks_analyzeAll h hscope _).bind fun landmarks asts hasts => ?_
        refine (ih _).imp fun more out hout => ?_
        rw [Clauses.parts, List.flatMap_append, hasts, List.append_assoc] at hout
        rwa [Clauses.parts, List.append_nil]
      · exact tracks_throw _

theorem tracks_analyzeGuard (pos : Position) (args : List Form) :
    Tracks ns (analyzeGuard sub scope pos args) (guardEvents events scope args) Bears := by
  unfold analyzeGuard guardEvents
  refine (tracks_analyzeAll h hscope _).bind fun landmarks asts hasts => ?_
  refine (tracks_analyzeClauses h hscope ⟨none, []⟩ _).map fun more out hout => ?_
  refine BearsAll.node ?_ rfl
  change BearsAll _ (asts ++ (out.handler.map Prod.snd).getD [] ++ out.cleanup)
  rw [List.append_assoc]
  exact hasts.append hout

theorem tracks_analyzeNew (pos : Position) (args : List Form) :
    Tracks ns (analyzeNew sub scope pos args) (chainAll (events scope) args) Bears := by
  cases args with
  | nil => exact tracks_throw _
  | cons ctor args =>
    exact (h scope ctor hscope).bind fun landmarks c hc =>
      (tracks_analyzeAll h hscope args).map fun more asts hasts => (BearsAll.cons hc hasts).node rfl

theorem tracks_analyzeMember (pos : Position) (member : String) (args : List Form) :
    Tracks ns (analyzeMember sub scope pos member args) (chainAll (events scope) args) Bears := by
  cases args with
  | nil => exact tracks_throw _
  | cons target args =>
    refine (h scope target hscope).bind fun landmarks t ht => ?_
    split
    · split
      · exact tracks_throw _
      · split
        · exact tracks_throw _
        · next hargs =>
          obtain rfl : args = [] := by simpa using hargs
          exact tracks_pure ((BearsAll.cons ht bearsAll_nil).node rfl)
    · exact (tracks_analyzeAll h hscope args).map fun more asts hasts =>
        (BearsAll.cons ht hasts).node rfl

theorem tracks_analyzeDot (pos : Position) (args : List Form) :
    Tracks ns (analyzeDot sub scope pos args) (dotEvents events scope args) Bears := by
  have haccess : ∀ target member args, Tracks ns
      (bindingName "." member >>= fun name => analyzeMember sub scope pos name (target :: args))
      (member.plainName?.elim [] fun _ => chainAll (events scope) (target :: args)) Bears := by
    intro target member args
    exact (answers_bindingName "." member).tracks fun name _ =>
      tracks_analyzeMember h hscope pos name (target :: args)
  unfold analyzeDot dotEvents
  dsimp only
  split
  · next target p member args => exact haccess target member args
  · next target member args hnested =>
    rw [dotParts?]
    · exact haccess target member args
    · exact hnested
  · next hfew hnone => exact tracks_throw _

theorem tracks_analyzeSpecial (pos : Position) (special : Special) (args : List Form) :
    Tracks ns (analyzeSpecial sub scope pos special args) (specialEvents events scope special args)
      Bears := by
  cases special with
  | ns => exact tracks_throw _
  | define => exact tracks_analyzeDefine h hscope pos args
  | block => exact (tracks_analyzeAll h hscope args).map fun landmarks asts hasts => hasts.node rfl
  | cond => exact tracks_analyzeCond h hscope pos args
  | bind => exact tracks_analyzeBind h hscope pos args
  | func => exact tracks_analyzeFunc h hscope pos args
  | quote =>
    match args with
    | [] | _ :: _ :: _ => exact tracks_throw _
    | [quoted] => exact tracks_pure (BearsAll.node bearsAll_nil rfl)
  | assign => exact tracks_analyzeAssign h hscope pos args
  | throw =>
    match args with
    | [] | _ :: _ :: _ => exact tracks_throw _
    | [value] =>
      exact (h scope value hscope).bind fun landmarks v hv =>
        tracks_pure ((BearsAll.cons hv bearsAll_nil).node rfl)
  | guard => exact tracks_analyzeGuard h hscope pos args
  | new => exact tracks_analyzeNew h hscope pos args
  | dot => exact tracks_analyzeDot h hscope pos args

theorem tracks_analyzeCall (pos : Position) (head : Form) (args : List Form) :
    Tracks ns (analyzeCall sub scope pos head args) (chainAll (events scope) (head :: args))
      Bears := by
  refine (h scope head hscope).bind fun landmarks callee hcallee => ?_
  split
  · exact tracks_throw _
  · exact (tracks_analyzeAll h hscope args).map fun more asts hasts =>
      (BearsAll.cons hcallee hasts).node rfl

theorem tracks_analyzeList (pos : Position) (head : Form) (args : List Form) :
    Tracks ns (analyzeList sub scope pos head args) (listEvents events scope head args) Bears := by
  unfold analyzeList listEvents
  cases specialHead? scope head with
  | some special => exact tracks_analyzeSpecial h hscope pos special args
  | none =>
    dsimp only
    cases memberHead? scope head with
    | some member => exact tracks_analyzeMember h hscope pos member args
    | none =>
      dsimp only
      cases constructorHead? head with
      | none => exact tracks_analyzeCall h hscope pos head args
      | some ctor =>
        exact (tracks_analyzeSymbol hscope head.pos ctor).bind fun landmarks c hc =>
          (tracks_analyzeAll h hscope args).map fun more asts hasts =>
            (BearsAll.cons hc hasts).node rfl

theorem tracks_analyzeWith (form : Form) :
    Tracks ns (analyzeWith sub scope form) (formEvents events scope form) Bears := by
  cases form with
  | atom pos value =>
    cases value with
    | symbol symbol => exact tracks_analyzeSymbol hscope pos symbol
    | _ => exact tracks_pure (BearsAll.node bearsAll_nil rfl)
  | vector pos items | set pos items =>
    exact (tracks_analyzeAll h hscope items).map fun landmarks asts hasts => hasts.node rfl
  | map pos entries =>
    exact (tracks_analyzeEntries h hscope entries).map fun landmarks out hout => hout.node rfl
  | list pos items =>
    cases items with
    | nil => exact tracks_pure (BearsAll.node bearsAll_nil rfl)
    | cons head args => exact tracks_analyzeList h hscope pos head args

end Parts

theorem followed_analyzeTo (ns : String) (depth : Nat) :
    Followed ns (analyzeTo depth) (eventsTo depth) := by
  induction depth with
  | zero => exact fun scope form _ => tracks_throw _
  | succ depth ih => exact fun scope form hscope => tracks_analyzeWith ih hscope form

/-! ## Visible definitions -/

section Visible

variable {env env' : Env} {ns : String} {form : Form} {ast : Ast}

/-- Definitions and references of an analyzed form are those of the form, one by one. -/
theorem lands_landmarks (h : analyze ns form env = .ok ast env') :
    List.Forall₂ (Lands (env.register ns) ns) (eventsOf ns form) ast.landmarks := by
  unfold eventsOf
  rcases analyze_top_cases ns form env with ⟨pos, head, items, -, hheaded, hrun⟩ | ⟨hheaded, hrun⟩
  · rw [hrun, analyzeDeclaration] at h
    rw [if_pos hheaded]
    split at h
    · next d _ =>
      obtain ⟨rfl, -⟩ := EStateM.Result.ok.inj h
      rw [Ast.landmarks_eq]
      exact .nil
    · contradiction
  · rw [hrun] at h
    rw [if_neg (by simp [hheaded])]
    obtain ⟨landmarks, htracked, hast⟩ := followed_analyzeTo ns form.depth ⟨ns, [], munge⟩ form rfl
      (env.register ns) ast env' (env.contains_register_self ns) h
    rw [hast]
    exact htracked.lands

theorem exists_event {landmark : Landmark} (h : analyze ns form env = .ok ast env')
    (hmem : landmark ∈ ast.landmarks) :
    ∃ e ∈ eventsOf ns form, Lands (env.register ns) ns e landmark := by
  obtain ⟨i, hi, rfl⟩ := List.mem_iff_getElem.mp hmem
  have hall := lands_landmarks h
  have hevent : i < (eventsOf ns form).length := hall.length_eq.symm ▸ hi
  exact ⟨_, List.getElem_mem hevent, hall.get hevent hi⟩

/-- What an event comes to has its place among the landmarks. -/
theorem exists_landmark {front back : List Event} {e : Event}
    (h : analyze ns form env = .ok ast env') (hevents : eventsOf ns form = front ++ e :: back) :
    ∃ landmark, ast.landmarks[front.length]? = some landmark ∧
      Lands (env.register ns) ns e landmark := by
  have hall := lands_landmarks h
  rw [hevents] at hall
  have hleft : front.length < (front ++ e :: back).length := by simp
  have hright : front.length < ast.landmarks.length := hall.length_eq ▸ hleft
  refine ⟨_, List.getElem?_eq_getElem hright, ?_⟩
  have hlands := hall.get hleft hright
  simpa using hlands

/-- A definition is visible to the free symbols after it in the source, unless it is overtaken and
nothing else makes the name known. -/
theorem definition_visible_iff {front back : List Event} {o : Occurrence} {x : String}
    (h : analyze ns form env = .ok ast env')
    (hevents : eventsOf ns form = front ++ .occurs o :: back) (hsymbol : o.symbol = .plain x)
    (hdotless : '.' ∉ x.toList) (hfree : x ∉ o.scope.locals)
    (hrefer : (env.info ns).refers.get? x = none) (hdefined : .define x ∈ front) :
    ast.landmarks[front.length]? = some (.reference (.var o.pos ns x)) ↔
      (x ∈ o.overtaken → x ∈ o.known ∨ x ∈ env.defs ns ∨ ns = coreNs) := by
  obtain ⟨landmark, hlandmark, hlands⟩ := exists_landmark h hevents
  have hknown : x ∈ o.known ∨ x ∈ o.overtaken :=
    ((ordered_eventsOf ns form).of_split hevents).1 x (mem_defined.mpr hdefined)
  cases hlands with
  | @occurs _ target hscope hresolve =>
    have hrefer' : (((env.register ns).defineAll ns o.known).info o.scope.ns).refers.get? x =
        none := by
      rw [hscope, Env.info_defineAll, Env.info_register]
      exact hrefer
    have hdefs : x ∈ ((env.register ns).defineAll ns o.known).defs ns ↔
        x ∈ env.defs ns ∨ x ∈ o.known := by
      have hregister : (env.register ns).defs ns = env.defs ns :=
        congrArg NamespaceInfo.defs (env.info_register ns ns)
      rw [Env.mem_defs_defineAll, hregister]
    rw [hsymbol, resolve_plain hdotless hfree hrefer', hscope] at hresolve
    rw [hlandmark, ← Except.ok.inj hresolve, Option.some.injEq, Landmark.reference.injEq,
      Ast.var.injEq]
    split
    · next hmem =>
      refine iff_of_true ⟨rfl, rfl, rfl⟩ fun _ => ?_
      exact (hdefs.mp hmem).elim (fun hdef => .inr (.inl hdef)) .inl
    · next hmem =>
      -- then only the core namespace itself is the namespace at hand
      rw [hdefs, not_or] at hmem
      have hovertaken := hknown.resolve_left hmem.2
      constructor
      · rintro ⟨-, hcore, -⟩ _
        exact .inr (.inr hcore.symm)
      · intro hseen
        have hcore := ((hseen hovertaken).resolve_left hmem.2).resolve_left hmem.1
        exact ⟨rfl, hcore.symm, rfl⟩

/-- In `(do (def x 1) (if (def x 2) 3 x))` an earlier definition makes the name known to the last
branch. -/
theorem overtaken_definition_visible :
    let form : Form := .list .start [.symbol "do" .start,
      .list .start [.symbol "def" .start, .symbol "x" .start, .atom .start (.int 1)],
      .list .start [.symbol "if" .start,
        .list .start [.symbol "def" .start, .symbol "x" .start, .atom .start (.int 2)],
        .atom .start (.int 3), .symbol "x" .start]]
    ∃ ast env', analyze userNs form .initial = .ok ast env' ∧
      ast.landmarks[2]? = some (.reference (.var .start userNs "x")) := by
  intro form
  have hevents : eventsOf userNs form = [.define "x", .define "x"] ++
    .occurs ⟨⟨userNs, [], munge⟩, .start, .plain "x", ["x"], ["x"]⟩ :: [] := rfl
  obtain ⟨ast, env', hrun⟩ : ∃ ast env', analyze userNs form .initial = .ok ast env' :=
    ⟨_, _, rfl⟩
  refine ⟨ast, env', hrun, ?_⟩
  exact (definition_visible_iff hrun hevents rfl (by decide) (by decide) rfl (by simp)).mpr
    fun _ => .inl (by decide)

/-- `(if (def x 1) 2 x)`: the last branch is analyzed before the definition in the test. -/
def overtakenDefinition : Form :=
  .list .start [.symbol "if" .start,
    .list .start [.symbol "def" .start, .symbol "x" .start, .atom .start (.int 1)],
    .atom .start (.int 2), .symbol "x" .start]

/-- The symbol stands for a name of the core namespace, although its definition comes first. -/
theorem overtaken_definition_invisible :
    ¬∀ (env env' : Env) (ns : String) (form : Form) (ast : Ast) (front back : List Event)
        (o : Occurrence) (x : String), analyze ns form env = .ok ast env' →
      eventsOf ns form = front ++ .occurs o :: back → o.symbol = .plain x → '.' ∉ x.toList →
      x ∉ o.scope.locals → (env.info ns).refers.get? x = none → .define x ∈ front →
      ast.landmarks[front.length]? = some (.reference (.var o.pos ns x)) := by
  intro h
  have hevents : eventsOf userNs overtakenDefinition =
    [.define "x"] ++ .occurs ⟨⟨userNs, [], munge⟩, .start, .plain "x", [], ["x"]⟩ :: [] := rfl
  obtain ⟨ast, env', hrun⟩ : ∃ ast env', analyze userNs overtakenDefinition .initial =
    .ok ast env' := ⟨_, _, rfl⟩
  have hown := h .initial env' userNs _ ast _ _ _ "x" hrun hevents rfl (by decide) (by decide) rfl
    (by simp)
  obtain ⟨landmark, hlandmark, hlands⟩ := exists_landmark hrun hevents
  cases hlands with
  | @occurs _ target hscope hresolve =>
    obtain rfl : Ast.var .start coreNs "x" = target := Except.ok.inj hresolve
    rw [hlandmark, Option.some.injEq, Landmark.reference.injEq, Ast.var.injEq] at hown
    exact absurd hown.2.1 (by decide)

end Visible

end LiveLisp.Analysis
