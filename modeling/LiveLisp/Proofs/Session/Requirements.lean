import LiveLisp.Proofs.Script.Requires
import LiveLisp.Proofs.Session.Loading
import LiveLisp.Proofs.Session.Sustained
/-!
# Requirements are delivered first

Whenever a run sends the script of a declaration, all that the declaration depends on has been
delivered, under the names by which the library knows it.  The script asks for munged names.  So
what it requires has been delivered exactly if munging changes no name, or leads to a name that was
delivered too.
-/

namespace LiveLisp.Session

open Analysis (NsDecl coreNs)
open Fallible
open Library (CompiledUnit Record)
open Munge (mungePath)
open Script (Requires required)

variable {β : Type}

/-! ## Names of delivered units -/

/-- A unit that provides the namespace was delivered. -/
def Available (lib : Library) (log : List Exchange) (ns : String) : Prop :=
  ∃ u ∈ lib.units, ns ∈ u.provides ∧ Delivered log u

theorem Available.mono {lib : Library} {log log' : List Exchange} {ns : String}
    (h : Available lib log ns) (hlog : log <+: log') : Available lib log' ns := by
  obtain ⟨u, hu, hns, hdelivered⟩ := h
  exact ⟨u, hu, hns, hdelivered.mono hlog.subset⟩

/-- From `s` to `s'` no name was recorded as loaded but those of delivered units. -/
structure Supplies (lib : Library) (s s' : Session β) : Prop where
  exchanges : s.exchanges <+: s'.exchanges
  loaded : ∀ ns ∈ s'.loaded, ns ∈ s.loaded ∨ Available lib s'.exchanges ns

theorem ambient_supplies (lib : Library) : Ambient (Supplies (β := β) lib) where
  refl s := ⟨List.prefix_refl _, fun _ hns => .inl hns⟩
  trans h h' := by
    refine ⟨h.exchanges.trans h'.exchanges, fun ns hns => ?_⟩
    rcases h'.loaded ns hns with hns | havailable
    · exact (h.loaded ns hns).imp_right fun havailable => havailable.mono h'.exchanges
    · exact .inr havailable
  world s w := ⟨List.prefix_refl _, fun _ hns => .inl hns⟩
  exchange s w e := ⟨List.prefix_append _ _, fun _ hns => .inl hns⟩
  env s env := ⟨List.prefix_refl _, fun _ hns => .inl hns⟩
  tracer s tracer := ⟨List.prefix_refl _, fun _ hns => .inl hns⟩
  output s := ⟨List.prefix_refl _, fun _ hns => .inl hns⟩
  input s input := ⟨List.prefix_refl _, fun _ hns => .inl hns⟩

variable {c : Setting β}

/-- The names of a unit are recorded once it has been handed over. -/
theorem supplies_deliverUnit {u : CompiledUnit} (hu : u ∈ c.library.units) {s s' : Session β}
    (h : deliverUnit c (.ofUnit u) s = .ok () s') :
    Supplies c.library s { s' with loaded := s'.loaded ++ u.provides } := by
  rcases deliverUnit_cases c u s with ⟨err, s₁, hrun, -⟩ | ⟨err, e, s₁, hrun, -⟩ |
    ⟨e, s₁, hrun, hloaded, hlog, hover, hok⟩
  · rw [h] at hrun
    contradiction
  · rw [h] at hrun
    contradiction
  · rw [h] at hrun
    obtain rfl : s' = s₁ := (EStateM.Result.ok.inj hrun).2
    have hdelivered : Delivered s'.exchanges u := by
      rw [hlog]
      exact delivered_concat.mpr (.inr ⟨hover, hok⟩)
    refine ⟨hlog ▸ List.prefix_append _ _, fun ns hns => ?_⟩
    rcases List.mem_append.mp hns with hns | hns
    · exact .inl (hloaded ▸ hns)
    · exact .inr ⟨u, hu, hns, hdelivered⟩

theorem supplies_deliverAll {records : List Record}
    (h : ∀ r ∈ records, r.kind = .seed ∨ ∃ u ∈ c.library.units, r = .ofUnit u) :
    Keeps (Supplies c.library) (deliverAll c records) := by
  have hR := ambient_supplies (β := β) c.library
  induction records with
  | nil => exact hR.pure _
  | cons r rest ih =>
    obtain ⟨hr, hrest⟩ := List.forall_mem_cons.mp h
    intro s
    cases hsettled : isSettled s.loaded r with
    | true =>
      unfold after
      rw [deliverAll_of_settled hsettled]
      exact ih hrest s
    | false =>
      obtain ⟨u, hu, rfl⟩ := hr.resolve_left fun hseed => by simp [isSettled, hseed] at hsettled
      have hunit := hR.composes.deliverUnit c (.ofUnit u) s
      cases hrun : deliverUnit c (.ofUnit u) s with
      | error err s' =>
        rw [after_of_error hrun] at hunit
        rwa [after_of_error (deliverAll_of_error hsettled hrun)]
      | ok _ s' =>
        unfold after
        rw [deliverAll_of_ok hsettled hrun]
        refine hR.trans (supplies_deliverUnit hu hrun) ?_
        exact hR.bind (ih hrest) (fun n => hR.pure _) _

theorem sustained_supplies (hidx : c.library.Indexed) : Sustained c (Supplies c.library) where
  toQuiet := (ambient_supplies c.library).toQuiet
  learn s env _ := (ambient_supplies c.library).env s env
  state s state := ⟨List.prefix_refl _, fun _ hns => .inl hns⟩
  load ns := by
    unfold loadNamespace
    split
    · exact (ambient_supplies c.library).throw _
    · next records hclosure =>
      obtain ⟨provider, units, rfl, hof⟩ := Library.closureOf_of_closure hidx hclosure
      refine supplies_deliverAll fun r hr => ?_
      rcases List.mem_append.mp hr with hr | hr
      · obtain ⟨u, hu, rfl⟩ := List.mem_map.mp hr
        exact .inr ⟨u, hof.inside u hu, rfl⟩
      · rw [List.mem_singleton.mp hr]
        exact .inl rfl

/-! ## Namespaces that were loaded -/

theorem mem_loaded_of_loadNamespace (hidx : c.library.Indexed) {ns : String} {n : Nat}
    {s s' : Session β} (h : loadNamespace c ns s = .ok n s') (hne : ns ≠ coreNs) :
    ns ∈ s'.loaded := by
  unfold loadNamespace at h
  cases hclosure : c.library.closure ns with
  | error e =>
    rw [hclosure] at h
    exact absurd h throw_ne_ok
  | ok records =>
    rw [hclosure] at h
    obtain ⟨provider, units, rfl, hof⟩ := Library.closureOf_of_closure hidx hclosure
    have hprovider : .ofUnit provider ∈ units.map Record.ofUnit ++ [.seedOf ns provider] :=
      List.mem_append_left _ (List.mem_map_of_mem (List.mem_of_getLast? hof.last))
    have hsettled := isSettled_of_deliverAll h _ hprovider
    -- the provider of `ns` is a unit, and not the one of the core namespace
    have honly : (Record.ofUnit provider).providesOnly coreNs = false := by
      rw [Record.providesOnly, beq_eq_false_iff_ne]
      intro honly
      have hns : ns ∈ (Record.ofUnit provider).provides := hof.provides
      rw [honly] at hns
      exact hne (List.mem_singleton.mp hns)
    have hall : provider.provides.all s'.loaded.contains = true := by
      rw [isSettled, honly] at hsettled
      exact hsettled
    exact List.contains_iff_mem.mp (List.all_eq_true.mp hall ns hof.provides)

theorem mem_loaded_of_loadEach (hidx : c.library.Indexed) {names : List String} {n : Nat}
    {s s' : Session β} (h : loadEach c names s = .ok n s') {ns : String} (hns : ns ∈ names)
    (hne : ns ≠ coreNs) : ns ∈ s'.loaded := by
  induction names generalizing s n with
  | nil => exact absurd hns List.not_mem_nil
  | cons name rest ih =>
    obtain ⟨m, s₁, hfirst, h⟩ := bind_eq_ok.mp h
    obtain ⟨k, s₂, hrest, h⟩ := bind_eq_ok.mp h
    obtain ⟨-, rfl⟩ := pure_eq_ok.mp h
    rcases List.mem_cons.mp hns with rfl | hns
    · have hkept := background_loaded.loadEach c rest s₁
      rw [after_of_ok hrest] at hkept
      exact hkept (mem_loaded_of_loadNamespace hidx hfirst hne)
    · exact ih hrest hns

/-! ## Declarations that are sent -/

/-- The evaluation of a form in `s` gets to the point where it sends `code`, the script of the
declaration `decl`, in `s'`. -/
inductive Announces (c : Setting β) (wrap : Wrap) (form : Form) (s : Session β) :
    NsDecl → String → Session β → Prop
  | intro {pos : Text.Position} {decl : NsDecl} {env : Analysis.Env} {code : String}
    {s₁ s' : Session β}
    (hanalyze : Analysis.analyze s.state.ns (wrap.apply form) s.env = .ok (.ns pos decl) env)
    (hcode : code = scriptOf c.options (c.clock s.exchanges.length) form (.ns pos decl))
    (hshow : showScript c code { s with env := env } = .ok () s₁)
    (hload : loadDeclared c (.ns pos decl) s₁ = .ok () s') :
    Announces c wrap form s decl code s'

/-- From there on the evaluation is a call of the backend, and what comes of it. -/
theorem Announces.evaluateForm_eq {wrap : Wrap} {form : Form} {s s' : Session β} {decl : NsDecl}
    {code : String} (h : Announces c wrap form s decl code s') (file : String) :
    evaluateForm c file wrap form s =
      (do
        let result ← send c file form.pos.line code
        if result.isSuccess then enter decl.name
        return ⟨code, result⟩ : Run β Evaluation) s' := by
  cases h with
  | intro hanalyze hcode hshow hload =>
    subst hcode
    rw [evaluateForm_of_ok hanalyze]
    exact (bind_of_ok hshow).trans (bind_of_ok hload)

/-- A run that began at `s₀` sends `code`, the script of the declaration `decl`, in `s'`. -/
def Declares (c : Setting β) (lines : List Reading.Line) (s₀ : Session β) (decl : NsDecl)
    (code : String) (s' : Session β) : Prop :=
  ∃ file wrap form s, Evaluates c lines s₀ file wrap form s ∧ Announces c wrap form s decl code s'

/-- What a declaration depends on was delivered when its script is sent. -/
theorem available_of_declares (hidx : c.library.Indexed) {lines : List Reading.Line}
    {s₀ s' : Session β} (hnone : s₀.loaded = []) {decl : NsDecl} {code : String}
    (h : Declares c lines s₀ decl code s') {dep : String} (hdep : dep ∈ decl.runtimeDeps)
    (hne : dep ≠ coreNs) : Available c.library s'.exchanges dep := by
  obtain ⟨file, wrap, form, s, hevaluates, hannounces⟩ := h
  have hR := sustained_supplies hidx
  have hbefore := hR.evaluates hevaluates
  cases hannounces with
  | @intro pos _ env _ s₁ _ hanalyze hcode hshow hload =>
    have hshown := hR.showScript c code { s with env := env }
    have hafter := hR.composes.loadDeclared hR.load (.ns pos decl) s₁
    rw [after_of_ok hshow] at hshown
    rw [after_of_ok hload] at hafter
    have hlearnt := hR.trans ((ambient_supplies c.library).env s env) hshown
    have hrun := hR.trans hbefore (hR.trans hlearnt hafter)
    have hloaded : dep ∈ s'.loaded := by
      obtain ⟨n, s₂, hrest, hpure⟩ := bind_eq_ok.mp hload
      obtain ⟨-, rfl⟩ := pure_eq_ok.mp hpure
      exact mem_loaded_of_loadEach hidx hrest (mem_insertAllNew.mpr (.inr hdep)) hne
    rcases hrun.loaded dep hloaded with hstart | havailable
    · simp [hnone] at hstart
    · exact havailable

theorem requires_iff_of_declares (hidx : c.library.Indexed) {lines : List Reading.Line}
    {s₀ s' : Session β} (hnone : s₀.loaded = []) {decl : NsDecl} {code : String}
    (h : Declares c lines s₀ decl code s') {ns : String} :
    Requires code ns ↔ ns ∈ required decl := by
  have hdeps : ∀ dep ∈ decl.runtimeDeps, dep ≠ coreNs →
      dep.toList.all Library.isNameChar = true := by
    intro dep hdep hne
    obtain ⟨u, hu, hprovides, -⟩ := available_of_declares hidx hnone h hdep hne
    exact hidx.spelling u hu dep hprovides
  obtain ⟨file, wrap, form, s, -, ⟨hanalyze, hcode, -, hload⟩⟩ := h
  rw [hcode]
  exact requires_scriptOf_iff hdeps

theorem mungePath_ne_coreNs {dep : String} (h : dep ≠ coreNs) : mungePath dep ≠ coreNs := by
  intro heq
  have hself : mungePath dep = dep := by
    have hclean : coreNs.toList.all (fun c => c ≠ '_' && c ≠ '$') = true := by decide
    apply Munge.mungePath_eq_self
    rw [heq]
    simpa using hclean
  exact h (hself.symm.trans heq)

/-- Whenever a run sends the script of a declaration, what the declaration depends on was
delivered, and what the script requires was delivered exactly if munging leaves the names of these
dependencies as they are or leads to delivered names. -/
theorem required_delivered_iff {t : Files.Tree} {root : Files.Pathname} {c : Setting β}
    (hscan : Library.scan t root = .ok c.library) (files : Files.Tree) (backend : β)
    (lines : List Reading.Line) {decl : NsDecl} {code : String} {s : Session β}
    (h : Declares c lines (fresh c files backend) decl code s) :
    (∀ dep ∈ decl.runtimeDeps, dep ≠ coreNs → Available c.library s.exchanges dep) ∧
      ((∀ ns, Requires code ns → ns ≠ coreNs → Available c.library s.exchanges ns) ↔
        ∀ dep ∈ decl.runtimeDeps, dep ≠ coreNs →
          mungePath dep = dep ∨ Available c.library s.exchanges (mungePath dep)) := by
  have hidx := Library.indexed_of_scan hscan
  have hdelivered : ∀ dep ∈ decl.runtimeDeps, dep ≠ coreNs →
      Available c.library s.exchanges dep :=
    fun dep hdep hne => available_of_declares hidx rfl h hdep hne
  refine ⟨hdelivered, fun hall dep hdep hne => ?_, fun hdeps ns hrequires hne => ?_⟩
  · -- the munged name is itself required, so it was delivered
    refine .inr (hall (mungePath dep) ?_ (mungePath_ne_coreNs hne))
    refine (requires_iff_of_declares hidx rfl h).mpr (List.mem_append_right _ ?_)
    exact List.mem_map_of_mem (List.mem_filter.mpr ⟨hdep, by simpa using hne⟩)
  · have hrequired := (requires_iff_of_declares hidx rfl h).mp hrequires
    rcases List.mem_append.mp hrequired with hcore | hmunged
    · split at hcore
      · exact absurd (List.mem_singleton.mp hcore) hne
      · exact absurd hcore List.not_mem_nil
    · obtain ⟨dep, hkept, rfl⟩ := List.mem_map.mp hmunged
      obtain ⟨hdep, hcore⟩ := List.mem_filter.mp hkept
      have hdepne : dep ≠ coreNs := by simpa using hcore
      rcases hdeps dep hdep hdepne with hself | havailable
      · rw [hself]
        exact hdelivered dep hdep hdepne
      · exact havailable

/-! ## A declaration typed first -/

/-- The declaration that the first form of the input makes, its script, and the session in which
the script is sent. -/
def firstDeclaration? (c : Setting β) (lines : List Reading.Line) (s₀ : Session β) :
    Option (NsDecl × String × Session β) :=
  match opening c s₀ with
  | .error _ _ => none
  | .ok _ s₁ =>
    match flush { s₁ with input := .ofLines lines } with
    | .error _ _ => none
    | .ok _ s =>
      match Reading.read s.state.prompt s.input with
      | .ok (.form form) input =>
        if isQuit form || (handler? (β := β) builtins form).isSome then none
        else
          match Analysis.analyze s.state.ns ((Wrap.ofForm form).apply form) s.env with
          | .ok (.ns pos decl) env =>
            let code := scriptOf c.options (c.clock s.exchanges.length) form (.ns pos decl)
            match (showScript c code >>= fun _ => loadDeclared c (.ns pos decl))
                { s with input := input, env := env } with
            | .ok _ s' => some (decl, code, s')
            | .error _ _ => none
          | _ => none
      | _ => none

theorem declares_of_firstDeclaration? {lines : List Reading.Line} {s₀ s' : Session β}
    {decl : NsDecl} {code : String}
    (h : firstDeclaration? c lines s₀ = some (decl, code, s')) :
    Declares c lines s₀ decl code s' := by
  unfold firstDeclaration? at h
  split at h
  · contradiction
  · next u s₁ hopening =>
    split at h
    · contradiction
    · next u s hflush =>
      split at h
      · next form input hread =>
        split at h
        · contradiction
        · next hplain =>
          obtain ⟨hquit, hhandler⟩ := Bool.or_eq_false_iff.mp (Bool.not_eq_true _ ▸ hplain)
          split at h
          · next pos decl' env hanalyze =>
            dsimp only at h
            split at h
            · next u s₃ hrun =>
              obtain ⟨rfl, rfl, rfl⟩ : decl' = decl ∧ _ = code ∧ s₃ = s' := by
                simpa using h
              obtain ⟨_, s₂, hshow, hload⟩ := bind_eq_ok.mp hrun
              have hprompt : AtPrompt c builtins lines s₀ _ s := .first hopening hflush
              exact ⟨_, _, _, _, .typed hprompt hread hquit (by simpa using hhandler),
                .intro hanalyze rfl hshow hload⟩
            · contradiction
          · contradiction
      · contradiction

/-- A session over the small library. -/
def smallSetting : Setting (List (Except Backend.Failure Backend.Result)) :=
  .ofBackend (Backend.Script.silent.backend none none) Library.smallLibrary .none fun _ => 0

/-- The unit of `d` needs two others, and none of the names is changed. -/
theorem required_delivered_small :
    Library.scan Library.smallTree ⟨"lib"⟩ = .ok smallSetting.library ∧
      ∃ decl code s,
        Declares smallSetting (Reading.linesOfText "(ns foo (:require [d]))\n")
          (fresh smallSetting default []) decl code s ∧
        Requires code "d" ∧ s.exchanges.length = 5 ∧
        ∀ ns, Requires code ns → ns ≠ coreNs →
          Available smallSetting.library s.exchanges ns := by
  have hfirst : (firstDeclaration? smallSetting
      (Reading.linesOfText "(ns foo (:require [d]))\n") (fresh smallSetting default [])).any
        (fun r => decide (Requires r.2.1 "d" ∧ r.2.2.exchanges.length = 5 ∧
          ∀ dep ∈ r.1.runtimeDeps, mungePath dep = dep)) = true := by
    decide +kernel
  obtain ⟨⟨decl, code, s⟩, hsome, hfacts⟩ := (Option.any_eq_true _ _).mp hfirst
  obtain ⟨hd, hlength, hself⟩ := of_decide_eq_true hfacts
  have hdeclares := declares_of_firstDeclaration? hsome
  have hiff := (required_delivered_iff Library.scan_smallTree default [] _ hdeclares).2
  exact ⟨Library.scan_smallTree, decl, code, s, hdeclares, hd, hlength,
    hiff.mpr fun dep hdep _ => .inl (hself dep hdep)⟩

/-- One script, with a hyphen in the name it provides. -/
def hyphenScripts : List (Files.Place × Files.Node) :=
  [(["core.js"], .file (Text.Utf8.encode "goog.provide('my-app.core')") false)]

def hyphenTree : Files.Tree where
  cwd := ["home"]
  nodes := ⟨[(["home"], .directory), (["home", "lib"], .directory)] ++
    hyphenScripts.map fun script => (["home", "lib"] ++ script.1, script.2)⟩

def hyphenLibrary : Library where
  root := ⟨"lib"⟩
  units := [⟨"core.js", ⟨"lib/core.js"⟩, ["my-app.core"], []⟩]
  providers := ⟨[("my-app.core", 0)]⟩

theorem scan_hyphenTree : Library.scan hyphenTree ⟨"lib"⟩ = .ok hyphenLibrary := by
  have hlocate : hyphenTree.locate ⟨"lib"⟩ = .ok (["home", "lib"], some .directory) := by
    decide +kernel
  have hbelow : hyphenTree.below ["home", "lib"] = hyphenScripts :=
    List.mergeSort_of_pairwise (by decide)
  unfold Library.scan Files.Tree.filesBelow?
  rw [hlocate]
  dsimp only
  rw [hbelow]
  decide +kernel

def hyphenSetting : Setting (List (Except Backend.Failure Backend.Result)) :=
  .ofBackend (Backend.Script.silent.backend none none) hyphenLibrary .none fun _ => 0

/-- The unit of `my-app.core` is delivered, and the script requires `my_app.core`. -/
theorem hyphenated_requirement_not_delivered :
    Library.scan hyphenTree ⟨"lib"⟩ = .ok hyphenSetting.library ∧
      ¬∀ decl code s,
        Declares hyphenSetting (Reading.linesOfText "(ns foo (:require [my-app.core]))\n")
          (fresh hyphenSetting default []) decl code s →
        ∀ ns, Requires code ns → ns ≠ coreNs →
          Available hyphenSetting.library s.exchanges ns := by
  refine ⟨scan_hyphenTree, fun h => ?_⟩
  have hfirst : (firstDeclaration? hyphenSetting
      (Reading.linesOfText "(ns foo (:require [my-app.core]))\n")
      (fresh hyphenSetting default [])).any
        (fun r => decide (Requires r.2.1 "my_app.core")) = true := by
    decide +kernel
  obtain ⟨⟨decl, code, s⟩, hsome, hrequires⟩ := (Option.any_eq_true _ _).mp hfirst
  obtain ⟨u, hu, hprovides, -⟩ := h decl code s (declares_of_firstDeclaration? hsome)
    "my_app.core" (of_decide_eq_true hrequires) (by decide)
  have hnone : ∀ u ∈ hyphenSetting.library.units, "my_app.core" ∉ u.provides := by
    decide +kernel
  exact hnone u hu hprovides

end LiveLisp.Session
