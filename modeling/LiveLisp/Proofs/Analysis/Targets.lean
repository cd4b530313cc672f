import LiveLisp.Proofs.Analysis.Landmarks
/-!
# Namespaces of references

A symbol stands for a name of a namespace through an alias or a referred name, or because it says so
and the namespace is known or belongs to the script library, or else it belongs to the current or
the core namespace.  Only an alias or a referred name can lead to a namespace that is not there at
run time, one that a declaration names for its macros.
-/

namespace LiveLisp.Analysis

open Munge (munge)
open Text (Position)

namespace Env

/-- Whether a namespace is there at run time. -/
def IsRuntime (env : Env) (ns : String) : Prop :=
  env.contains ns = true ∨ isScriptLibrary ns = true

instance (env : Env) (ns : String) : Decidable (env.IsRuntime ns) :=
  inferInstanceAs (Decidable (_ ∨ _))

/-- A symbol of `ns` with this alias, or with this referred name, stands for a name of `other`. -/
def Leads (env : Env) (ns name other : String) : Prop :=
  name ≠ "js" ∧ (env.info ns).aliases.get? name = some other ∨
    isDotted name = false ∧ (env.info ns).refers.get? name = some other

variable {env : Env} {ns name other : String}

theorem leads_register (current : String) :
    (env.register current).Leads ns name other ↔ env.Leads ns name other := by
  rw [Leads, info_register]
  rfl

theorem leads_defineAll (current : String) (names : List String) :
    (env.defineAll current names).Leads ns name other ↔ env.Leads ns name other := by
  rw [Leads, info_defineAll]
  rfl

theorem Leads.mem_links (h : env.Leads ns name other) : (name, other) ∈ env.links ns := by
  rcases h with ⟨-, halias⟩ | ⟨-, hrefer⟩
  · exact List.mem_append_left _ (Table.mem_entries_of_get? halias)
  · exact List.mem_append_right _ (Table.mem_entries_of_get? hrefer)

theorem links_initial (ns : String) : Env.initial.links ns = [] := by
  rw [initial, links_register, links_register]
  rfl

/-- A namespace that an alias or a referred name leads to was named by a declaration.  It is known
but for one that is there for its macros. -/
theorem Leads.contains_or_macros {history : List (String × Form)}
    (h : (Env.initial.after history).Leads ns name other) :
    (Env.initial.after history).contains other = true ∨
      ∃ entry ∈ history, ∃ d ∈ entry.2.draft?, d.decl.name = ns ∧
        (name, other) ∈ d.aliases ++ d.refers ∧ other ∈ d.decl.requireMacros := by
  have hlinks := mem_links_after h.mem_links
  rw [links_initial] at hlinks
  obtain hnone | ⟨entry, hentry, d, hd, hname, hlink⟩ := hlinks
  · contradiction
  · obtain ⟨pos, head, items, -, hitems⟩ := Form.draft?_eq_some hd
    have hlibrary : other ∈ d.decl.libraries := Draft.target_mem_libraries hitems _ hlink
    rcases List.mem_append.mp hlibrary with hloaded | hmacros
    · exact .inl (contains_after_iff.mpr (.inr ⟨entry, hentry, .inr ⟨d, hd, .inr hloaded⟩⟩))
    · exact .inr ⟨entry, hentry, d, hd, hname, hlink, hmacros⟩

end Env

/-! ## References -/

theorem target_of_resolve {env : Env} {scope : Scope} {pos p : Position} {symbol : Symbol}
    {other x : String} (h : resolve env scope pos symbol = .ok (.var p other x)) :
    (∃ name, env.Leads scope.ns name other) ∨ env.IsRuntime other ∨ other = scope.ns ∨
      other = coreNs := by
  cases found_of_resolve h with
  | aliased hns hjs halias => exact .inl ⟨_, .inl ⟨hjs, halias⟩⟩
  | referred hdotted hrefer => exact .inl ⟨_, .inr ⟨hdotted, hrefer⟩⟩
  | known hns hknown => exact .inr (.inl hknown)
  | own => exact .inr (.inr (.inl rfl))
  | core => exact .inr (.inr (.inr rfl))

section TopLevel

variable {env env' : Env} {ns : String} {form : Form} {ast : Ast}

theorem contains_of_analyze (h : analyze ns form env = .ok ast env') {other : String}
    (hother : env.contains other = true ∨ other = ns) : env'.contains other = true := by
  have hafter : env' = env.after [(ns, form)] := (Fallible.finalState_of_ok h).symm
  rw [hafter, Env.contains_after_iff]
  exact hother.imp_right fun hns => ⟨_, List.mem_singleton_self _, .inl hns⟩

/-- The namespaces of the references of an analyzed form. -/
theorem target_of_analyze (h : analyze ns form env = .ok ast env') {pos : Position}
    {other name : String} (hvar : .var pos other name ∈ ast.preorder) :
    (∃ link, env.Leads ns link other) ∨ env'.IsRuntime other ∨ other = coreNs := by
  have hlandmark : .reference (.var pos other name) ∈ ast.landmarks :=
    List.mem_filterMap.mpr ⟨_, hvar, rfl⟩
  obtain ⟨e, -, hlands⟩ := exists_event h hlandmark
  cases hlands with
  | @occurs o _ hscope hresolve =>
    have hknown := env.contains_register_self ns
    rcases target_of_resolve hresolve with ⟨link, hleads⟩ | (hcontains | hlibrary) | hns | hcore
    · rw [hscope, Env.leads_defineAll, Env.leads_register] at hleads
      exact .inl ⟨link, hleads⟩
    · rw [Env.contains_defineAll hknown, Env.contains_register_iff] at hcontains
      exact .inr (.inl (.inl (contains_of_analyze h hcontains)))
    · exact .inr (.inl (.inr hlibrary))
    · exact .inr (.inl (.inl (contains_of_analyze h (.inr (hns.trans hscope)))))
    · exact .inr (.inr hcore)

theorem analyze_symbol (ns : String) (symbol : Symbol) (pos : Position) (env : Env) :
    analyze ns (.atom pos (.symbol symbol)) env =
      analyzeSymbol ⟨ns, [], munge⟩ pos symbol (env.register ns) := by
  rcases analyze_top_cases ns (.atom pos (.symbol symbol)) env with ⟨_, _, _, hform, -⟩ | ⟨-, hrun⟩
  · contradiction
  · exact hrun

/-- Each alias and each referred name is what some symbol goes by. -/
theorem exists_var_of_leads {link other : String} (h : env.Leads ns link other) :
    ∃ symbol pos name, analyze ns (.atom pos (.symbol symbol)) env =
      .ok (.var pos other name) (env.register ns) := by
  have hanalyze : ∀ symbol name, resolve (env.register ns) ⟨ns, [], munge⟩ .start symbol =
      .ok (.var .start other name) → analyze ns (.atom .start (.symbol symbol)) env =
        .ok (.var .start other name) (env.register ns) := by
    intro symbol name hresolve
    rw [analyze_symbol, analyzeSymbol, hresolve]
  rw [← Env.leads_register ns] at h
  rcases h with ⟨hjs, halias⟩ | ⟨hdotted, hrefer⟩
  · refine ⟨⟨some link, "x"⟩, .start, "x", hanalyze _ _ ?_⟩
    unfold Env.info at halias
    simp only [resolve, if_neg hjs, halias]
  · refine ⟨⟨none, link⟩, .start, link, hanalyze _ _ ?_⟩
    unfold Env.info at hrefer
    simp only [resolve, hdotted, hrefer, Scope.isLocal, List.contains_nil, Bool.false_eq_true,
      if_false]

end TopLevel

/-- In a namespace the compiled names belong to namespaces that are there at run time exactly if
this is so for whatever its declarations lead to for the sake of macros. -/
theorem vars_runtime_iff (history : List (String × Form)) (ns : String) :
    (∀ form ast env', analyze ns form (Env.initial.after history) = .ok ast env' →
        ∀ pos other name, .var pos other name ∈ ast.preorder → env'.IsRuntime other) ↔
      ∀ name other, (Env.initial.after history).Leads ns name other →
        (∃ entry ∈ history, ∃ d ∈ entry.2.draft?, d.decl.name = ns ∧
          (name, other) ∈ d.aliases ++ d.refers ∧ other ∈ d.decl.requireMacros) →
        (Env.initial.after history).IsRuntime other := by
  constructor
  · rintro hall name other hleads ⟨entry, hentry, d, hd, hname, -⟩
    obtain ⟨symbol, pos, x, hrun⟩ := exists_var_of_leads hleads
    have hruntime := hall _ _ _ hrun pos other x (Ast.mem_preorder_self _)
    refine hruntime.imp_left fun hcontains => ?_
    rcases (Env.contains_register_iff ..).mp hcontains with hold | rfl
    · exact hold
    · exact Env.contains_after_iff.mpr (.inr ⟨entry, hentry, .inr ⟨d, hd, .inl hname.symm⟩⟩)
  · intro hmacros form ast env' hrun pos other name hvar
    have hgrows : (Env.initial.after history).IsRuntime other → env'.IsRuntime other :=
      Or.imp_left fun hcontains => contains_of_analyze hrun (.inl hcontains)
    rcases target_of_analyze hrun hvar with ⟨link, hleads⟩ | hruntime | rfl
    · rcases hleads.contains_or_macros with hknown | hdeclared
      · exact hgrows (.inl hknown)
      · exact hgrows (hmacros link other hleads hdeclared)
    · exact hruntime
    · exact hgrows (.inl (Env.contains_after_iff.mpr (.inl rfl)))

/-- `(ns a (clause [m :as mm]))` -/
def aliasDeclaration (clause : String) : Form :=
  .list .start [.symbol "ns" .start, .symbol "a" .start,
    .list .start [.keyword (.plain clause) .start,
      .vector .start [.symbol "m" .start, .keyword (.plain "as") .start, .symbol "mm" .start]]]

/-- A namespace may be there for its macros under the alias under which it is required. -/
theorem vars_runtime_required :
    let history := [(userNs, aliasDeclaration "require-macros"),
      (userNs, aliasDeclaration "require")]
    ∀ form ast env', analyze "a" form (Env.initial.after history) = .ok ast env' →
      ∀ pos other name, .var pos other name ∈ ast.preorder → env'.IsRuntime other := by
  intro history
  refine (vars_runtime_iff history "a").mpr fun name other hleads _ => ?_
  have hlinks : (Env.initial.after history).links "a" = [("mm", "m")] := rfl
  have hlink := hleads.mem_links
  rw [hlinks, List.mem_singleton] at hlink
  rw [(Prod.mk.inj hlink).2]
  exact .inl rfl

/-- After `(ns a (:require-macros [m :as mm]))` the symbol `mm/foo` stands for a name of a namespace
that nothing loads. -/
theorem var_of_macro_namespace :
    ¬∀ (history : List (String × Form)) (ns : String) (form : Form) (ast : Ast) (env' : Env)
        (pos : Position) (other name : String),
      analyze ns form (Env.initial.after history) = .ok ast env' →
      .var pos other name ∈ ast.preorder → env'.IsRuntime other := by
  intro h
  have hrun : analyze "a" (.symbol "mm/foo" .start)
      (Env.initial.after [(userNs, aliasDeclaration "require-macros")]) =
    .ok (.var .start "m" "foo")
      (Env.initial.after [(userNs, aliasDeclaration "require-macros")]) := rfl
  exact absurd (h _ _ _ _ _ _ _ _ hrun (Ast.mem_preorder_self _)) (by decide)

end LiveLisp.Analysis
