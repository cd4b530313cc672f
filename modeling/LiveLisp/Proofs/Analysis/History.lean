import LiveLisp.Proofs.Analysis.Declaration
import Mathlib.Tactic.Tauto
/-!
# Histories of analyses

Forms are analyzed one after the other, each in its namespace, and each finds what the ones before
it have left behind.  The namespaces that are known afterwards, and the aliases and referred names
in them, all come from the entries of such a history.
-/

namespace LiveLisp

namespace Table

variable {κ α : Type} [DecidableEq κ]

theorem mem_put {key : κ} {value : α} {e : κ × α} {es : List (κ × α)}
    (h : e ∈ put key value es) : e = (key, value) ∨ e ∈ es := by
  induction es with
  | nil => exact .inl (List.mem_singleton.mp h)
  | cons first rest ih =>
    obtain ⟨k, v⟩ := first
    rw [put] at h
    split at h
    · next hk =>
      rcases List.mem_cons.mp h with rfl | hrest
      · exact .inl (by rw [hk])
      · exact .inr (List.mem_cons_of_mem _ hrest)
    · rcases List.mem_cons.mp h with rfl | hrest
      · exact .inr List.mem_cons_self
      · exact (ih hrest).imp_right (List.mem_cons_of_mem _)

theorem mem_entries_insertAll {t : Table κ α} {e : κ × α} {es : List (κ × α)}
    (h : e ∈ (t.insertAll es).entries) : e ∈ t.entries ∨ e ∈ es := by
  induction es generalizing t with
  | nil => exact .inl h
  | cons first rest ih =>
    rcases ih h with hentry | hrest
    · rcases mem_put hentry with rfl | hentry
      · exact .inr List.mem_cons_self
      · exact .inl hentry
    · exact .inr (List.mem_cons_of_mem _ hrest)

end Table

namespace Analysis

open Fallible
open Munge (munge)

/-! ## What is known -/

namespace Env

/-- What is known about a namespace. -/
def info (env : Env) (ns : String) : NamespaceInfo := (env.namespace? ns).getD (.fresh ns)

/-- The aliases and the referred names of a namespace, with the namespaces that they lead to. -/
def links (env : Env) (ns : String) : List (String × String) :=
  (env.info ns).aliases.entries ++ (env.info ns).refers.entries

variable (env : Env) (ns name other : String)

theorem namespace?_update (f : NamespaceInfo → NamespaceInfo) :
    (env.update ns f).namespace? other =
      if ns = other then some (f (env.info ns)) else env.namespace? other :=
  Table.get?_insert ..

theorem info_update (f : NamespaceInfo → NamespaceInfo) :
    (env.update ns f).info other = if ns = other then f (env.info ns) else env.info other := by
  rw [info, namespace?_update]
  split <;> rfl

theorem info_register : (env.register ns).info other = env.info other := by
  by_cases hother : ns = other
  · rw [← hother]
    exact getD_namespace?_register env ns
  · rw [register]
    split
    · rfl
    · rw [info, namespace?, Table.get?_insert, if_neg hother]
      rfl

theorem links_register : (env.register ns).links other = env.links other := by
  rw [links, links, info_register]

theorem links_define : (env.define ns name).links other = env.links other := by
  rw [links, links, define, info_update]
  split
  · next h => rw [← h]
  · rfl

theorem links_defineAll (names : List String) :
    (env.defineAll ns names).links other = env.links other := by
  induction names generalizing env with
  | nil => rfl
  | cons name names ih => rw [defineAll_cons, ih, links_define]

theorem contains_register_iff :
    (env.register ns).contains other = true ↔ env.contains other = true ∨ other = ns := by
  rw [contains_register, Bool.or_eq_true, decide_eq_true_eq, or_comm, eq_comm (a := ns)]

theorem contains_foldl_register_iff (names : List String) :
    (names.foldl register env).contains other = true ↔
      env.contains other = true ∨ other ∈ names := by
  induction names generalizing env with
  | nil => simp
  | cons name names ih =>
    rw [List.foldl_cons, ih, contains_register_iff, List.mem_cons, or_assoc]

theorem info_foldl_register (names : List String) :
    (names.foldl register env).info other = env.info other := by
  induction names generalizing env with
  | nil => rfl
  | cons name names ih => rw [List.foldl_cons, ih, info_register]

end Env

namespace Draft

variable (d : Draft) (env : Env) (other : String)

theorem contains_record_iff :
    (d.record env).contains other = true ↔
      env.contains other = true ∨ other = d.decl.name ∨ other ∈ d.decl.requires ++ d.decl.uses := by
  rw [record, Env.contains_update, Bool.or_eq_true, Env.contains_foldl_register_iff,
    Env.contains_register_iff, decide_eq_true_eq, eq_comm (a := d.decl.name)]
  tauto

theorem mem_links_record {e : String × String} (h : e ∈ (d.record env).links other) :
    e ∈ env.links other ∨ d.decl.name = other ∧ e ∈ d.aliases ++ d.refers := by
  rw [Env.links, record, Env.info_update, Env.info_foldl_register, Env.info_foldl_register,
    Env.info_register, Env.info_register] at h
  split at h
  · next hname =>
    subst hname
    have hentries := List.mem_append.mp h
    rcases hentries with halias | hrefer
    · rcases Table.mem_entries_insertAll halias with hold | hnew
      · exact .inl (List.mem_append_left _ hold)
      · exact .inr ⟨rfl, List.mem_append_left _ hnew⟩
    · rcases Table.mem_entries_insertAll hrefer with hold | hnew
      · exact .inl (List.mem_append_right _ hold)
      · exact .inr ⟨rfl, List.mem_append_right _ hnew⟩
  · exact .inl h

end Draft

end Analysis

/-! ## One analysis -/

/-- What a namespace declaration that is well formed comes to. -/
def Form.draft? : Form → Option Analysis.Draft
  | .list pos (head :: items) =>
    if head.plainName? = some "ns" then (Analysis.Draft.ofItems pos items).toOption else none
  | _ => none

theorem Form.draft?_eq_some {form : Form} {d : Analysis.Draft} (h : form.draft? = some d) :
    ∃ pos head items, form = .list pos (head :: items) ∧
      Analysis.Draft.ofItems pos items = .ok d := by
  unfold Form.draft? at h
  split at h
  · next pos head items =>
    split at h
    · cases hitems : Analysis.Draft.ofItems pos items with
      | error e => simp [hitems, Except.toOption] at h
      | ok found =>
        rw [hitems] at h
        exact ⟨pos, head, items, rfl, hitems.trans (congrArg _ (Option.some.inj h))⟩
    · contradiction
  · contradiction

namespace Analysis

open Fallible

/-- What an analysis leaves behind: a declaration is recorded, if it is well formed; any other form
leaves the definitions that it began. -/
theorem finalState_analyze (ns : String) (form : Form) (env : Env) :
    finalState (analyze ns form) env =
      match form.draft? with
      | some d => d.record (env.register ns)
      | none => (env.register ns).defineAll ns (begunBy (env.register ns) ns form) := by
  have hknown := env.contains_register_self ns
  rcases analyze_top_cases ns form env with ⟨pos, head, items, rfl, hheaded, hrun⟩ | ⟨hheaded, hrun⟩
  · have hhead : head.plainName? = some "ns" := plainName?_eq_iff.mpr hheaded
    rw [finalState, hrun, analyzeDeclaration, Form.draft?, if_pos hhead, begunBy, if_pos hheaded]
    cases Draft.ofItems pos items <;> rfl
  · have hdraft : form.draft? = none := by
      unfold Form.draft?
      split
      · next pos head items =>
        refine if_neg fun hhead => ?_
        have hheaded' : Form.isHeadedBy (.list pos (head :: items)) "ns" = true :=
          plainName?_eq_iff.mp hhead
        rw [hheaded] at hheaded'
        contradiction
      · rfl
    have htaken := guided_analyzeTo ns form.depth ⟨ns, [], Munge.munge⟩ form rfl _ hknown
    rw [hdraft, finalState, begunBy, if_neg (by simp [hheaded]), hrun]
    generalize analyzeTo form.depth ⟨ns, [], Munge.munge⟩ form (env.register ns) = r at htaken
    cases htaken with
    | ok _ henv => exact henv
    | failed _ henv => exact henv

/-! ## Histories -/

/-- The environment that forms, each analyzed in its namespace, leave behind. -/
def Env.after (env : Env) (history : List (String × Form)) : Env :=
  history.foldl (fun env entry => finalState (analyze entry.1 entry.2) env) env

variable {env : Env} {history : List (String × Form)}

theorem Env.after_cons (env : Env) (entry : String × Form) (history : List (String × Form)) :
    env.after (entry :: history) = (finalState (analyze entry.1 entry.2) env).after history :=
  rfl

/-- Known are the namespaces in which forms were analyzed, the declared ones, and what these
require or use. -/
theorem Env.contains_after_iff {ns : String} :
    (env.after history).contains ns = true ↔ env.contains ns = true ∨
      ∃ entry ∈ history, ns = entry.1 ∨
        ∃ d ∈ entry.2.draft?, ns = d.decl.name ∨ ns ∈ d.decl.requires ++ d.decl.uses := by
  induction history generalizing env with
  | nil => simp [Env.after]
  | cons entry history ih =>
    rw [Env.after_cons, ih, finalState_analyze]
    cases hdraft : entry.2.draft? with
    | some d =>
      dsimp only
      rw [Draft.contains_record_iff, Env.contains_register_iff]
      simp only [List.mem_cons, exists_eq_or_imp, hdraft, Option.mem_def, Option.some.injEq,
        exists_eq_left', or_assoc]
    | none =>
      dsimp only
      rw [Env.contains_defineAll (Env.contains_register_self _ _), Env.contains_register_iff]
      simp only [List.mem_cons, exists_eq_or_imp, hdraft, Option.mem_def, reduceCtorEq, false_and,
        exists_false, or_false, or_assoc]

/-- Every alias and every referred name of a namespace comes from one of its declarations. -/
theorem Env.mem_links_after {ns : String} {e : String × String}
    (h : e ∈ (env.after history).links ns) :
    e ∈ env.links ns ∨ ∃ entry ∈ history, ∃ d ∈ entry.2.draft?,
      d.decl.name = ns ∧ e ∈ d.aliases ++ d.refers := by
  induction history generalizing env with
  | nil => exact .inl h
  | cons entry history ih =>
    rw [Env.after_cons] at h
    rcases ih h with hfirst | ⟨other, hother, hrest⟩
    · rw [finalState_analyze] at hfirst
      cases hdraft : entry.2.draft? with
      | some d =>
        rw [hdraft] at hfirst
        rcases d.mem_links_record _ _ hfirst with hold | hnew
        · rw [Env.links_register] at hold
          exact .inl hold
        · exact .inr ⟨entry, List.mem_cons_self, d, hdraft, hnew⟩
      | none =>
        rw [hdraft] at hfirst
        dsimp only at hfirst
        rw [Env.links_defineAll, Env.links_register] at hfirst
        exact .inl hfirst
    · exact .inr ⟨other, List.mem_cons_of_mem _ hother, hrest⟩

end Analysis

end LiveLisp
