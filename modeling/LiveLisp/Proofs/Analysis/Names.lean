import LiveLisp.Proofs.Analysis.Depth
import LiveLisp.Proofs.Analysis.History
import LiveLisp.Proofs.Reading.Symbols
import LiveLisp.Proofs.Script.Controls
/-!
# Where the names of an analyzed form come from

The names in an analyzed form are spelled with the symbols of the form, the name of the current
namespace and the names of namespaces that its aliases and referred names lead to.  So a character
that is foreign to spelling, such as a control character or a bracket, gets into them from nowhere
else.
-/

namespace LiveLisp.Munge

open Script (isControl)

/-! ## Munged names -/

/-- Letters and the signs between and around parts of names: all that spelling a name may bring
in. -/
def isSpelling (c : Char) : Bool := c.isAlpha || ['_', '$', '.', '/'].contains c

theorem not_spelling_of_isControl {c : Char} (h : isControl c = true) : isSpelling c = false := by
  have hall : ∀ n < 32, isSpelling (Char.ofNat n) = false := by decide
  rw [isControl, Bool.and_eq_true, decide_eq_true_eq] at h
  rw [← Char.ofNat_toNat c]
  exact hall c.toNat h.1

theorem not_mem_of_spelling {c : Char} (hc : isSpelling c = false) {text : List Char}
    (h : text.all isSpelling = true) : c ∉ text := by
  intro hmem
  rw [List.all_eq_true.mp h c hmem] at hc
  contradiction

section Munged

variable {c : Char} (hc : isSpelling c = false) {name : String}
include hc

theorem eq_of_mem_mungeChar {d : Char} (h : c ∈ mungeChar d) : c = d := by
  rcases mungeChar_cases d with ⟨-, hspelled⟩ | ⟨hself, -⟩
  · rcases hspelled c h with rfl | hupper
    · contradiction
    · have halpha : c.isAlpha = true := by
        change (c.isUpper || c.isLower) = true
        rw [hupper, Bool.true_or]
      rw [isSpelling, halpha] at hc
      contradiction
  · rw [hself] at h
    exact List.mem_singleton.mp h

theorem not_mem_munge (h : c ∉ name.toList) : c ∉ (munge name).toList := by
  rw [munge, String.toList_ofList]
  intro hmem
  rcases mem_mungeChars hmem with rfl | ⟨d, hd, hcd⟩
  · contradiction
  · rw [eq_of_mem_mungeChar hc hcd] at h
    exact h hd

theorem not_mem_mungePath (h : c ∉ name.toList) : c ∉ (mungePath name).toList := by
  intro hmem
  rcases mem_mungePath hmem with rfl | rfl | ⟨d, hd, hcd⟩
  · contradiction
  · contradiction
  · rw [eq_of_mem_mungeChar hc hcd] at h
    exact h hd

theorem not_mem_definitionPath {ns : String} (hns : c ∉ ns.toList) (h : c ∉ name.toList) :
    c ∉ (definitionPath ns name).toList := by
  have hpoint : c ∉ ".".toList := not_mem_of_spelling hc (by decide)
  rw [definitionPath, String.toList_append, String.toList_append]
  simp only [List.mem_append, not_or]
  exact ⟨⟨not_mem_mungePath hc hns, hpoint⟩, not_mem_munge hc h⟩

end Munged

end LiveLisp.Munge

namespace LiveLisp.Analysis

open Fallible
open Munge
open Script (isControl Everywhere NamesAvoid everywhere_iff ownNames)
open Text (Position)

/-! ## Known names -/

namespace Env

/-- The namespaces that the aliases and referred names of a namespace lead to. -/
def targets (env : Env) (ns : String) : List String :=
  let info := (env.namespace? ns).getD (.fresh ns)
  info.aliases.entries.map Prod.snd ++ info.refers.entries.map Prod.snd

/-- No namespace that can be meant in `ns` has the character in its name. -/
def Avoids (c : Char) (ns : String) (env : Env) : Prop :=
  c ∉ ns.toList ∧ ∀ target ∈ env.targets ns, c ∉ target.toList

theorem targets_define (env : Env) (ns name : String) :
    (env.define ns name).targets ns = env.targets ns := by
  rw [targets, namespace?_define, if_pos rfl]
  rfl

theorem targets_register (env : Env) (ns : String) :
    (env.register ns).targets ns = env.targets ns := by
  rw [targets, targets, getD_namespace?_register]

variable {env : Env} {c : Char} {ns : String}

theorem Avoids.define (h : env.Avoids c ns) (name : String) : (env.define ns name).Avoids c ns :=
  ⟨h.1, by rw [targets_define]; exact h.2⟩

theorem Avoids.register (h : env.Avoids c ns) : (env.register ns).Avoids c ns :=
  ⟨h.1, by rw [targets_register]; exact h.2⟩

end Env

/-! ## Nodes -/

section Nodes

variable {c : Char}

theorem everywhere_node {a : Ast} (hnames : NamesAvoid c a)
    (hparts : ∀ b ∈ a.parts, Everywhere (NamesAvoid c) b) : Everywhere (NamesAvoid c) a :=
  (everywhere_iff _ a).mpr ⟨hnames, hparts⟩

theorem namesAvoid_of_nil {a : Ast} (h : ownNames a = []) : NamesAvoid c a := by
  simp [NamesAvoid, h]

theorem namesAvoid_of_singleton {a : Ast} {name : String} (h : ownNames a = [name])
    (hname : c ∉ name.toList) : NamesAvoid c a := by
  simpa [NamesAvoid, h] using hname

end Nodes

/-! ## Expressions -/

section Expressions

variable {c : Char} (hc : isSpelling c = false) {ns : String}

/-- A computation that begins where no name has the character gives nodes that write none with
it. -/
abbrev GivesClear (c : Char) (ns : String) : Analyzing Ast → Prop :=
  Gives (Env.Avoids c ns) (Everywhere (NamesAvoid c))

/-- The analyzer gives such nodes for forms without the character. -/
def Clear (c : Char) (ns : String) (sub : Analyzer) : Prop :=
  ∀ scope form, scope.ns = ns → scope.spell = munge → form.Avoids c →
    GivesClear c ns (sub scope form)

include hc in
theorem clear_resolve {env : Env} {scope : Scope} (henv : env.Avoids c scope.ns)
    (hspell : scope.spell = munge) {sym : Symbol} (hsym : sym.Avoids c) {pos : Position}
    {ast : Ast} (h : resolve env scope pos sym = .ok ast) : Everywhere (NamesAvoid c) ast := by
  obtain ⟨hns, htargets⟩ := henv
  obtain ⟨hqualifier, hname⟩ := hsym
  have hvar : ∀ target : String, c ∉ target.toList →
      Everywhere (NamesAvoid c) (.var pos target sym.name) := by
    intro target htarget
    refine everywhere_node (namesAvoid_of_singleton rfl ?_) (by simp [Ast.parts])
    exact not_mem_definitionPath hc htarget hname
  unfold resolve at h
  dsimp only at h
  split at h
  · next qualifier hq =>
    split at h
    · obtain rfl := Except.ok.inj h
      exact everywhere_node (namesAvoid_of_singleton rfl hname) (by simp [Ast.parts])
    · split at h
      · next target halias =>
        obtain rfl := Except.ok.inj h
        apply hvar
        apply htargets
        exact List.mem_append_left _ (List.mem_map_of_mem (Table.mem_entries_of_get? halias))
      · split at h
        · obtain rfl := Except.ok.inj h
          exact hvar qualifier (hqualifier qualifier hq)
        · contradiction
  · split at h
    · obtain rfl := Except.ok.inj h
      refine everywhere_node (namesAvoid_of_singleton rfl ?_) (by simp [Ast.parts])
      rw [hspell]
      exact not_mem_munge hc hname
    · split at h
      · obtain rfl := Except.ok.inj h
        exact everywhere_node (namesAvoid_of_singleton rfl (not_mem_mungePath hc hname))
          (by simp [Ast.parts])
      · split at h
        · next target hrefer =>
          obtain rfl := Except.ok.inj h
          apply hvar
          apply htargets
          exact List.mem_append_right _ (List.mem_map_of_mem (Table.mem_entries_of_get? hrefer))
        · obtain rfl := Except.ok.inj h
          apply hvar
          split
          · exact hns
          · exact not_mem_of_spelling hc (by decide)

include hc in
theorem givesClear_analyzeSymbol {scope : Scope} (hns : scope.ns = ns)
    (hspell : scope.spell = munge) {sym : Symbol} (hsym : sym.Avoids c) (pos : Position) :
    GivesClear c ns (analyzeSymbol scope pos sym) := by
  intro env ast env' henv h
  unfold analyzeSymbol at h
  cases hresolve : resolve env scope pos sym with
  | error e =>
    rw [hresolve] at h
    contradiction
  | ok found =>
    rw [hresolve] at h
    obtain ⟨rfl, rfl⟩ := EStateM.Result.ok.inj h
    refine ⟨clear_resolve hc ?_ hspell hsym hresolve, henv⟩
    rwa [hns]

section Parts

variable {sub : Analyzer} (hsub : Clear c ns sub) {scope : Scope} (hns : scope.ns = ns)
  (hspell : scope.spell = munge)
include hsub hns hspell

theorem gives_analyzeAll {forms : List Form} (h : ∀ form ∈ forms, form.Avoids c) :
    Gives (Env.Avoids c ns) (fun asts => ∀ a ∈ asts, Everywhere (NamesAvoid c) a)
      (analyzeAll sub scope forms) := by
  induction forms with
  | nil => exact gives_pure (List.forall_mem_nil _)
  | cons form rest ih =>
    obtain ⟨hform, hrest⟩ := List.forall_mem_cons.mp h
    refine (hsub scope form hns hspell hform).bind fun a ha => (ih hrest).bind fun asts hasts => ?_
    exact gives_pure (List.forall_mem_cons.mpr ⟨ha, hasts⟩)

theorem gives_analyzeEntries {entries : List (Form × Form)}
    (h : ∀ form ∈ entries.flatMap (fun e => [e.1, e.2]), form.Avoids c) :
    Gives (Env.Avoids c ns)
      (fun found => ∀ a ∈ found.flatMap (fun e => [e.1, e.2]), Everywhere (NamesAvoid c) a)
      (analyzeEntries sub scope entries) := by
  induction entries with
  | nil => exact gives_pure (List.forall_mem_nil _)
  | cons e rest ih =>
    obtain ⟨key, value⟩ := e
    have hkey := h key (by simp)
    have hvalue := h value (by simp)
    have hrest := ih fun form hform => h form (by simp_all)
    refine (hsub scope key hns hspell hkey).bind fun k hk =>
      (hsub scope value hns hspell hvalue).bind fun v hv => hrest.bind fun found hfound => ?_
    refine gives_pure ?_
    rw [List.flatMap_cons]
    exact List.forall_mem_append.mpr
      ⟨List.forall_mem_cons.mpr ⟨hk, List.forall_mem_singleton.mpr hv⟩, hfound⟩

theorem gives_analyzeOption {form : Option Form} (h : ∀ f ∈ form, f.Avoids c) :
    Gives (Env.Avoids c ns) (fun found => ∀ a ∈ found, Everywhere (NamesAvoid c) a)
      (analyzeOption sub scope form) := by
  cases form with
  | none => exact gives_pure (by simp)
  | some form =>
    refine (hsub scope form hns hspell (h form rfl)).bind fun a ha => gives_pure ?_
    simpa using ha

end Parts

/-! ## Binding names -/

theorem gives_bindingName (special : String) {form : Form} (h : form.Avoids c) :
    Gives (Env.Avoids c ns) (fun name => c ∉ name.toList) (bindingName special form) := by
  unfold bindingName
  split
  · next name hname => exact gives_pure (Form.Symbols.plainName? h hname).2
  · exact gives_throw _

theorem gives_parameters {params : List Form} (h : ∀ form ∈ params, form.Avoids c) :
    Gives (Env.Avoids c ns)
      (fun r => (∀ name ∈ r.1, c ∉ name.toList) ∧ ∀ name ∈ r.2, c ∉ name.toList)
      (parameters params) := by
  induction params with
  | nil => exact gives_pure (by simp)
  | cons param more ih =>
    obtain ⟨hparam, hmore⟩ := List.forall_mem_cons.mp h
    unfold parameters
    refine (gives_bindingName "fn" hparam).bind fun name hname => ?_
    split
    · match more with
      | [] => exact gives_throw _
      | [rest] =>
        refine (gives_bindingName "fn" (hmore rest List.mem_cons_self)).bind fun other hother => ?_
        exact gives_pure (by simpa using hother)
      | rest :: _ :: _ =>
        exact (gives_bindingName "fn" (hmore rest List.mem_cons_self)).bind fun _ _ =>
          gives_throw _
    · refine (ih hmore).bind fun r hr => ?_
      obtain ⟨names, rest⟩ := r
      exact gives_pure ⟨List.forall_mem_cons.mpr ⟨hname, hr.1⟩, hr.2⟩

theorem gives_functionName {args : List Form} (h : ∀ form ∈ args, form.Avoids c) :
    Gives (Env.Avoids c ns)
      (fun r => (∀ name ∈ r.1, c ∉ name.toList) ∧ ∀ form ∈ r.2, form.Avoids c)
      (functionName args) := by
  cases args with
  | nil => exact gives_pure (by simp)
  | cons first rest =>
    obtain ⟨hfirst, hrest⟩ := List.forall_mem_cons.mp h
    rw [functionName]
    split
    · refine (gives_bindingName "fn" hfirst).bind fun name hname => ?_
      exact gives_pure ⟨by simpa using hname, hrest⟩
    · exact gives_pure ⟨by simp, h⟩

/-! ## Special forms -/

section Special

variable {sub : Analyzer} (hsub : Clear c ns sub) {scope : Scope} (hns : scope.ns = ns)
  (hspell : scope.spell = munge)

theorem bindAll_keeps (scope : Scope) (names : List String) :
    (scope.bindAll names).ns = scope.ns ∧ (scope.bindAll names).spell = scope.spell := by
  rw [Scope.bindAll_eq]
  exact ⟨rfl, rfl⟩

include hc hsub hns hspell

theorem givesClear_analyzeDefine (pos : Position) {args : List Form}
    (h : ∀ form ∈ args, form.Avoids c) :
    GivesClear c ns (analyzeDefine sub scope pos args) := by
  unfold analyzeDefine
  split
  · exact gives_throw _
  · next name init hparts =>
    obtain ⟨hmem, hinit⟩ := mem_of_definitionParts hparts
    split
    · exact gives_throw _
    · next plain hplain =>
      have hname : c ∉ plain.toList := (Form.Symbols.plainName? (h name hmem) hplain).2
      have hdefine : Gives (Env.Avoids c ns) (fun _ => True)
          (modify fun env => env.define scope.ns plain : Analyzing PUnit) := by
        intro env _ env' henv hrun
        obtain ⟨-, rfl⟩ := EStateM.Result.ok.inj hrun
        rw [hns]
        exact ⟨trivial, henv.define plain⟩
      refine hdefine.bind fun _ _ =>
        (gives_analyzeOption hsub hns hspell fun f hf => h f (hinit f hf)).bind
          fun found hfound => ?_
      -- the current namespace is part of the path
      intro env a env' henv hrun
      obtain ⟨rfl, rfl⟩ := pure_eq_ok.mp hrun
      refine ⟨everywhere_node (namesAvoid_of_singleton rfl ?_) ?_, henv⟩
      · rw [hns]
        exact not_mem_definitionPath hc henv.1 hname
      · simpa [Ast.parts] using hfound

omit hc in
theorem givesClear_analyzeCond (pos : Position) {args : List Form}
    (h : ∀ form ∈ args, form.Avoids c) : GivesClear c ns (analyzeCond sub scope pos args) := by
  unfold analyzeCond
  split
  · exact gives_throw _
  · next test thenBranch elseBranch hparts =>
    obtain ⟨htest, hthen, helse⟩ := mem_of_condParts hparts
    refine (gives_analyzeOption hsub hns hspell fun f hf => h f (helse f hf)).bind
      fun other hother => (hsub scope test hns hspell (h _ htest)).bind fun first hfirst =>
        (hsub scope thenBranch hns hspell (h _ hthen)).bind fun second hsecond => ?_
    refine gives_pure (everywhere_node (namesAvoid_of_nil rfl) ?_)
    simpa [Ast.parts] using ⟨hfirst, hsecond, hother⟩

theorem gives_analyzeBindings {pairs : List (Form × Form)}
    (h : ∀ form ∈ pairs.flatMap (fun e => [e.1, e.2]), form.Avoids c) :
    Gives (Env.Avoids c ns)
      (fun r => (∀ b ∈ r.1, c ∉ b.1.toList ∧ Everywhere (NamesAvoid c) b.2) ∧
        r.2.ns = ns ∧ r.2.spell = munge)
      (analyzeBindings sub scope pairs) := by
  induction pairs generalizing scope with
  | nil => exact gives_pure ⟨List.forall_mem_nil _, hns, hspell⟩
  | cons pair rest ih =>
    obtain ⟨name, init⟩ := pair
    have hname := h name (by simp)
    have hinit := h init (by simp)
    have hrest : ∀ form ∈ rest.flatMap (fun e => [e.1, e.2]), form.Avoids c :=
      fun form hform => h form (by simp_all)
    rw [analyzeBindings]
    refine (gives_bindingName "let" hname).bind fun plain hplain =>
      (hsub scope init hns hspell hinit).bind fun value hvalue => ?_
    have hinner : (scope.bind plain).ns = ns ∧ (scope.bind plain).spell = munge := ⟨hns, hspell⟩
    refine (ih hinner.1 hinner.2 hrest).bind fun r hr => ?_
    obtain ⟨bindings, inner⟩ := r
    refine gives_pure ⟨List.forall_mem_cons.mpr ⟨⟨?_, hvalue⟩, hr.1⟩, hr.2⟩
    rw [hspell]
    exact not_mem_munge hc hplain

theorem givesClear_analyzeBind (pos : Position) {args : List Form}
    (h : ∀ form ∈ args, form.Avoids c) : GivesClear c ns (analyzeBind sub scope pos args) := by
  unfold analyzeBind
  split
  · next vectorPos items body =>
    obtain ⟨hvector, hbody⟩ := List.forall_mem_cons.mp h
    split
    · exact gives_throw _
    · next pairs hpairs =>
      have hitems : ∀ form ∈ pairs.flatMap (fun e => [e.1, e.2]), form.Avoids c := by
        rw [Form.flatMap_of_pairUp hpairs]
        exact Form.allItems_iff.mp hvector
      refine (gives_analyzeBindings hc hsub hns hspell hitems).bind fun r hr => ?_
      obtain ⟨bindings, inner⟩ := r
      obtain ⟨hbindings, hinner, hinnerSpell⟩ := hr
      refine (gives_analyzeAll hsub hinner hinnerSpell hbody).bind fun asts hasts => ?_
      refine gives_pure (everywhere_node ?_ ?_)
      · intro name hname
        obtain ⟨b, hb, rfl⟩ := List.mem_map.mp hname
        exact (hbindings b hb).1
      · refine List.forall_mem_append.mpr ⟨?_, hasts⟩
        intro a ha
        obtain ⟨b, hb, rfl⟩ := List.mem_map.mp ha
        exact (hbindings b hb).2
  · exact gives_throw _

theorem givesClear_analyzeFunc (pos : Position) {args : List Form}
    (h : ∀ form ∈ args, form.Avoids c) : GivesClear c ns (analyzeFunc sub scope pos args) := by
  unfold analyzeFunc
  refine (gives_functionName h).bind fun r hr => ?_
  obtain ⟨name, args⟩ := r
  obtain ⟨hname, hargs⟩ := hr
  dsimp only
  split
  · exact gives_throw _
  · next params body =>
    obtain ⟨hvector, hbody⟩ := List.forall_mem_cons.mp hargs
    refine (gives_parameters (Form.allItems_iff.mp hvector)).bind fun r hr => ?_
    obtain ⟨names, rest⟩ := r
    obtain ⟨hnames, hrest⟩ := hr
    obtain ⟨hinner, hinnerSpell⟩ := bindAll_keeps scope (name.toList ++ names ++ rest.toList)
    refine (gives_analyzeAll hsub (hinner.trans hns) (hinnerSpell.trans hspell) hbody).bind
      fun asts hasts => ?_
    refine gives_pure (everywhere_node ?_ hasts)
    have hall : ∀ plain ∈ name.toList ++ names ++ rest.toList, c ∉ (munge plain).toList := by
      intro plain hplain
      apply not_mem_munge hc
      simp only [List.mem_append, Option.mem_toList] at hplain
      rcases hplain with (hplain | hplain) | hplain
      · exact hname plain hplain
      · exact hnames plain hplain
      · exact hrest plain hplain
    rw [NamesAvoid, ownNames, hspell, Option.toList_map, Option.toList_map, ← List.map_append,
      ← List.map_append]
    exact List.forall_mem_map.mpr hall
  · exact gives_throw _

omit hc in
theorem givesClear_analyzeAssign (pos : Position) {args : List Form}
    (h : ∀ form ∈ args, form.Avoids c) : GivesClear c ns (analyzeAssign sub scope pos args) := by
  unfold analyzeAssign
  split
  · next target value =>
    refine (hsub scope target hns hspell (h _ (by simp))).bind fun place hplace => ?_
    split
    · refine (hsub scope value hns hspell (h _ (by simp))).bind fun found hfound => ?_
      refine gives_pure (everywhere_node (namesAvoid_of_nil rfl) ?_)
      simpa [Ast.parts] using ⟨hplace, hfound⟩
    · exact gives_throw _
  · exact gives_throw _

/-- Neither the handler nor the cleanup writes a name with the character. -/
structure ClearClauses (c : Char) (clauses : Clauses) : Prop where
  name : ∀ e ∈ clauses.handler, c ∉ e.1.toList
  handler : ∀ e ∈ clauses.handler, ∀ a ∈ e.2, Everywhere (NamesAvoid c) a
  cleanup : ∀ a ∈ clauses.cleanup, Everywhere (NamesAvoid c) a

theorem gives_analyzeClauses {forms : List Form} (h : ∀ form ∈ forms, form.Avoids c)
    {done : Clauses} (hdone : ClearClauses c done) :
    Gives (Env.Avoids c ns) (ClearClauses c) (analyzeClauses sub scope done forms) := by
  induction forms generalizing done with
  | nil => exact gives_pure hdone
  | cons form rest ih =>
    obtain ⟨hform, hrest⟩ := List.forall_mem_cons.mp h
    have hitems : ∀ item ∈ (form.list?.getD []).drop 1, item.Avoids c := by
      intro item hitem
      apply hform.part
      unfold Form.list? at hitem
      split at hitem
      · exact List.mem_of_mem_drop hitem
      · simp at hitem
    unfold analyzeClauses
    dsimp only
    split
    · split
      · next binding body heq =>
        rw [heq] at hitems
        refine (gives_bindingName "try" (hitems binding (by simp))).bind fun name hname => ?_
        have hinner : (scope.bind name).ns = ns ∧ (scope.bind name).spell = munge := ⟨hns, hspell⟩
        refine (gives_analyzeAll hsub hinner.1 hinner.2
          (fun item hitem => hitems item (by simp [hitem]))).bind fun asts hasts => ?_
        refine ih hrest ⟨?_, ?_, hdone.cleanup⟩
        · rintro e ⟨⟩
          rw [hspell]
          exact not_mem_munge hc hname
        · rintro e ⟨⟩
          exact hasts
      · exact gives_throw _
    · split
      · refine (gives_analyzeAll hsub hns hspell hitems).bind fun asts hasts => ?_
        exact ih hrest ⟨hdone.name, hdone.handler, hasts⟩
      · exact gives_throw _

theorem givesClear_analyzeGuard (pos : Position) {args : List Form}
    (h : ∀ form ∈ args, form.Avoids c) : GivesClear c ns (analyzeGuard sub scope pos args) := by
  have hspan : ∀ form, form ∈ (args.span fun form => !isClause form).1 ∨
      form ∈ (args.span fun form => !isClause form).2 → form.Avoids c := by
    intro form hform
    rw [List.span_eq_takeWhile_dropWhile] at hform
    rcases hform with hform | hform
    · exact h form (List.takeWhile_subset _ hform)
    · exact h form (List.dropWhile_subset _ hform)
  unfold analyzeGuard
  refine (gives_analyzeAll hsub hns hspell fun form hform => hspan form (.inl hform)).bind
    fun body hbody => ?_
  have hnone : ClearClauses c ⟨none, []⟩ := ⟨by simp, by simp, by simp⟩
  refine (gives_analyzeClauses hc hsub hns hspell (fun form hform => hspan form (.inr hform))
    hnone).bind fun clauses hclauses => ?_
  refine gives_pure (everywhere_node ?_ ?_)
  · intro name hname
    obtain ⟨e, he, rfl⟩ : ∃ e ∈ clauses.handler, e.1 = name := by
      simpa [ownNames] using hname
    exact hclauses.name e he
  · refine List.forall_mem_append.mpr ⟨List.forall_mem_append.mpr ⟨hbody, ?_⟩, hclauses.cleanup⟩
    cases hhandler : clauses.handler with
    | none => simp
    | some e => exact hclauses.handler e hhandler

omit hc in
theorem givesClear_analyzeNew (pos : Position) {args : List Form}
    (h : ∀ form ∈ args, form.Avoids c) : GivesClear c ns (analyzeNew sub scope pos args) := by
  cases args with
  | nil => exact gives_throw _
  | cons ctor args =>
    obtain ⟨hctor, hargs⟩ := List.forall_mem_cons.mp h
    refine (hsub scope ctor hns hspell hctor).bind fun found hfound =>
      (gives_analyzeAll hsub hns hspell hargs).bind fun asts hasts => ?_
    exact gives_pure (everywhere_node (namesAvoid_of_nil rfl)
      (List.forall_mem_cons.mpr ⟨hfound, hasts⟩))

theorem givesClear_analyzeMember (pos : Position) {member : String} (hmember : c ∉ member.toList)
    {args : List Form} (h : ∀ form ∈ args, form.Avoids c) :
    GivesClear c ns (analyzeMember sub scope pos member args) := by
  unfold analyzeMember
  split
  · exact gives_throw _
  · next target args =>
    obtain ⟨htarget, hargs⟩ := List.forall_mem_cons.mp h
    refine (hsub scope target hns hspell htarget).bind fun found hfound => ?_
    split
    · next field heq =>
      split
      · exact gives_throw _
      · split
        · exact gives_throw _
        · refine gives_pure (everywhere_node (namesAvoid_of_singleton rfl ?_) ?_)
          · apply not_mem_munge hc
            rw [heq] at hmember
            simpa using fun hmem => hmember (List.mem_cons_of_mem _ hmem)
          · simpa [Ast.parts] using hfound
    · refine (gives_analyzeAll hsub hns hspell hargs).bind fun asts hasts => ?_
      exact gives_pure (everywhere_node (namesAvoid_of_singleton rfl (not_mem_munge hc hmember))
        (List.forall_mem_cons.mpr ⟨hfound, hasts⟩))

theorem givesClear_analyzeDot (pos : Position) {args : List Form}
    (h : ∀ form ∈ args, form.Avoids c) : GivesClear c ns (analyzeDot sub scope pos args) := by
  have haccess : ∀ {target member : Form} {rest : List Form}, target.Avoids c →
      member.Avoids c → (∀ form ∈ rest, form.Avoids c) →
      GivesClear c ns (bindingName "." member >>= fun name =>
        analyzeMember sub scope pos name (target :: rest)) := by
    intro target member rest htarget hmember hrest
    refine (gives_bindingName "." hmember).bind fun name hname => ?_
    exact givesClear_analyzeMember hc hsub hns hspell pos hname
      (List.forall_mem_cons.mpr ⟨htarget, hrest⟩)
  unfold analyzeDot
  dsimp only
  split
  · next target listPos member rest =>
    have hlist : ∀ form ∈ member :: rest, form.Avoids c :=
      Form.allItems_iff.mp (h (.list listPos (member :: rest)) (by simp))
    exact haccess (h target (by simp)) (hlist member (by simp))
      fun form hform => hlist form (by simp [hform])
  · next target member rest _ =>
    exact haccess (h target (by simp)) (h member (by simp))
      fun form hform => h form (by simp [hform])
  · exact gives_throw _

theorem givesClear_analyzeSpecial (pos : Position) (special : Special) {args : List Form}
    (h : ∀ form ∈ args, form.Avoids c) :
    GivesClear c ns (analyzeSpecial sub scope pos special args) := by
  cases special with
  | ns => exact gives_throw _
  | define => exact givesClear_analyzeDefine hc hsub hns hspell pos h
  | block =>
    refine (gives_analyzeAll hsub hns hspell h).bind fun asts hasts => ?_
    exact gives_pure (everywhere_node (namesAvoid_of_nil rfl) hasts)
  | cond => exact givesClear_analyzeCond hsub hns hspell pos h
  | bind => exact givesClear_analyzeBind hc hsub hns hspell pos h
  | func => exact givesClear_analyzeFunc hc hsub hns hspell pos h
  | quote =>
    match args with
    | [] | _ :: _ :: _ => exact gives_throw _
    | [quoted] =>
      exact gives_pure (everywhere_node (namesAvoid_of_nil rfl) (by simp [Ast.parts]))
  | assign => exact givesClear_analyzeAssign hsub hns hspell pos h
  | throw =>
    match args with
    | [] | _ :: _ :: _ => exact gives_throw _
    | [value] =>
      refine (hsub scope value hns hspell (h value (by simp))).bind fun found hfound => ?_
      refine gives_pure (everywhere_node (namesAvoid_of_nil rfl) ?_)
      simpa [Ast.parts] using hfound
  | guard => exact givesClear_analyzeGuard hc hsub hns hspell pos h
  | new => exact givesClear_analyzeNew hsub hns hspell pos h
  | dot => exact givesClear_analyzeDot hc hsub hns hspell pos h

end Special

/-! ## Lists and other forms -/

theorem not_mem_memberHead {scope : Scope} {head : Form} (h : head.Avoids c) {member : String}
    (hmember : memberHead? scope head = some member) : c ∉ member.toList := by
  unfold memberHead? at hmember
  split at hmember
  · next name hname =>
    split at hmember
    · next first rest heq =>
      split at hmember
      · contradiction
      · obtain rfl := Option.some.inj hmember
        have hplain : c ∉ name.toList := (Form.Symbols.plainName? h hname).2
        rw [heq] at hplain
        simpa using fun hmem => hplain (List.mem_cons_of_mem _ hmem)
    · contradiction
  · contradiction

theorem avoids_constructorHead {head : Form} (h : head.Avoids c) {ctor : Symbol}
    (hctor : constructorHead? head = some ctor) : ctor.Avoids c := by
  unfold constructorHead? at hctor
  split at hctor
  · next sym hsym =>
    obtain ⟨hns, hname⟩ := Form.Symbols.symbol? h hsym
    dsimp only at hctor
    split at hctor
    · obtain rfl := Option.some.inj hctor
      refine ⟨hns, ?_⟩
      rw [String.toList_ofList]
      exact fun hmem => hname (List.mem_of_mem_dropLast hmem)
    · contradiction
  · contradiction

include hc

theorem givesClear_analyzeList {sub : Analyzer} (hsub : Clear c ns sub) {scope : Scope}
    (hns : scope.ns = ns) (hspell : scope.spell = munge) (pos : Position) {head : Form}
    {args : List Form} (hhead : head.Avoids c) (hargs : ∀ form ∈ args, form.Avoids c) :
    GivesClear c ns (analyzeList sub scope pos head args) := by
  have hall := gives_analyzeAll hsub hns hspell hargs
  unfold analyzeList
  split
  · exact givesClear_analyzeSpecial hc hsub hns hspell pos _ hargs
  · split
    · next member hmember =>
      exact givesClear_analyzeMember hc hsub hns hspell pos (not_mem_memberHead hhead hmember) hargs
    · split
      · next ctor hctor =>
        have hsym := avoids_constructorHead hhead hctor
        refine (givesClear_analyzeSymbol hc hns hspell hsym head.pos).bind fun found hfound =>
          hall.bind fun asts hasts => ?_
        exact gives_pure (everywhere_node (namesAvoid_of_nil rfl)
          (List.forall_mem_cons.mpr ⟨hfound, hasts⟩))
      · refine (hsub scope head hns hspell hhead).bind fun callee hcallee => ?_
        split
        · exact gives_throw _
        · refine hall.bind fun asts hasts => ?_
          exact gives_pure (everywhere_node (namesAvoid_of_nil rfl)
            (List.forall_mem_cons.mpr ⟨hcallee, hasts⟩))

theorem clear_analyzeWith {sub : Analyzer} (hsub : Clear c ns sub) :
    Clear c ns (analyzeWith sub) := by
  intro scope form hns hspell hform
  have hconst : ∀ {a : Ast}, ownNames a = [] → a.parts = [] →
      GivesClear c ns (pure a) := by
    intro a hnames hparts
    exact gives_pure (everywhere_node (namesAvoid_of_nil hnames) (by simp [hparts]))
  cases form with
  | atom pos value =>
    cases value with
    | symbol sym => exact givesClear_analyzeSymbol hc hns hspell (hform sym rfl) pos
    | _ => exact hconst rfl rfl
  | vector pos items | set pos items =>
    refine (gives_analyzeAll hsub hns hspell (Form.allItems_iff.mp hform)).bind
      fun asts hasts => ?_
    exact gives_pure (everywhere_node (namesAvoid_of_nil rfl) hasts)
  | map pos entries =>
    refine (gives_analyzeEntries hsub hns hspell (Form.allEntries_iff.mp hform)).bind
      fun found hfound => ?_
    exact gives_pure (everywhere_node (namesAvoid_of_nil rfl) hfound)
  | list pos items =>
    cases items with
    | nil => exact hconst rfl rfl
    | cons head args =>
      obtain ⟨hhead, hargs⟩ := List.forall_mem_cons.mp (Form.allItems_iff.mp hform)
      exact givesClear_analyzeList hc hsub hns hspell pos hhead hargs

theorem clear_analyzeTo (depth : Nat) : Clear c ns (analyzeTo depth) := by
  induction depth with
  | zero => exact fun _ _ _ _ _ => gives_throw _
  | succ depth ih => exact clear_analyzeWith hc ih

end Expressions

/-! ## Declarations -/

section Declarations

variable {c : Char}

theorem ns_of_addOption? {lib lib' : LibSpec} {option : Form × Form}
    (h : lib.addOption? option = some lib') : lib'.ns = lib.ns := by
  obtain ⟨key, -, h⟩ := Option.bind_eq_some_iff.mp h
  split at h
  · obtain ⟨target, -, h⟩ := Option.bind_eq_some_iff.mp h
    rw [← Option.some.inj h]
  · split at h
    · obtain ⟨items, -, h⟩ := Option.bind_eq_some_iff.mp h
      obtain ⟨names, -, h⟩ := Option.bind_eq_some_iff.mp h
      rw [← Option.some.inj h]
    · contradiction

theorem ns_of_addOptions {options : List (Form × Form)} {lib lib' : LibSpec}
    (h : options.foldlM LibSpec.addOption? lib = some lib') : lib'.ns = lib.ns := by
  induction options generalizing lib with
  | nil => rw [← Option.some.inj h]
  | cons option rest ih =>
    rw [List.foldlM_cons] at h
    obtain ⟨first, hfirst, hrest⟩ := Option.bind_eq_some_iff.mp h
    exact (ih hrest).trans (ns_of_addOption? hfirst)

theorem not_mem_render (hc : isSpelling c = false) {sym : Symbol} (h : sym.Avoids c) :
    c ∉ sym.render.toList := by
  obtain ⟨hns, hname⟩ := h
  have hslash : c ∉ "/".toList := not_mem_of_spelling hc (by decide)
  unfold Symbol.render
  split
  · next ns heq =>
    simp only [String.toList_append, List.mem_append, not_or]
    exact ⟨⟨hns ns heq, hslash⟩, hname⟩
  · exact hname

/-- No library of the declaration has the character in its name, nor has the declaration itself. -/
structure NsDecl.Avoids (c : Char) (decl : NsDecl) : Prop where
  name : c ∉ decl.name.toList
  libraries : ∀ lib ∈ decl.libraries, c ∉ lib.toList

variable (hc : isSpelling c = false)
include hc

theorem not_mem_ns_of_ofForm? {spec : Form} (h : spec.Avoids c) {lib : LibSpec}
    (hlib : LibSpec.ofForm? spec = some lib) : c ∉ lib.ns.toList := by
  unfold LibSpec.ofForm? at hlib
  split at hlib
  · next pos sym =>
    obtain ⟨name, hname, rfl⟩ := Option.map_eq_some_iff.mp hlib
    exact (Form.Symbols.plainName? h hname).2
  · next pos head options =>
    obtain ⟨sym, hsym, hlib⟩ := Option.bind_eq_some_iff.mp hlib
    obtain ⟨pairs, -, hlib⟩ := Option.bind_eq_some_iff.mp hlib
    have hhead : head.Avoids c := Form.allItems_iff.mp h head List.mem_cons_self
    rw [ns_of_addOptions hlib]
    exact not_mem_render hc (Form.Symbols.symbol? hhead hsym)
  · contradiction

omit hc in
theorem avoids_addLib {d : Draft} (hd : d.decl.Avoids c) (kind : ClauseKind) {lib : LibSpec}
    (hlib : c ∉ lib.ns.toList) : (d.addLib kind lib).decl.Avoids c := by
  refine ⟨by rw [Draft.name_addLib]; exact hd.name, fun other hother => ?_⟩
  rcases (d.libraries_addLib kind lib).mp hother with hother | rfl
  · exact hd.libraries other hother
  · exact hlib

theorem avoids_addSpecs {kind : ClauseKind} {specs : List Form}
    (h : ∀ spec ∈ specs, spec.Avoids c) {d d' : Draft} (hd : d.decl.Avoids c)
    (hrun : d.addSpecs kind specs = .ok d') : d'.decl.Avoids c := by
  induction specs generalizing d with
  | nil => rwa [← Except.ok.inj hrun]
  | cons spec rest ih =>
    obtain ⟨hspec, hrest⟩ := List.forall_mem_cons.mp h
    rw [Draft.addSpecs] at hrun
    cases hlib : LibSpec.ofForm? spec.unquote with
    | none =>
      rw [hlib] at hrun
      contradiction
    | some lib =>
      rw [hlib] at hrun
      have hns := not_mem_ns_of_ofForm? hc (Form.Symbols.unquote hspec) hlib
      exact ih hrest (avoids_addLib hd kind hns) hrun

theorem avoids_addClause {clause : Form} (h : clause.Avoids c) {d d' : Draft}
    (hd : d.decl.Avoids c) (hrun : d.addClause clause = .ok d') : d'.decl.Avoids c := by
  unfold Draft.addClause at hrun
  split at hrun
  · rwa [← Except.ok.inj hrun]
  · next pos head specs =>
    have hspecs : ∀ spec ∈ specs, spec.Avoids c :=
      fun spec hspec => Form.allItems_iff.mp h spec (List.mem_cons_of_mem _ hspec)
    split at hrun
    · contradiction
    · split at hrun
      · exact avoids_addSpecs hc hspecs hd hrun
      · split at hrun
        · rwa [← Except.ok.inj hrun]
        · contradiction
  · contradiction

theorem avoids_addClauses {clauses : List Form} (h : ∀ clause ∈ clauses, clause.Avoids c)
    {d d' : Draft} (hd : d.decl.Avoids c) (hrun : d.addClauses clauses = .ok d') :
    d'.decl.Avoids c := by
  induction clauses generalizing d with
  | nil => rwa [← Except.ok.inj hrun]
  | cons clause rest ih =>
    obtain ⟨hclause, hrest⟩ := List.forall_mem_cons.mp h
    rw [Draft.addClauses] at hrun
    cases hfirst : d.addClause clause with
    | error e =>
      rw [hfirst] at hrun
      contradiction
    | ok d₁ =>
      rw [hfirst] at hrun
      exact ih hrest (avoids_addClause hc hclause hd hfirst) hrun

theorem avoids_ofItems {pos : Position} {items : List Form} (h : ∀ form ∈ items, form.Avoids c)
    {d : Draft} (hrun : Draft.ofItems pos items = .ok d) : d.decl.Avoids c := by
  obtain ⟨name, clauses, plain, rfl, hplain, hclauses⟩ := Draft.ofItems_eq_ok hrun
  obtain ⟨hname, hrest⟩ := List.forall_mem_cons.mp h
  have hfirst : c ∉ plain.toList := (Form.Symbols.plainName? hname hplain).2
  exact avoids_addClauses hc hrest ⟨hfirst, by simp [NsDecl.libraries]⟩ hclauses

theorem NsDecl.Avoids.everywhere {decl : NsDecl} (h : decl.Avoids c) (pos : Position) :
    Everywhere (NamesAvoid c) (.ns pos decl) := by
  refine everywhere_node ?_ (by simp [Ast.parts])
  intro name hname
  rcases List.mem_cons.mp hname with rfl | hname
  · exact not_mem_mungePath hc h.name
  · obtain ⟨dep, hdep, rfl⟩ := List.mem_map.mp hname
    refine not_mem_mungePath hc (h.libraries dep (List.mem_append_left _ ?_))
    simpa [NsDecl.runtimeDeps, distinct] using hdep

/-- Where neither the form nor what is known about the current namespace has the character, no name
in the analyzed form has it. -/
theorem namesAvoid_of_analyze {ns : String} {form : Form} {env env' : Env} {ast : Ast}
    (henv : env.Avoids c ns) (hform : form.Avoids c) (h : analyze ns form env = .ok ast env') :
    Everywhere (NamesAvoid c) ast := by
  rcases analyze_top_cases ns form env with ⟨pos, head, items, rfl, -, hrun⟩ | ⟨-, hrun⟩
  · have hitems : ∀ item ∈ items, item.Avoids c :=
      fun item hitem => Form.allItems_iff.mp hform item (List.mem_cons_of_mem _ hitem)
    rw [hrun, analyzeDeclaration] at h
    cases hdraft : Draft.ofItems pos items with
    | error e =>
      rw [hdraft] at h
      contradiction
    | ok d =>
      rw [hdraft] at h
      obtain ⟨rfl, -⟩ := EStateM.Result.ok.inj h
      exact (avoids_ofItems hc hitems hdraft).everywhere hc pos
  · rw [hrun] at h
    have hclear := clear_analyzeTo hc form.depth ⟨ns, [], munge⟩ form rfl rfl hform
    exact (hclear _ _ _ henv.register h).1

end Declarations

/-- Forms without the character bring it into no environment, whatever the namespaces are called in
which they are analyzed. -/
theorem Env.avoids_after {c : Char} (hc : isSpelling c = false) {history : List (String × Form)}
    (hhistory : ∀ entry ∈ history, entry.2.Avoids c) {ns : String} (hns : c ∉ ns.toList) :
    (Env.initial.after history).Avoids c ns := by
  refine ⟨hns, fun target htarget => ?_⟩
  obtain ⟨e, he, rfl⟩ : ∃ e ∈ (Env.initial.after history).links ns, e.2 = target := by
    rw [← List.mem_map, links, List.map_append]
    exact htarget
  rcases Env.mem_links_after he with hinitial | ⟨entry, hentry, d, hdraft, -, hd⟩
  · have hnone : Env.initial.links ns = [] := by
      rw [Env.initial, Env.links_register, Env.links_register]
      rfl
    rw [hnone] at hinitial
    contradiction
  · obtain ⟨pos, head, items, heq, hitems⟩ := Form.draft?_eq_some hdraft
    have hform : (Form.list pos (head :: items)).Avoids c := heq ▸ hhistory entry hentry
    have havoids := avoids_ofItems hc
      (fun item hitem => Form.allItems_iff.mp hform item (List.mem_cons_of_mem _ hitem)) hitems
    exact havoids.libraries e.2 (Draft.target_mem_libraries hitems e hd)

theorem clear_of_analyze {c : Char} (hc : isControl c = true) {ns : String} {form : Form}
    {env env' : Env} {ast : Ast} (henv : env.Avoids c ns) (hform : form.Avoids c)
    (h : analyze ns form env = .ok ast env') : Everywhere (NamesAvoid c) ast :=
  namesAvoid_of_analyze (not_spelling_of_isControl hc) henv hform h

end LiveLisp.Analysis
