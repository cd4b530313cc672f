import LiveLisp.Analysis.Expression
import LiveLisp.Proofs.Fallible
import LiveLisp.Proofs.Form.Tree
import Mathlib.Data.List.TakeDrop
/-!
# Analysis without a bound on the depth

Analysis goes down a form with a bound on its depth, and takes the depth of the form itself for the
bound.  A greater bound makes no difference, so that an expression is analyzed by analyzing its
parts as expressions: `analyzeExpression_eq` is the equation that all later proofs go by.
-/

namespace LiveLisp.Form

theorem depth_le_depthAll {f : Form} {forms : List Form} (h : f ∈ forms) :
    f.depth ≤ depthAll forms := by
  induction forms with
  | nil => simp at h
  | cons g forms ih =>
    rw [depthAll]
    rcases List.mem_cons.mp h with rfl | h
    · omega
    · have hle := ih h
      omega

theorem depth_le_depthEntries {e : Form × Form} {entries : List (Form × Form)} (h : e ∈ entries) :
    e.1.depth ≤ depthEntries entries ∧ e.2.depth ≤ depthEntries entries := by
  induction entries with
  | nil => simp at h
  | cons e' entries ih =>
    obtain ⟨k, v⟩ := e'
    rw [depthEntries]
    rcases List.mem_cons.mp h with rfl | h
    · dsimp only
      omega
    · have hle := ih h
      omega

theorem depth_pos (f : Form) : 0 < f.depth := by
  cases f <;> simp [depth]

end LiveLisp.Form

namespace LiveLisp.Analysis

open Fallible
open Text (Position)

/-! ## The parts of special forms -/

theorem mem_of_definitionParts {args : List Form} {name : Form} {init : Option Form}
    (h : definitionParts args = some (name, init)) : name ∈ args ∧ ∀ f ∈ init, f ∈ args := by
  unfold definitionParts at h
  split at h
  · obtain ⟨rfl, rfl⟩ := Prod.mk.inj (Option.some.inj h)
    simp
  · obtain ⟨rfl, rfl⟩ := Prod.mk.inj (Option.some.inj h)
    simp
  · split at h
    · obtain ⟨rfl, rfl⟩ := Prod.mk.inj (Option.some.inj h)
      simp
    · contradiction
  · contradiction

theorem mem_of_condParts {args : List Form} {test thenBranch : Form} {elseBranch : Option Form}
    (h : condParts args = some (test, thenBranch, elseBranch)) :
    test ∈ args ∧ thenBranch ∈ args ∧ ∀ f ∈ elseBranch, f ∈ args := by
  unfold condParts at h
  split at h
  · simp only [Option.some.injEq, Prod.mk.injEq] at h
    obtain ⟨rfl, rfl, rfl⟩ := h
    simp
  · simp only [Option.some.injEq, Prod.mk.injEq] at h
    obtain ⟨rfl, rfl, rfl⟩ := h
    simp
  · contradiction

theorem returns_functionName (args : List Form) :
    Returns (fun p => ∀ f ∈ p.2, f ∈ args) (functionName args) := by
  unfold functionName
  cases args with
  | nil => exact returns_pure (by simp)
  | cons first rest =>
    dsimp only
    split
    · exact returns_bind fun name => returns_pure fun f hf => List.mem_cons_of_mem first hf
    · exact returns_pure fun f hf => hf

/-! ## Analyzers that agree -/

/-- Two ways to analyze forms that agree on all forms of a depth below `n`. -/
def AgreeBelow (n : Nat) (sub sub' : Analyzer) : Prop :=
  ∀ scope form, form.depth < n → sub scope form = sub' scope form

section Agree

variable {n : Nat} {sub sub' : Analyzer} (h : AgreeBelow n sub sub')
include h

theorem analyzeAll_congr {forms : List Form} (hforms : ∀ f ∈ forms, f.depth < n) (scope : Scope) :
    analyzeAll sub scope forms = analyzeAll sub' scope forms := by
  induction forms with
  | nil => rfl
  | cons form forms ih =>
    have hform := h scope form (hforms form (by simp))
    have hrest := ih fun f hf => hforms f (by simp [hf])
    simp only [analyzeAll, hform, hrest]

theorem analyzeEntries_congr {entries : List (Form × Form)}
    (hentries : ∀ e ∈ entries, e.1.depth < n ∧ e.2.depth < n) (scope : Scope) :
    analyzeEntries sub scope entries = analyzeEntries sub' scope entries := by
  induction entries with
  | nil => rfl
  | cons entry entries ih =>
    obtain ⟨hkey, hvalue⟩ := hentries entry (by simp)
    have hrest := ih fun e he => hentries e (by simp [he])
    simp only [analyzeEntries, h scope entry.1 hkey, h scope entry.2 hvalue, hrest]

theorem analyzeOption_congr {form : Option Form} (hform : ∀ f ∈ form, f.depth < n)
    (scope : Scope) : analyzeOption sub scope form = analyzeOption sub' scope form := by
  cases form with
  | none => rfl
  | some form => simp only [analyzeOption, h scope form (hform form rfl)]

variable {args : List Form} (hargs : ∀ f ∈ args, f.depth < n)
include hargs

theorem analyzeDefine_congr (scope : Scope) (pos : Position) :
    analyzeDefine sub scope pos args = analyzeDefine sub' scope pos args := by
  unfold analyzeDefine
  cases hparts : definitionParts args with
  | none => rfl
  | some parts =>
    obtain ⟨name, init⟩ := parts
    obtain ⟨-, hinit⟩ := mem_of_definitionParts hparts
    simp only [analyzeOption_congr h fun f hf => hargs f (hinit f hf)]

theorem analyzeCond_congr (scope : Scope) (pos : Position) :
    analyzeCond sub scope pos args = analyzeCond sub' scope pos args := by
  unfold analyzeCond
  cases hparts : condParts args with
  | none => rfl
  | some parts =>
    obtain ⟨test, thenBranch, elseBranch⟩ := parts
    obtain ⟨htest, hthen, helse⟩ := mem_of_condParts hparts
    simp only [h scope test (hargs test htest), h scope thenBranch (hargs thenBranch hthen),
      analyzeOption_congr h fun f hf => hargs f (helse f hf)]

omit hargs in
theorem analyzeBindings_congr {pairs : List (Form × Form)} (hpairs : ∀ p ∈ pairs, p.2.depth < n)
    (scope : Scope) : analyzeBindings sub scope pairs = analyzeBindings sub' scope pairs := by
  induction pairs generalizing scope with
  | nil => rfl
  | cons pair pairs ih =>
    obtain ⟨name, init⟩ := pair
    have hinit := h scope init (hpairs (name, init) (by simp))
    have hrest := fun inner => ih (fun p hp => hpairs p (by simp [hp])) inner
    simp only [analyzeBindings, hinit, hrest]

theorem analyzeBind_congr (scope : Scope) (pos : Position) :
    analyzeBind sub scope pos args = analyzeBind sub' scope pos args := by
  unfold analyzeBind
  split
  · next vectorPos items body =>
    have hitems : ∀ f ∈ items, f.depth < n := by
      intro f hf
      have hle := Form.depth_le_depthAll hf
      have hlt := hargs (.vector vectorPos items) (by simp)
      rw [Form.depth] at hlt
      omega
    have hbody : ∀ f ∈ body, f.depth < n := fun f hf => hargs f (by simp [hf])
    cases hpairs : Form.pairUp items with
    | none => rfl
    | some pairs =>
      have hinits : ∀ p ∈ pairs, p.2.depth < n := by
        intro p hp
        apply hitems
        rw [← Form.flatMap_of_pairUp hpairs]
        exact List.mem_flatMap.mpr ⟨p, hp, by simp⟩
      simp only [analyzeBindings_congr h hinits, analyzeAll_congr h hbody]
  · rfl

theorem analyzeFunc_congr (scope : Scope) (pos : Position) :
    analyzeFunc sub scope pos args = analyzeFunc sub' scope pos args := by
  unfold analyzeFunc
  apply (returns_functionName args).bind_congr
  rintro ⟨name, rest⟩ hrest
  dsimp only at hrest ⊢
  split
  · rfl
  · next vectorPos params body =>
    have hbody : ∀ f ∈ body, f.depth < n := fun f hf => hargs f (hrest f (by simp [hf]))
    simp only [analyzeAll_congr h hbody]
  · rfl

theorem analyzeAssign_congr (scope : Scope) (pos : Position) :
    analyzeAssign sub scope pos args = analyzeAssign sub' scope pos args := by
  unfold analyzeAssign
  split
  · next target value =>
    simp only [h scope target (hargs target (by simp)), h scope value (hargs value (by simp))]
  · rfl

omit hargs in
theorem analyzeClauses_congr {clauses : List Form} (hclauses : ∀ f ∈ clauses, f.depth < n)
    (scope : Scope) (done : Clauses) :
    analyzeClauses sub scope done clauses = analyzeClauses sub' scope done clauses := by
  induction clauses generalizing done with
  | nil => rfl
  | cons form clauses ih =>
    have hitems : ∀ f ∈ (form.list?.getD []).drop 1, f.depth < n := by
      intro f hf
      have hlt := hclauses form (by simp)
      cases form with
      | list pos items =>
        have hle := Form.depth_le_depthAll (List.mem_of_mem_drop hf)
        rw [Form.depth] at hlt
        change f.depth ≤ Form.depthAll items at hle
        omega
      | _ => simp [Form.list?] at hf
    have hrest := fun done => ih (fun f hf => hclauses f (by simp [hf])) done
    unfold analyzeClauses
    generalize (form.list?.getD []).drop 1 = items at hitems
    have hcleanup := analyzeAll_congr h hitems scope
    rcases items with _ | ⟨type, _ | ⟨binding, body⟩⟩
    · simp only [hcleanup, hrest]
    · simp only [hcleanup, hrest]
    · have hbody : ∀ f ∈ body, f.depth < n := fun f hf => hitems f (by simp [hf])
      simp only [analyzeAll_congr h hbody, hcleanup, hrest]

theorem analyzeGuard_congr (scope : Scope) (pos : Position) :
    analyzeGuard sub scope pos args = analyzeGuard sub' scope pos args := by
  have hbody : ∀ f ∈ args.takeWhile (fun form => !isClause form), f.depth < n :=
    fun f hf => hargs f ((List.takeWhile_sublist _).mem hf)
  have hclauses : ∀ f ∈ args.dropWhile (fun form => !isClause form), f.depth < n :=
    fun f hf => hargs f ((List.dropWhile_sublist _).mem hf)
  unfold analyzeGuard
  simp only [List.span_eq_takeWhile_dropWhile, analyzeAll_congr h hbody,
    analyzeClauses_congr h hclauses]

theorem analyzeNew_congr (scope : Scope) (pos : Position) :
    analyzeNew sub scope pos args = analyzeNew sub' scope pos args := by
  unfold analyzeNew
  cases args with
  | nil => rfl
  | cons ctor args =>
    have hrest : ∀ f ∈ args, f.depth < n := fun f hf => hargs f (by simp [hf])
    simp only [h scope ctor (hargs ctor (by simp)), analyzeAll_congr h hrest]

theorem analyzeMember_congr (scope : Scope) (pos : Position) (member : String) :
    analyzeMember sub scope pos member args = analyzeMember sub' scope pos member args := by
  unfold analyzeMember
  cases args with
  | nil => rfl
  | cons target args =>
    have hrest : ∀ f ∈ args, f.depth < n := fun f hf => hargs f (by simp [hf])
    simp only [h scope target (hargs target (by simp)), analyzeAll_congr h hrest]

theorem analyzeDot_congr (scope : Scope) (pos : Position) :
    analyzeDot sub scope pos args = analyzeDot sub' scope pos args := by
  unfold analyzeDot
  dsimp only
  split
  · next target listPos member inner =>
    have hinner : ∀ f ∈ target :: inner, f.depth < n := by
      intro f hf
      rcases List.mem_cons.mp hf with rfl | hf
      · exact hargs f (by simp)
      · have hle := Form.depth_le_depthAll (List.mem_cons_of_mem member hf)
        have hlt := hargs (.list listPos (member :: inner)) (by simp)
        rw [Form.depth] at hlt
        omega
    simp only [analyzeMember_congr h hinner]
  · next target member rest _ =>
    have hrest : ∀ f ∈ target :: rest, f.depth < n := by
      intro f hf
      rcases List.mem_cons.mp hf with rfl | hf
      · exact hargs f (by simp)
      · exact hargs f (by simp [hf])
    simp only [analyzeMember_congr h hrest]
  · rfl

theorem analyzeSpecial_congr (scope : Scope) (pos : Position) (special : Special) :
    analyzeSpecial sub scope pos special args = analyzeSpecial sub' scope pos special args := by
  unfold analyzeSpecial
  cases special with
  | ns | quote => rfl
  | define => exact analyzeDefine_congr h hargs scope pos
  | block => simp only [analyzeAll_congr h hargs]
  | cond => exact analyzeCond_congr h hargs scope pos
  | bind => exact analyzeBind_congr h hargs scope pos
  | func => exact analyzeFunc_congr h hargs scope pos
  | assign => exact analyzeAssign_congr h hargs scope pos
  | throw =>
    dsimp only
    split
    · next value => simp only [h scope value (hargs value (by simp))]
    · rfl
  | guard => exact analyzeGuard_congr h hargs scope pos
  | new => exact analyzeNew_congr h hargs scope pos
  | dot => exact analyzeDot_congr h hargs scope pos

theorem analyzeList_congr {head : Form} (hhead : head.depth < n) (scope : Scope) (pos : Position) :
    analyzeList sub scope pos head args = analyzeList sub' scope pos head args := by
  unfold analyzeList analyzeCall
  simp only [analyzeSpecial_congr h hargs, analyzeMember_congr h hargs, analyzeAll_congr h hargs,
    h scope head hhead]

end Agree

/-- What analysis does with a form depends on the parts of the form. -/
theorem analyzeWith_congr {sub sub' : Analyzer} {form : Form}
    (h : AgreeBelow form.depth sub sub') (scope : Scope) :
    analyzeWith sub scope form = analyzeWith sub' scope form := by
  have hitems : ∀ {items : List Form}, form.depth = Form.depthAll items + 1 →
      ∀ f ∈ items, f.depth < form.depth := by
    intro items hdepth f hf
    have hle := Form.depth_le_depthAll hf
    omega
  match form with
  | .atom pos value => cases value <;> rfl
  | .vector pos items | .set pos items =>
    simp only [analyzeWith, analyzeAll_congr h (hitems rfl)]
  | .map pos entries =>
    have hentries : ∀ e ∈ entries,
        e.1.depth < (Form.map pos entries).depth ∧ e.2.depth < (Form.map pos entries).depth := by
      intro e he
      have hle := Form.depth_le_depthEntries he
      rw [Form.depth]
      omega
    simp only [analyzeWith, analyzeEntries_congr h hentries]
  | .list pos [] => rfl
  | .list pos (head :: args) =>
    obtain ⟨hhead, hargs⟩ := List.forall_mem_cons.mp (hitems rfl)
    exact analyzeList_congr h hargs hhead scope pos

/-- Bounds that the form keeps make no difference. -/
theorem analyzeTo_congr {form : Form} {bound bound' : Nat} (h : form.depth ≤ bound)
    (h' : form.depth ≤ bound') (scope : Scope) :
    analyzeTo bound scope form = analyzeTo bound' scope form := by
  have hpos := form.depth_pos
  induction bound generalizing bound' form scope with
  | zero => omega
  | succ bound ih =>
    cases bound' with
    | zero => omega
    | succ bound' =>
      rw [analyzeTo, analyzeTo]
      apply analyzeWith_congr
      intro inner part hpart
      exact ih (by omega) (by omega) inner part.depth_pos

/-- An expression is analyzed by analyzing its parts. -/
theorem analyzeExpression_eq (scope : Scope) (form : Form) :
    analyzeExpression scope form = analyzeWith analyzeExpression scope form := by
  have hpos := form.depth_pos
  calc analyzeExpression scope form
      = analyzeTo (form.depth + 1) scope form := analyzeTo_congr (by omega) (by omega) scope
    _ = analyzeWith (analyzeTo form.depth) scope form := rfl
    _ = analyzeWith analyzeExpression scope form := by
        apply analyzeWith_congr
        intro inner part hpart
        exact analyzeTo_congr (by omega) (Nat.le_refl _) inner

end LiveLisp.Analysis
