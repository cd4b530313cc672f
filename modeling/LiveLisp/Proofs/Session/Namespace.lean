import LiveLisp.Proofs.Reading.Symbols
import LiveLisp.Proofs.Session.Trace
/-!
# The current namespace

At every point of a run the current namespace is known.  From one prompt to the next it changes only
if a declaration was typed and answered with success, to the declared namespace, or if `in-ns`
succeeded, to its argument.  A required namespace does not change it because the current one is
declared again under its own name: every name that comes to be the current one was read, and a name
that was read stands for itself.
-/

namespace LiveLisp.Session

open Backend (Result)
open Fallible

variable {β : Type}

/-! ## Forms by their heads -/

/-- Only a form that goes as it is can be a declaration. -/
theorem ofForm_of_isHeadedBy {form : Form}
    (h : ((Wrap.ofForm form).apply form).isHeadedBy "ns" = true) :
    form.isHeadedBy "ns" = true ∧ Wrap.ofForm form = .identity := by
  have hwrap : Wrap.ofForm form = .identity := by
    by_contra hwrap
    rw [isHeadedBy_apply hwrap] at h
    contradiction
  rw [hwrap] at h
  exact ⟨h, hwrap⟩

theorem plainName?_symbol {ns : String} (h : Symbol.ofText ns = .plain ns) (p : Text.Position) :
    (Form.symbol ns p).plainName? = some ns := by
  change (Symbol.ofText ns).plainName? = some ns
  rw [h]
  rfl

theorem declaredName?_declarationOf {ns : String} (h : Symbol.ofText ns = .plain ns)
    (clause : String) (form : Form) : (declarationOf ns clause form).declaredName? = some ns :=
  plainName?_symbol h form.pos

theorem declaredName?_startingForm {ns : String} (h : Symbol.ofText ns = .plain ns) :
    (startingForm ns).declaredName? = some ns := plainName?_symbol h .start

theorem legible_declaredName {form : Form} (h : form.Legible) {ns : String}
    (hname : form.declaredName? = some ns) : Symbol.ofText ns = .plain ns := by
  unfold Form.declaredName? at hname
  split at hname
  · exact Form.Legible.plainName (h.part (List.mem_cons_of_mem _ List.mem_cons_self)) hname
  · contradiction

theorem legible_namespaceArgument {form : Form} (h : form.Legible) {special ns : String}
    (harg : namespaceArgument special form = .ok ns) : Symbol.ofText ns = .plain ns := by
  unfold namespaceArgument at harg
  split at harg
  · next argument hargument =>
    split at harg
    · next name hname =>
      obtain rfl := Except.ok.inj harg
      have hlegible : argument.Legible := by
        apply h.part
        unfold arguments Form.list? at hargument
        split at hargument
        · next items => exact List.mem_of_mem_tail (hargument ▸ List.mem_singleton_self _)
        · contradiction
      exact Form.Legible.plainName hlegible.unquote hname
    · contradiction
  · contradiction

/-! ## Evaluations -/

/-- Where an evaluation of `form`, as it was wrapped, leads. -/
inductive Leads (form : Form) (s : Session β) :
    EStateM.Result SessionError (Session β) Evaluation → Prop
  | failed {e : SessionError} {s' : Session β} (hstate : s'.state = s.state) :
    Leads form s (.error e s')
  | stays {e : Evaluation} {s' : Session β} (hstate : s'.state = s.state)
    (h : form.isHeadedBy "ns" = true → e.result.isSuccess = false) : Leads form s (.ok e s')
  | enters {e : Evaluation} {s' : Session β} {ns : String}
    (hheaded : form.isHeadedBy "ns" = true) (hsuccess : e.result.isSuccess = true)
    (hname : form.declaredName? = some ns) (hstate : s'.state = s.state.enter ns)
    (hknown : s'.env.contains ns = true) : Leads form s (.ok e s')

theorem leads_evaluateForm (c : Setting β) (file : String) (wrap : Wrap) (form : Form)
    (s : Session β) : Leads (wrap.apply form) s (evaluateForm c file wrap form s) := by
  cases hanalyze : Analysis.analyze s.state.ns (wrap.apply form) s.env with
  | error e env =>
    rw [evaluateForm_of_error hanalyze]
    exact .failed rfl
  | ok ast env =>
    have hkind := Analysis.analyzed_of_analyze hanalyze
    rw [evaluateForm_of_ok hanalyze]
    generalize scriptOf c.options (c.clock s.exchanges.length) form ast = js
    rcases submit_cases c file js form ast { s with env := env } with ⟨e, s', hfail, hbehind⟩ |
      ⟨result, s₁, s₂, s₃, hshow, hload, hsend, hok⟩
    · rw [hfail]
      exact .failed (hbehind _ background_state)
    · rw [hok]
      have hstate₁ : s₁.state = s.state := hshow.state
      have hstate₂ := background_state.loadDeclared c ast s₁
      have hstate₃ := background_state.send c file form.pos.line js s₂
      have henv : s₁.env = env := hshow.env
      have hgrows₂ := (sustained_grows c).composes.loadDeclared (sustained_grows c).load ast s₁
      have hgrows₃ := (sustained_grows c).send c file form.pos.line js s₂
      rw [after_of_ok hload] at hstate₂ hgrows₂
      rw [after_of_ok hsend] at hstate₃ hgrows₃
      rw [henv] at hgrows₂
      have hsame : s₃.state = s.state := hstate₃.trans (hstate₂.trans hstate₁)
      cases hresult : result.isSuccess with
      | false => exact .stays hsame fun _ => hresult
      | true =>
        rw [if_pos rfl]
        unfold declared
        generalize ast.nsDecl? = decl? at hkind
        cases hkind with
        | expression hheaded => exact .stays hsame (by simp [hheaded])
        | declaration hheaded hname hknown =>
          refine .enters hheaded hresult hname ?_ (hgrows₃ _ (hgrows₂ _ hknown))
          rw [← hsame]

/-! ## Special forms -/

/-- Dealing with `form` in `s` leads to the namespace `ns`. -/
inductive Enters (c : Setting β) (form : Form) (s : Session β) : String → Prop
  | declared {e : Evaluation} {s' : Session β} {ns : String}
    (hheaded : form.isHeadedBy "ns" = true) (hname : form.declaredName? = some ns)
    (heval : evaluateForm c promptFile .identity form s = .ok e s')
    (hsuccess : e.result.isSuccess = true) : Enters c form s ns
  | asked {s' : Session β} {ns : String} (hheaded : form.isHeadedBy "in-ns" = true)
    (harg : namespaceArgument "in-ns" form = .ok ns) (hrun : inNs c form s = .ok () s') :
    Enters c form s ns

theorem Enters.unique {c : Setting β} {form : Form} {s : Session β} {ns ns' : String}
    (h : Enters c form s ns) (h' : Enters c form s ns') : ns = ns' := by
  cases h with
  | declared hheaded hname _ _ =>
    cases h' with
    | declared _ hname' _ _ =>
      rw [hname] at hname'
      exact Option.some.inj hname'
    | asked hheaded' _ _ => exact absurd (Form.name_eq_of_isHeadedBy hheaded hheaded') (by decide)
  | asked hheaded harg _ =>
    cases h' with
    | declared hheaded' _ _ _ =>
      exact absurd (Form.name_eq_of_isHeadedBy hheaded hheaded') (by decide)
    | asked _ harg' _ =>
      rw [harg] at harg'
      exact Except.ok.inj harg'

theorem not_enters_of_isHeadedBy {c : Setting β} {form : Form} {s : Session β} {name : String}
    (h : form.isHeadedBy name = true) (hns : name ≠ "ns") (hinNs : name ≠ "in-ns") (ns : String) :
    ¬Enters c form s ns := by
  intro henters
  cases henters with
  | declared hheaded _ _ _ => exact hns (Form.name_eq_of_isHeadedBy h hheaded)
  | asked hheaded _ _ => exact hinNs (Form.name_eq_of_isHeadedBy h hheaded)

/-- Dealing with `form` led from `s` to `s'`, into a namespace that is known, or nowhere. -/
def Moves (c : Setting β) (form : Form) (s s' : Session β) : Prop :=
  (∃ ns, Enters c form s ns ∧ s'.state.ns = ns ∧ s'.env.contains ns = true) ∨
    (∀ ns, ¬Enters c form s ns) ∧ s'.state.ns = s.state.ns

/-- What comes of `in-ns`. -/
inductive Asked (form : Form) (s : Session β) :
    EStateM.Result SessionError (Session β) Unit → Prop
  | failed {e : SessionError} {s' : Session β} (hstate : s'.state = s.state) :
    Asked form s (.error e s')
  | enters {ns : String} {s' : Session β} (harg : namespaceArgument "in-ns" form = .ok ns)
    (hstate : s'.state = s.state.enter ns) (hknown : s'.env.contains ns = true) :
    Asked form s (.ok () s')

theorem asked_inNs (c : Setting β) (form : Form) (s : Session β) :
    Asked form s (inNs c form s) := by
  cases harg : namespaceArgument "in-ns" form with
  | error e =>
    unfold inNs
    rw [harg]
    exact .failed rfl
  | ok ns =>
    by_cases hknown : s.env.contains ns = true
    · rw [inNs_of_contains harg hknown]
      exact .enters harg rfl hknown
    · rw [inNs_of_not_contains harg (by simpa using hknown)]
      -- the namespace is registered before the runtime is asked
      let s₁ : Session β := { s with env := s.env.register ns }
      let code := "goog.provide('" ++ Munge.mungePath ns ++ "');"
      have hregistered : s₁.env.contains ns = true := s.env.contains_register_self ns
      have hstate := background_state.send c promptFile form.pos.line code s₁
      have hgrows := (sustained_grows c).send c promptFile form.pos.line code s₁
      change Asked form s ((send c promptFile form.pos.line code >>= _) s₁)
      cases hsend : send c promptFile form.pos.line code s₁ with
      | error e s₂ =>
        rw [after_of_error hsend] at hstate
        rw [bind_of_error hsend]
        exact .failed hstate
      | ok result s₂ =>
        rw [after_of_ok hsend] at hstate hgrows
        rw [bind_of_ok hsend]
        cases result.isSuccess with
        | false => exact .failed hstate
        | true =>
          refine .enters harg ?_ (hgrows ns hregistered)
          change s₂.state.enter ns = s.state.enter ns
          rw [hstate]

theorem moves_inNs (c : Setting β) {form : Form} (h : form.isHeadedBy "in-ns" = true)
    (s : Session β) : Moves c form s (after (inNs c form) s) := by
  have hasked := asked_inNs c form s
  cases hrun : inNs c form s with
  | error e s' =>
    rw [hrun] at hasked
    rw [after_of_error hrun]
    cases hasked with
    | failed hstate =>
      refine .inr ⟨?_, congrArg State.ns hstate⟩
      intro ns henters
      cases henters with
      | declared hheaded _ _ _ => exact absurd (Form.name_eq_of_isHeadedBy h hheaded) (by decide)
      | asked _ _ hrun' =>
        rw [hrun] at hrun'
        contradiction
  | ok u s' =>
    rw [hrun] at hasked
    rw [after_of_ok hrun]
    cases hasked with
    | enters harg hstate hknown =>
      exact .inl ⟨_, .asked h harg hrun, congrArg State.ns hstate, hknown⟩

/-- The current namespace stands for itself. -/
def Spelled (s : Session β) : Prop := Symbol.ofText s.state.ns = .plain s.state.ns

theorem quiet_ns : Quiet fun s s' : Session β => s'.state.ns = s.state.ns where
  refl _ := rfl
  trans h h' := h'.trans h
  world _ _ := rfl
  exchange _ _ _ := rfl
  tracer _ _ := rfl
  output _ := rfl
  input _ _ := rfl

/-- Declaring the current namespace again changes nothing. -/
theorem ns_evaluateForm_of_declaredName? (c : Setting β) (file : String) {form : Form}
    {s : Session β} (h : form.declaredName? = some s.state.ns) :
    (after (evaluateForm c file .identity form) s).state.ns = s.state.ns := by
  have hleads := leads_evaluateForm c file .identity form s
  unfold after
  cases hrun : evaluateForm c file .identity form s with
  | error e s' =>
    rw [hrun] at hleads
    cases hleads with
    | failed hstate => exact congrArg State.ns hstate
  | ok e s' =>
    rw [hrun] at hleads
    cases hleads with
    | stays hstate _ => exact congrArg State.ns hstate
    | enters _ _ hname hstate _ =>
      have hname' : form.declaredName? = some _ := hname
      rw [h] at hname'
      rw [Option.some.inj hname']
      exact congrArg State.ns hstate

theorem ns_requireBy (clause : String) (c : Setting β) (form : Form) {s : Session β}
    (h : Spelled s) : (after (requireBy clause c form) s).state.ns = s.state.ns := by
  unfold requireBy
  split
  · rfl
  · rw [after_bind_of_ok (rfl : (get : Run β _) s = .ok s s)]
    refine quiet_ns.after_bind (ns_evaluateForm_of_declaredName? c promptFile
      (declaredName?_declarationOf h clause form)) fun e => ?_
    split
    · exact quiet_ns.displayFailure c _ e
    · exact quiet_ns.pure _

theorem ns_keepingNs (action : Run β Unit) (s : Session β) :
    (after (keepingNs action) s).state.ns = s.state.ns := by
  unfold after keepingNs
  cases action s <;> rfl

theorem ns_loadFile (c : Setting β) (form : Form) (s : Session β) :
    (after (loadFile c form) s).state.ns = s.state.ns := by
  unfold loadFile
  split
  · rfl
  · rw [after_bind_of_ok (rfl : (get : Run β _) s = .ok s s)]
    split
    · rfl
    · exact ns_keepingNs _ s

theorem ns_loadNamespaceForm (c : Setting β) (form : Form) (s : Session β) :
    (after (loadNamespaceForm c form) s).state.ns = s.state.ns := by
  unfold loadNamespaceForm
  split
  · rfl
  · rw [after_bind_pure]
    exact congrArg State.ns (background_state.loadNamespace c _ s)

/-! ## Forms -/

theorem ns_remember (wrap : Wrap) (result : Result) :
    Keeps (fun s s' : Session β => s'.state.ns = s.state.ns) (remember wrap result) := by
  intro s
  unfold remember
  split
  · change (if result.isSuccess then s.state.recordSuccess result.value
      else s.state.recordFailure result.value).ns = s.state.ns
    split <;> rfl
  · rfl

/-- What is done once the form is evaluated. -/
def afterwards (c : Setting β) (wrap : Wrap) (form : Form) (e : Evaluation) : Run β Unit := do
  if e.result.isSuccess then
    printText (e.result.value ++ "\n")
    remember wrap e.result
  else
    remember wrap e.result
    displayFailure c form e

theorem ns_afterwards (c : Setting β) (wrap : Wrap) (form : Form) (e : Evaluation)
    (s : Session β) : (after (afterwards c wrap form e) s).state.ns = s.state.ns := by
  unfold afterwards
  split
  · exact quiet_ns.bind (quiet_ns.printText _) (fun _ => ns_remember wrap e.result) s
  · exact quiet_ns.bind (ns_remember wrap e.result)
      (fun _ => quiet_ns.displayFailure c form e) s

theorem grows_afterwards (c : Setting β) (wrap : Wrap) (form : Form) (e : Evaluation)
    (s : Session β) : s.env.Grows (after (afterwards c wrap form e) s).env := by
  have hR := sustained_grows c
  unfold afterwards
  split
  · exact hR.bind (hR.printText _) (fun _ => hR.remember wrap e.result) s
  · exact hR.bind (hR.remember wrap e.result) (fun _ => hR.displayFailure c form e) s

theorem Enters.declares {c : Setting β} {form : Form} {s : Session β} {ns : String}
    (h : Enters c form s ns) (hspecial : isSpecial form = false) :
    form.isHeadedBy "ns" = true ∧ ∃ e s',
      evaluateForm c promptFile (Wrap.ofForm form) form s = .ok e s' ∧
        e.result.isSuccess = true := by
  cases h with
  | declared hheaded hname heval hsuccess =>
    have hwrap : Wrap.ofForm form = .identity := if_pos hheaded
    rw [hwrap]
    exact ⟨hheaded, _, _, heval, hsuccess⟩
  | asked hheaded _ _ =>
    have hfound : isSpecial form = true :=
      List.any_eq_true.mpr ⟨"in-ns", by simp [specialNames], hheaded⟩
    rw [hspecial] at hfound
    contradiction

theorem moves_evalAndPrint (c : Setting β) {form : Form} (h : isSpecial form = false)
    (s : Session β) : Moves c form s (after (evalAndPrint c form) s) := by
  have hleads := leads_evaluateForm c promptFile (Wrap.ofForm form) form s
  change Moves c form s (after (evaluateForm c promptFile (Wrap.ofForm form) form >>=
    afterwards c (Wrap.ofForm form) form) s)
  cases hrun : evaluateForm c promptFile (Wrap.ofForm form) form s with
  | error e s' =>
    rw [hrun] at hleads
    rw [after_of_error (bind_of_error hrun)]
    cases hleads with
    | failed hstate =>
      refine .inr ⟨?_, congrArg State.ns hstate⟩
      intro ns henters
      obtain ⟨-, e', s'', heval, -⟩ := henters.declares h
      rw [hrun] at heval
      contradiction
  | ok e s' =>
    rw [hrun] at hleads
    rw [after_bind_of_ok hrun]
    have hns := ns_afterwards c (Wrap.ofForm form) form e s'
    have hgrows := grows_afterwards c (Wrap.ofForm form) form e s'
    cases hleads with
    | stays hstate hfailure =>
      refine .inr ⟨?_, hns.trans (congrArg State.ns hstate)⟩
      intro ns henters
      obtain ⟨hheaded, e', s'', heval, hsuccess⟩ := henters.declares h
      obtain ⟨rfl, rfl⟩ := EStateM.Result.ok.inj (hrun.symm.trans heval)
      have hwrap : Wrap.ofForm form = .identity := if_pos hheaded
      rw [hwrap] at hfailure
      rw [hfailure hheaded] at hsuccess
      contradiction
    | enters hheaded hsuccess hname hstate hknown =>
      obtain ⟨hdeclared, hwrap⟩ := ofForm_of_isHeadedBy hheaded
      rw [hwrap] at hname hrun
      exact .inl ⟨_, .declared hdeclared hname hrun hsuccess,
        hns.trans (congrArg State.ns hstate), hgrows _ hknown⟩

theorem moves_dispatch (c : Setting β) (form : Form) {s : Session β} (h : Spelled s) :
    Moves c form s (after (dispatch c builtins form) s) := by
  have hreport : ∀ (report : SessionError → String) (action : Run β Unit),
      Moves c form s (after action s) → Moves c form s (after (reporting report action) s) := by
    intro report action hmoves
    have hmoved := unmoved_reporting report action s
    unfold Moves at hmoves ⊢
    rwa [hmoved.state, hmoved.env]
  unfold dispatch
  cases hhandler : handler? builtins form with
  | none =>
    apply hreport
    exact moves_evalAndPrint c (handler?_builtins_eq_none_iff.mp hhandler) s
  | some handler =>
    apply hreport
    rcases handler?_builtins hhandler with ⟨hheaded, rfl⟩ | ⟨clause, hclause, hheaded, rfl⟩ |
      ⟨hheaded, rfl⟩ | ⟨hheaded, rfl⟩
    · exact moves_inNs c hheaded s
    · have hother : clause ≠ "ns" ∧ clause ≠ "in-ns" := by
        simp only [List.mem_cons, List.not_mem_nil, or_false] at hclause
        rcases hclause with rfl | rfl <;> decide
      exact .inr ⟨not_enters_of_isHeadedBy hheaded hother.1 hother.2, ns_requireBy clause c form h⟩
    · exact .inr ⟨not_enters_of_isHeadedBy hheaded (by decide) (by decide), ns_loadFile c form s⟩
    · exact .inr ⟨not_enters_of_isHeadedBy hheaded (by decide) (by decide),
        ns_loadNamespaceForm c form s⟩

/-! ## Points of a run -/

/-- The current namespace is known, and stands for itself. -/
structure Rooted (s : Session β) : Prop where
  known : s.env.contains s.state.ns = true
  spelled : Spelled s

theorem Rooted.of_ns {s s' : Session β} (h : Rooted s) (hns : s'.state.ns = s.state.ns)
    (hgrows : s.env.Grows s'.env) : Rooted s' := by
  refine ⟨?_, ?_⟩
  · rw [hns]
    exact hgrows _ h.known
  · unfold Spelled
    rw [hns]
    exact h.spelled

theorem Rooted.enter {s' : Session β} {ns : String} (hns : s'.state.ns = ns)
    (hknown : s'.env.contains ns = true) (hspelled : Symbol.ofText ns = .plain ns) :
    Rooted s' := by
  subst hns
  exact ⟨hknown, hspelled⟩

theorem Enters.spelled {c : Setting β} {form : Form} {s : Session β} {ns : String}
    (h : Enters c form s ns) (hform : form.Legible) : Symbol.ofText ns = .plain ns := by
  cases h with
  | declared _ hname _ _ => exact legible_declaredName hform hname
  | asked _ harg _ => exact legible_namespaceArgument hform harg

theorem Rooted.evaluateForm {s : Session β} (h : Rooted s) (c : Setting β) (file : String)
    {form : Form} (hform : form.Legible) :
    Rooted (after (evaluateForm c file .identity form) s) := by
  have hleads := leads_evaluateForm c file .identity form s
  have hgrows := (sustained_grows c).evaluateForm file .identity form s
  cases hrun : Session.evaluateForm c file .identity form s with
  | error e s' =>
    rw [hrun] at hleads
    rw [after_of_error hrun] at hgrows ⊢
    cases hleads with
    | failed hstate => exact h.of_ns (congrArg State.ns hstate) hgrows
  | ok e s' =>
    rw [hrun] at hleads
    rw [after_of_ok hrun] at hgrows ⊢
    cases hleads with
    | stays hstate _ => exact h.of_ns (congrArg State.ns hstate) hgrows
    | enters _ _ hname hstate hknown =>
      exact .enter (congrArg State.ns hstate) hknown (legible_declaredName hform hname)

/-- What a turn does to the current namespace. -/
theorem ns_turn (c : Setting β) {s : Session β} (h : Spelled s) :
    (∃ form input ns, Reading.read s.state.prompt s.input = .ok (.form form) input ∧
        Enters c form { s with input := input } ns ∧ (after (turn c builtins) s).state.ns = ns ∧
        (after (turn c builtins) s).env.contains ns = true) ∨
      (∀ form input, Reading.read s.state.prompt s.input = .ok (.form form) input →
          ∀ ns, ¬Enters c form { s with input := input } ns) ∧
        (after (turn c builtins) s).state.ns = s.state.ns := by
  rcases after_turn_cases c s with ⟨hquit, input, hmoved⟩ | ⟨form, input, hread, -, hmoved⟩
  · refine .inr ⟨?_, congrArg State.ns hmoved.state⟩
    intro form input hread ns henters
    -- a request to quit is no list
    have hkeyword := hquit form (nextForm?_of_read hread)
    cases henters with
    | declared hheaded _ _ _ =>
      rw [isQuit_of_isHeadedBy hheaded] at hkeyword
      contradiction
    | asked hheaded _ _ =>
      rw [isQuit_of_isHeadedBy hheaded] at hkeyword
      contradiction
  · rw [hmoved.state, hmoved.env]
    rcases moves_dispatch c form (s := { s with input := input }) h with
      ⟨ns, henters, hns, hknown⟩ | ⟨hnone, hns⟩
    · exact .inl ⟨form, input, ns, hread, henters, hns, hknown⟩
    · refine .inr ⟨?_, hns⟩
      intro form' input' hread'
      rw [hread] at hread'
      obtain ⟨hform, rfl⟩ := EStateM.Result.ok.inj hread'
      rw [← Reading.Outcome.form.inj hform]
      exact hnone

theorem Rooted.turn {s : Session β} (h : Rooted s) (c : Setting β) :
    Rooted (after (turn c builtins) s) := by
  rcases ns_turn c h.spelled with ⟨form, input, ns, hread, henters, hns, hknown⟩ | ⟨-, hns⟩
  · exact .enter hns hknown (henters.spelled (Reading.legible_of_read hread))
  · exact h.of_ns hns ((sustained_grows c).turn s)

theorem ns_opening (c : Setting β) {s : Session β} (h : Spelled s) :
    (after (opening c) s).state.ns = s.state.ns := by
  have hsetUp := quiet_ns.onBackend (.setup c.options) (c.backend.setup c.options) s
  change (after (setUp c) s).state.ns = s.state.ns at hsetUp
  unfold opening
  cases hrun : setUp c s with
  | error e s₁ =>
    rw [after_of_error hrun] at hsetUp
    rwa [after_of_error (bind_of_error hrun)]
  | ok u s₁ =>
    rw [after_of_ok hrun] at hsetUp
    rw [after_bind_of_ok hrun]
    have hbanner := quiet_ns.printText banner s₁
    cases hprint : printText banner s₁ with
    | error e s₂ =>
      rw [after_of_error hprint] at hbanner
      rw [after_of_error (bind_of_error hprint)]
      exact hbanner.trans hsetUp
    | ok u s₂ =>
      rw [after_of_ok hprint] at hbanner
      rw [after_bind_of_ok hprint, after_bind_of_ok (rfl : (get : Run β _) s₂ = .ok s₂ s₂)]
      have hsame : s₂.state.ns = s.state.ns := hbanner.trans hsetUp
      have hname : (startingForm s₂.state.ns).declaredName? = some s₂.state.ns := by
        apply declaredName?_startingForm
        rw [hsame]
        exact h
      refine (quiet_ns.after_bind (ns_evaluateForm_of_declaredName? c promptFile hname)
        fun e => ?_).trans hsame
      split
      · exact quiet_ns.pure _
      · exact quiet_ns.throw _

section Run

variable {c : Setting β} {lines : List Reading.Line} {s₀ s : Session β} {deals : List Deal}

theorem Rooted.opening (h : Rooted s₀) (c : Setting β) : Rooted (after (opening c) s₀) :=
  h.of_ns (ns_opening c h.spelled) ((sustained_grows c).steady.opening s₀)

theorem rooted_flush (hstart : Rooted s₀) (h : opening c s₀ = .ok () s) :
    Rooted (after flush { s with input := .ofLines lines }) := by
  have hopened := hstart.opening c
  rw [after_of_ok h] at hopened
  exact hopened.of_ns (quiet_ns.flushed s _) ((sustained_grows c).flushed s _)

theorem Traced.rooted {fuel : Nat} (h : Traced c lines s₀ deals fuel s) (hstart : Rooted s₀) :
    Rooted s := by
  induction h with
  | first h hflush =>
    rw [← after_of_ok hflush]
    exact rooted_flush hstart h
  | next _ hturn ih =>
    have hturned := ih.turn c
    rwa [after_of_ok hturn] at hturned

theorem InFile.rooted {file : String} {forms : List Form} {s' : Session β}
    (h : InFile c file forms s s') (hforms : ∀ form ∈ forms, form.Legible) (hs : Rooted s) :
    Rooted s' := by
  induction h with
  | here => exact hs
  | next heval _ _ ih =>
    obtain ⟨hform, hrest⟩ := List.forall_mem_cons.mp hforms
    have hfirst := hs.evaluateForm c file hform
    rw [after_of_ok heval] at hfirst
    exact ih hrest hfirst

theorem legible_sourceForms {files : Files.Tree} {path : Files.Pathname} {forms : List Form}
    (h : sourceForms files path = .ok forms) : ∀ form ∈ forms, form.Legible := by
  unfold sourceForms at h
  split at h
  · contradiction
  · split at h
    · contradiction
    · split at h
      · contradiction
      · next hread =>
        rw [← Except.ok.inj h]
        exact Reading.legible_of_readAll hread

theorem Point.rooted (h : Point c lines s₀ deals s) (hstart : Rooted s₀) : Rooted s := by
  induction h with
  | start => exact hstart
  | opened => exact hstart.opening c
  | flushed h => exact rooted_flush hstart h
  | prompt h => exact h.rooted hstart
  | inFile h _ _ _ hforms hin =>
    refine hin.rooted (legible_sourceForms hforms) ?_
    exact (h.rooted hstart).of_ns rfl (.refl _)
  | turned h => exact (h.rooted hstart).turn c
  | closed _ ih =>
    rw [after_runSession]
    exact ih.of_ns (quiet_ns.onBackend _ _ _) ((sustained_grows c).onBackend _ _ _)

end Run

theorem rooted_fresh (c : Setting β) (files : Files.Tree) (backend : β) :
    Rooted (fresh c files backend) where
  known := by
    change Analysis.Env.initial.contains Analysis.userNs = true
    decide
  spelled := by
    change Symbol.ofText Analysis.userNs = .plain Analysis.userNs
    decide

/-- At every point of a run the current namespace is known.  A turn goes where a declaration that
was typed and answered with success, or `in-ns`, leads, and stays where it is otherwise; nothing
before the first prompt or after the last one leads anywhere. -/
theorem current_namespace (c : Setting β) (files : Files.Tree) (backend : β)
    (lines : List Reading.Line) :
    let s₀ := fresh c files backend
    (∀ deals s, Point c lines s₀ deals s → s.env.contains s.state.ns = true) ∧
      (∀ deals fuel s, Traced c lines s₀ deals (fuel + 1) s →
        (∀ form input ns, Reading.read s.state.prompt s.input = .ok (.form form) input →
          Enters c form { s with input := input } ns →
            (after (turn c builtins) s).state.ns = ns) ∧
        ((∀ form input ns, Reading.read s.state.prompt s.input = .ok (.form form) input →
            ¬Enters c form { s with input := input } ns) →
          (after (turn c builtins) s).state.ns = s.state.ns)) ∧
      (after (opening c) s₀).state.ns = s₀.state.ns ∧
      (after (runSession c builtins lines) s₀).state.ns =
        (after (start c builtins lines) s₀).state.ns := by
  intro s₀
  have hstart : Rooted s₀ := rooted_fresh c files backend
  refine ⟨fun deals s h => (h.rooted hstart).known, ?_, ns_opening c hstart.spelled, ?_⟩
  · intro deals fuel s htraced
    rcases ns_turn c (htraced.rooted hstart).spelled with
      ⟨form, input, ns, hread, henters, hns, -⟩ | ⟨hnone, hns⟩
    · refine ⟨?_, fun hnone => absurd henters (hnone form input ns hread)⟩
      intro form' input' ns' hread' henters'
      rw [hread] at hread'
      obtain ⟨hform, rfl⟩ := EStateM.Result.ok.inj hread'
      obtain rfl := Reading.Outcome.form.inj hform
      rw [hns]
      exact henters.unique henters'
    · refine ⟨fun form input ns hread henters => ?_, fun _ => hns⟩
      exact absurd henters (hnone form input hread ns)
  · rw [after_runSession]
    exact quiet_ns.onBackend _ _ _

/-- A declaration and `in-ns` lead on; what is required then, and a file that cannot be loaded, do
not. -/
theorem current_namespace_sample :
    let lines := Reading.linesOfText
      "(ns foo)\n(in-ns 'bar)\n(require 'cljs.core)\n(load-file \"none\")\n"
    let s := after (runSession preparedSetting builtins lines) (fresh preparedSetting default [])
    s.state.ns = "bar" ∧ s.env.contains s.state.ns = true := by
  intro lines s
  refine ⟨by decide +kernel, ?_⟩
  obtain ⟨deals, hpoint⟩ := exists_point_runSession preparedSetting lines
    (fresh preparedSetting default [])
  exact (current_namespace preparedSetting default [] lines).1 deals s hpoint

end LiveLisp.Session
