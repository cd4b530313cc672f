import LiveLisp.Backend.Scripted
import LiveLisp.Proofs.Analysis.Stack
import LiveLisp.Proofs.Session.Steps
import Mathlib.Data.List.Infix
/-!
# The current namespace exists

A namespace exists in the runtime once a fragment that provides it was answered with success, or
once a unit that provides it was delivered.  From the first prompt on the current namespace is the
core namespace or exists, as long as `in-ns` is never asked for a namespace that is known and does
not exist; and it is only `in-ns` that can lead there.  It happens: a namespace becomes known before
the runtime has answered, and stays known when the answer is a failure.
-/

namespace LiveLisp.Session

open Fallible
open Analysis (coreNs)

variable {α β : Type}

/-! ## Namespaces that exist -/

/-- The call that provides a namespace in the runtime. -/
def provision (ns : String) : String := "goog.provide('" ++ Munge.mungePath ns ++ "')"

/-- A fragment with the provision of a namespace was answered with success. -/
def Exchange.Provides (ns : String) : Exchange → Prop
  | .evaluate _ _ code (.ok result) =>
    result.isSuccess = true ∧ (provision ns).toList <:+: code.toList
  | _ => False

/-- The namespace exists in the runtime. -/
def Provided (s : Session β) (ns : String) : Prop :=
  s.isLoaded ns = true ∨ ∃ e ∈ s.exchanges, e.Provides ns

/-- The current namespace exists in the runtime; the core namespace always does. -/
def Present (s : Session β) : Prop := s.state.ns ≠ coreNs → Provided s s.state.ns

instance (ns : String) : DecidablePred (Exchange.Provides ns)
  | .evaluate _ _ _ (.ok _) => inferInstanceAs (Decidable (_ ∧ _))
  | .evaluate _ _ _ (.error _) | .setup .. | .load .. | .tearDown _ => .isFalse id

instance (s : Session β) (ns : String) : Decidable (Provided s ns) :=
  inferInstanceAs (Decidable (_ ∨ _))

instance (s : Session β) : Decidable (Present s) := inferInstanceAs (Decidable (_ → _))

/-- `s'` comes after `s`, in the same namespace or in one that exists. -/
structure Onward (s s' : Session β) : Prop where
  exchanges : s.exchanges <+: s'.exchanges
  loaded : s.loaded <+: s'.loaded
  place : s'.state.ns = s.state.ns ∨ Present s'

theorem Provided.mono {s s' : Session β} {ns : String} (h : Provided s ns)
    (hexchanges : s.exchanges <+: s'.exchanges) (hloaded : s.loaded <+: s'.loaded) :
    Provided s' ns := by
  rcases h with hns | ⟨e, he, hprovides⟩
  · refine .inl ?_
    simp only [isLoaded, List.contains_iff_mem] at hns ⊢
    exact hloaded.subset hns
  · exact .inr ⟨e, hexchanges.subset he, hprovides⟩

theorem Present.onward {s s' : Session β} (h : Present s) (hs : Onward s s') : Present s' := by
  rcases hs.place with hsame | hpresent
  · intro hns
    rw [hsame] at hns ⊢
    exact (h hns).mono hs.exchanges hs.loaded
  · exact hpresent

theorem background_onward : Background (Onward (β := β)) where
  refl s := ⟨List.prefix_refl _, List.prefix_refl _, .inl rfl⟩
  trans {s s' s''} h h' := by
    refine ⟨h.exchanges.trans h'.exchanges, h.loaded.trans h'.loaded, ?_⟩
    rcases h.place with hsame | hpresent
    · rw [← hsame]
      exact h'.place
    · exact .inr (hpresent.onward h')
  world s w := ⟨List.prefix_refl _, List.prefix_refl _, .inl rfl⟩
  exchange s w e := ⟨List.prefix_append _ _, List.prefix_refl _, .inl rfl⟩
  env s env := ⟨List.prefix_refl _, List.prefix_refl _, .inl rfl⟩
  loaded s names := ⟨List.prefix_refl _, List.prefix_append _ _, .inl rfl⟩
  tracer s tracer := ⟨List.prefix_refl _, List.prefix_refl _, .inl rfl⟩
  output s := ⟨List.prefix_refl _, List.prefix_refl _, .inl rfl⟩
  input s input := ⟨List.prefix_refl _, List.prefix_refl _, .inl rfl⟩

/-! ## Fragments that provide -/

theorem provided_of_send {c : Setting β} {file : String} {line : Nat} {code : String}
    {s s' : Session β} {result : Backend.Result} {ns : String}
    (h : send c file line code s = .ok result s') (hresult : result.isSuccess = true)
    (hcode : (provision ns).toList <:+: code.toList) : Provided s' ns := by
  unfold send exchange at h
  split at h
  · obtain ⟨rfl, rfl⟩ := EStateM.Result.ok.inj h
    refine .inr ⟨_, List.mem_append_right _ (List.mem_singleton_self _), hresult, hcode⟩
  · simp at h

theorem provide_eq (ns : String) :
    "goog.provide('" ++ Munge.mungePath ns ++ "');" = provision ns ++ ";" := by
  have hclosing : "');" = "')" ++ ";" := by decide
  calc "goog.provide('" ++ Munge.mungePath ns ++ "');"
      = "goog.provide('" ++ Munge.mungePath ns ++ ("')" ++ ";") := congrArg _ hclosing
    _ = provision ns ++ ";" := String.append_assoc.symm

/-- The script of a declaration provides the declared namespace. -/
theorem provision_infix_scriptOf {options : Options} {now : Nat} {form : Form}
    {ast : Analysis.Ast} {decl : Analysis.NsDecl} (h : ast.nsDecl? = some decl) :
    (provision decl.name).toList <:+: (scriptOf options now form ast).toList := by
  obtain ⟨pos, rfl⟩ : ∃ pos, ast = .ns pos decl := by
    unfold Analysis.Ast.nsDecl? at h
    split at h
    · next pos d => exact ⟨pos, by rw [Option.some.inj h]⟩
    · simp at h
  obtain ⟨tail, htail⟩ : ∃ tail, Script.declarationPieces pos decl =
      [.mark pos none, .text (provision decl.name ++ ";")] ++ tail := by
    unfold Script.declarationPieces
    rw [provide_eq]
    exact ⟨_, List.append_assoc ..⟩
  have hjs : (Script.emit options.wantsSourceMap (.ns pos decl)).js =
      provision decl.name ++ (";" ++ Script.scriptText tail) := by
    change Script.scriptText (Script.declarationPieces pos decl) = _
    rw [htail, Script.scriptText_append, Script.scriptText_mark, Script.scriptText_text,
      Script.scriptText_nil, String.append_empty, String.append_assoc]
  obtain ⟨more, hscript⟩ : ∃ more, scriptOf options now form (.ns pos decl) =
      provision decl.name ++ more := by
    unfold scriptOf
    simp only [hjs]
    split
    · simp only [String.append_assoc]
      exact ⟨_, rfl⟩
    · exact ⟨_, rfl⟩
  rw [hscript, String.toList_append]
  exact (List.prefix_append _ _).isInfix

/-- Entering what was just declared leads to a namespace that exists. -/
theorem onward_declared {s : Session β} {ast : Analysis.Ast}
    (h : ∀ decl, ast.nsDecl? = some decl → Provided s decl.name) : Onward s (declared ast s) := by
  unfold declared
  split
  · next decl hdecl =>
    exact ⟨List.prefix_refl _, List.prefix_refl _, .inr fun _ => h decl hdecl⟩
  · exact background_onward.refl s

theorem onward_evaluateForm (c : Setting β) (file : String) (wrap : Wrap) (form : Form) :
    Keeps Onward (evaluateForm c file wrap form) := by
  intro s
  rcases evaluateForm_cases c file wrap form s with ⟨e, s', hfail, hbehind⟩ |
    ⟨ast, env, now, result, s₁, s₂, s₃, -, hbehind, hload, hsend, hok⟩
  · rw [after_of_error hfail]
    exact hbehind _ background_onward
  · rw [after_of_ok hok]
    -- up to the answer the session stays where it is
    have h₁ := hbehind _ background_onward
    have h₂ := background_onward.loadDeclared c ast s₁
    have h₃ := background_onward.send c file form.pos.line (scriptOf c.options now form ast) s₂
    rw [after_of_ok hload] at h₂
    rw [after_of_ok hsend] at h₃
    have h := background_onward.trans h₁ (background_onward.trans h₂ h₃)
    cases hresult : result.isSuccess with
    | false => exact h
    | true =>
      refine background_onward.trans h (onward_declared ?_)
      intro decl hdecl
      exact provided_of_send hsend hresult (provision_infix_scriptOf hdecl)

/-! ## Forms -/

theorem onward_remember (wrap : Wrap) (result : Backend.Result) :
    Keeps Onward (remember wrap result : Run β Unit) := by
  intro s
  unfold remember
  split
  · refine ⟨List.prefix_refl _, List.prefix_refl _, .inl ?_⟩
    change (if result.isSuccess then s.state.recordSuccess result.value
      else s.state.recordFailure result.value).ns = s.state.ns
    split <;> rfl
  · exact background_onward.refl s

theorem onward_evalAndPrint (c : Setting β) (form : Form) : Keeps Onward (evalAndPrint c form) := by
  refine background_onward.bind (onward_evaluateForm c promptFile _ form) fun e => ?_
  split
  · exact background_onward.bind (background_onward.printText _) fun _ => onward_remember _ _
  · exact background_onward.bind (onward_remember _ _) fun _ =>
      background_onward.displayFailure c form e

theorem onward_requireBy (clause : String) (c : Setting β) (form : Form) :
    Keeps Onward (requireBy clause c form) := by
  unfold requireBy
  split
  · exact background_onward.throw _
  · refine keeps_get_bind fun s => ?_
    refine background_onward.bind (onward_evaluateForm c promptFile .identity _) (fun e => ?_) s
    split
    · exact background_onward.displayFailure c _ e
    · exact background_onward.pure _

theorem onward_evaluateAll (c : Setting β) (file : String) (forms : List Form) :
    Keeps Onward (evaluateAll c file forms) := by
  induction forms with
  | nil => exact background_onward.pure _
  | cons form rest ih =>
    refine background_onward.bind (onward_evaluateForm c file .identity form) fun e => ?_
    split
    · exact ih
    · exact background_onward.displayFailure c form e

theorem onward_keepingNs {action : Run β Unit} (h : Keeps Onward action) :
    Keeps Onward (keepingNs action) := by
  intro s
  have hs := h s
  unfold after at hs
  unfold after keepingNs
  cases haction : action s with
  | ok u s' | error e s' =>
    rw [haction] at hs
    exact ⟨hs.exchanges, hs.loaded, .inl rfl⟩

theorem onward_loadFile (c : Setting β) (form : Form) : Keeps Onward (loadFile c form) := by
  unfold loadFile
  split
  · exact background_onward.throw _
  · refine keeps_get_bind fun s => ?_
    split
    · exact background_onward.throw _ s
    · exact onward_keepingNs (onward_evaluateAll c _ _) s

theorem onward_loadNamespaceForm (c : Setting β) (form : Form) :
    Keeps Onward (loadNamespaceForm c form) := by
  unfold loadNamespaceForm
  split
  · exact background_onward.throw _
  · exact background_onward.bind (background_onward.loadNamespace c _) fun _ =>
      background_onward.pure _

/-- A namespace that is known is entered without asking the runtime. -/
theorem inNs_of_contains {c : Setting β} {form : Form} {ns : String} {s : Session β}
    (harg : namespaceArgument "in-ns" form = .ok ns) (hknown : s.env.contains ns = true) :
    inNs c form s = .ok () { s with state := s.state.enter ns } := by
  unfold inNs
  rw [harg]
  refine (bind_of_ok rfl).trans ?_
  simp only [hknown, Bool.not_true, Bool.false_eq_true, if_false]
  rfl

/-- A namespace that is not known is entered if the runtime provides it. -/
theorem inNs_of_not_contains {c : Setting β} {form : Form} {ns : String} {s : Session β}
    (harg : namespaceArgument "in-ns" form = .ok ns) (hnew : s.env.contains ns = false) :
    inNs c form s = (send c promptFile form.pos.line
      ("goog.provide('" ++ Munge.mungePath ns ++ "');") >>= fun result =>
        if !result.isSuccess then throw (.evaluationFailed result.value) else enter ns)
      { s with env := s.env.register ns } := by
  unfold inNs
  rw [harg]
  refine (bind_of_ok rfl).trans ?_
  simp only [hnew, Bool.not_false, if_true]
  exact bind_of_ok rfl

/-- A namespace that is not known is entered once it is provided. -/
theorem onward_inNs_of_not_contains (c : Setting β) {form : Form} {ns : String} {s : Session β}
    (harg : namespaceArgument "in-ns" form = .ok ns) (hnew : s.env.contains ns = false) :
    Onward s (after (inNs c form) s) := by
  have hregister : Onward s { s with env := s.env.register ns } := background_onward.env s _
  have hcode : (provision ns).toList <:+:
      ("goog.provide('" ++ Munge.mungePath ns ++ "');").toList := by
    rw [provide_eq, String.toList_append]
    exact (List.prefix_append _ _).isInfix
  simp only [after, inNs_of_not_contains harg hnew]
  refine background_onward.trans hregister ?_
  generalize ({ s with env := s.env.register ns } : Session β) = s₁
  have hsend := background_onward.send c promptFile form.pos.line
    ("goog.provide('" ++ Munge.mungePath ns ++ "');") s₁
  cases h : send c promptFile form.pos.line
      ("goog.provide('" ++ Munge.mungePath ns ++ "');") s₁ with
  | error e s₂ =>
    rw [after_of_error h] at hsend
    rwa [bind_of_error h]
  | ok result s₂ =>
    rw [after_of_ok h] at hsend
    rw [bind_of_ok h]
    cases hresult : result.isSuccess with
    | false => exact hsend
    | true =>
      have hprovided : Provided s₂ ns := provided_of_send h hresult hcode
      exact background_onward.trans hsend
        ⟨List.prefix_refl _, List.prefix_refl _, .inr fun _ => hprovided⟩

theorem onward_inNs (c : Setting β) {form : Form} {s : Session β}
    (h : ∀ ns, namespaceArgument "in-ns" form = .ok ns → ns ≠ coreNs →
      s.env.contains ns = true → Provided s ns) : Onward s (after (inNs c form) s) := by
  cases harg : namespaceArgument "in-ns" form with
  | error e =>
    have hrun : inNs c form s = .error e s := by
      unfold inNs
      rw [harg]
      rfl
    rw [after_of_error hrun]
    exact background_onward.refl s
  | ok ns =>
    by_cases hknown : s.env.contains ns = true
    · rw [after_of_ok (inNs_of_contains harg hknown)]
      exact ⟨List.prefix_refl _, List.prefix_refl _, .inr fun hne => h ns harg hne hknown⟩
    · exact onward_inNs_of_not_contains c harg (by simpa using hknown)

/-! ## Turns of the prompt -/

/-- The namespace that `in-ns` is asked for by the form that is read next. -/
def asked? (s : Session β) : Option String :=
  match Reading.read s.state.prompt s.input with
  | .ok (.form form) _ =>
    if form.isHeadedBy "in-ns" then (namespaceArgument "in-ns" form).toOption else none
  | _ => none

theorem onward_dispatch (c : Setting β) {form : Form} {s : Session β}
    (h : form.isHeadedBy "in-ns" = true → ∀ ns, namespaceArgument "in-ns" form = .ok ns →
      ns ≠ coreNs → s.env.contains ns = true → Provided s ns) :
    Onward s (after (dispatch c builtins form) s) := by
  unfold dispatch
  cases hhandler : handler? builtins form with
  | none => exact background_onward.reporting _ (onward_evalAndPrint c form s)
  | some handler =>
    apply background_onward.reporting
    rcases handler?_builtins hhandler with
      ⟨hheaded, rfl⟩ | ⟨clause, -, -, rfl⟩ | ⟨-, rfl⟩ | ⟨-, rfl⟩
    · exact onward_inNs c (h hheaded)
    · exact onward_requireBy clause c form s
    · exact onward_loadFile c form s
    · exact onward_loadNamespaceForm c form s

/-- A turn leads on, unless it goes to a namespace that is known and does not exist. -/
theorem onward_turn (c : Setting β) {s : Session β}
    (h : ∀ ns, asked? s = some ns → ns ≠ coreNs → s.env.contains ns = true → Provided s ns) :
    Onward s (after (turn c builtins) s) := by
  have hinput : ∀ input, Onward s { s with input := input } := fun input =>
    background_onward.input s input
  unfold asked? at h
  refine background_onward.trans ?_
    ((unmoved_turn c builtins s).related background_onward.toDisplays)
  unfold after
  rw [advance_eq]
  cases hread : Reading.read s.state.prompt s.input with
  | error e input =>
    cases e with
    | input reason => exact hinput input
    | _ =>
      refine background_onward.trans (hinput input) ?_
      exact background_onward.bind (background_onward.printText _)
        (fun _ => background_onward.pure (none : Option Exit)) _
  | ok outcome input =>
    cases outcome with
    | lineStart | streamEnd => exact hinput input
    | form form =>
      simp only [hread] at h
      by_cases hquit : isQuit form = true
      · simp only [hquit, if_true]
        exact hinput input
      · simp only [hquit, Bool.false_eq_true, if_false]
        refine background_onward.trans (hinput input) ?_
        have hdispatch : Onward { s with input := input }
            (after (dispatch c builtins form) { s with input := input }) := by
          apply onward_dispatch
          intro hheaded ns harg
          rw [if_pos hheaded, harg] at h
          exact h ns rfl
        change Onward _ (after (dispatch c builtins form >>= fun _ => pure none) _)
        rwa [after_bind_pure]

/-- What a session starts with is analyzed as a declaration. -/
theorem nsDecl?_startingForm {ns ns' : String} {env env' : Analysis.Env} {ast : Analysis.Ast}
    (h : Analysis.analyze ns (startingForm ns') env = .ok ast env') :
    ∃ decl, ast.nsDecl? = some decl := by
  have hhead : (Form.symbol "ns" .start).plainName? = some "ns" := by decide
  rw [Analysis.analyze_eq] at h
  obtain ⟨u, env₁, -, h⟩ := bind_eq_ok.mp h
  simp only [startingForm, hhead, if_true] at h
  unfold Analysis.analyzeDeclaration at h
  split at h
  · next d hd =>
    obtain ⟨rfl, -⟩ := EStateM.Result.ok.inj h
    exact ⟨d.decl, rfl⟩
  · simp at h

/-- At the first prompt the namespace has been declared. -/
theorem present_of_opening {c : Setting β} {s s' : Session β} (h : opening c s = .ok () s') :
    Present s' := by
  obtain ⟨u, s₁, -, h⟩ := bind_eq_ok.mp h
  obtain ⟨u, s₂, -, h⟩ := bind_eq_ok.mp h
  obtain ⟨s₃, s₄, hget, h⟩ := bind_eq_ok.mp h
  obtain ⟨e, s₅, heval, h⟩ := bind_eq_ok.mp h
  rcases evaluateForm_cases c promptFile .identity (startingForm s₃.state.ns) s₄ with
    ⟨e', s', hfail, -⟩ | ⟨ast, env, now, result, s₆, s₇, s₈, hast, -, -, hsend, hok⟩
  · rw [heval] at hfail
    simp at hfail
  · rw [heval] at hok
    obtain ⟨rfl, rfl⟩ := EStateM.Result.ok.inj hok
    cases hresult : result.isSuccess with
    | false =>
      simp only [hresult] at h
      exact absurd h throw_ne_ok
    | true =>
      simp only [hresult, if_true] at h
      obtain ⟨-, rfl⟩ := pure_eq_ok.mp h
      obtain ⟨decl, hdecl⟩ := nsDecl?_startingForm hast
      intro _
      have hprovided := provided_of_send hsend hresult (provision_infix_scriptOf hdecl)
      simp only [declared, hdecl]
      exact hprovided

/-! ## Whole runs -/

/-- `s'` is reached from `s` between two forms of a file. -/
inductive InFile (c : Setting β) (file : String) : List Form → Session β → Session β → Prop
  | here {forms : List Form} {s : Session β} : InFile c file forms s s
  | next {form : Form} {rest : List Form} {e : Evaluation} {s s₁ s' : Session β}
    (heval : evaluateForm c file .identity form s = .ok e s₁)
    (hsuccess : e.result.isSuccess = true) (h : InFile c file rest s₁ s') :
    InFile c file (form :: rest) s s'

/-- The states of a run once it is open: at a prompt, between two forms of a file that is being
loaded, and at the end. -/
inductive Moment (c : Setting β) (lines : List Reading.Line) (s₀ : Session β) : Session β → Prop
  | prompt {fuel : Nat} {s : Session β} (h : AtPrompt c builtins lines s₀ fuel s) :
    Moment c lines s₀ s
  | inFile {fuel : Nat} {s s' : Session β} {form : Form} {input : Reading.Cursor}
    {path : Files.Pathname} {forms : List Form}
    (h : AtPrompt c builtins lines s₀ (fuel + 1) s)
    (hread : Reading.read s.state.prompt s.input = .ok (.form form) input)
    (hheaded : form.isHeadedBy "load-file" = true) (hpath : fileArgument form = .ok path)
    (hforms : sourceForms s.world.files path = .ok forms)
    (hin : InFile c path.text forms { s with input := input } s') : Moment c lines s₀ s'
  | ended {s : Session β} (h : opening c s₀ = .ok () s) :
    Moment c lines s₀ (after (runSession c builtins lines) s₀)

theorem InFile.onward {c : Setting β} {file : String} {forms : List Form} {s s' : Session β}
    (h : InFile c file forms s s') : Onward s s' := by
  induction h with
  | here => exact background_onward.refl _
  | @next form rest e s s₁ s' heval _ _ ih =>
    have hform := onward_evaluateForm c file .identity form s
    rw [after_of_ok heval] at hform
    exact background_onward.trans hform ih

section Run

variable {c : Setting β} {lines : List Reading.Line} {s₀ : Session β}

/-- At every prompt of the run, what `in-ns` is asked for exists if it is known. -/
def AsksForProvided (c : Setting β) (lines : List Reading.Line) (s₀ : Session β) : Prop :=
  ∀ fuel s ns, AtPrompt c builtins lines s₀ (fuel + 1) s → asked? s = some ns → ns ≠ coreNs →
    s.env.contains ns = true → Provided s ns

theorem AtPrompt.present (hasks : AsksForProvided c lines s₀) {fuel : Nat} {s : Session β}
    (h : AtPrompt c builtins lines s₀ fuel s) : Present s := by
  induction h with
  | @first s s' h hflush =>
    have hstep := background_onward.flushed s (.ofLines lines)
    rw [after_of_ok hflush] at hstep
    exact (present_of_opening h).onward hstep
  | @next fuel s s' h hturn ih =>
    have hstep : Onward s (after (turn c builtins) s) :=
      onward_turn c fun ns hns => hasks fuel s ns h hns
    rw [after_of_ok hturn] at hstep
    exact ih.onward hstep

/-- The loop leaves a session in a namespace that exists. -/
theorem AtPrompt.present_after (hasks : AsksForProvided c lines s₀) {fuel : Nat} {s : Session β}
    (h : AtPrompt c builtins lines s₀ fuel s) : Present (after (loop c builtins fuel) s) := by
  induction fuel generalizing s with
  | zero => exact h.present hasks
  | succ fuel ih =>
    have hstep : Onward s (after (turn c builtins) s) :=
      onward_turn c fun ns hns => hasks fuel s ns h hns
    have hpresent := (h.present hasks).onward hstep
    rw [loop_succ]
    cases hturn : turn c builtins s with
    | error e s' =>
      rw [after_of_error hturn] at hpresent
      rwa [after_of_error (bind_of_error hturn)]
    | ok exit s' =>
      rw [after_of_ok hturn] at hpresent
      unfold after
      rw [bind_of_ok hturn]
      cases exit with
      | some exit => exact hpresent
      | none => exact ih (h.next hturn)

theorem present_start (hasks : AsksForProvided c lines s₀) {s : Session β}
    (h : opening c s₀ = .ok () s) : Present (after (start c builtins lines) s₀) := by
  have hflushed := background_onward.flushed s (.ofLines lines)
  cases hflush : flush { s with input := .ofLines lines } with
  | error e s' =>
    rw [after_of_error hflush] at hflushed
    rw [after_of_error (start_of_refused h hflush)]
    exact (present_of_opening h).onward hflushed
  | ok u s' =>
    have hfirst : AtPrompt c builtins lines s₀ _ s' := .first h hflush
    have hloop := hfirst.present_after hasks
    unfold after at *
    rwa [hfirst.start_eq]

theorem isQuit_of_isHeadedBy {form : Form} {name : String} (h : form.isHeadedBy name = true) :
    isQuit form = false := by
  cases form with
  | list pos items => rfl
  | _ => simp [Form.isHeadedBy, Form.head?] at h

/-- Asked for a namespace that is known, the session goes there and does nothing else. -/
theorem advance_of_asked {s : Session β} {ns : String} (hasked : asked? s = some ns)
    (hknown : s.env.contains ns = true) :
    ∃ input, advance c builtins s =
      .ok none { s with input := input, state := s.state.enter ns } := by
  unfold asked? at hasked
  cases hread : Reading.read s.state.prompt s.input with
  | error e input => simp [hread] at hasked
  | ok outcome input =>
    cases outcome with
    | lineStart | streamEnd => simp [hread] at hasked
    | form form =>
      simp only [hread] at hasked
      obtain ⟨hheaded, harg⟩ := Option.ite_none_right_eq_some.mp hasked
      have hns : namespaceArgument "in-ns" form = .ok ns := by
        cases h : namespaceArgument "in-ns" form with
        | error e => simp [h, Except.toOption] at harg
        | ok m => simpa [h, Except.toOption] using harg
      have hhandler : handler? (β := β) builtins form = some inNs :=
        handler?_eq_some_iff.mpr ⟨"in-ns", hheaded, rfl⟩
      have hin : inNs c form { s with input := input } =
          .ok () { s with input := input, state := s.state.enter ns } :=
        inNs_of_contains hns hknown
      have hdispatch : dispatch c builtins form { s with input := input } =
          .ok () { s with input := input, state := s.state.enter ns } := by
        simp only [dispatch, hhandler, reporting, hin]
      refine ⟨input, ?_⟩
      rw [advance_eq, hread]
      simp only [isQuit_of_isHeadedBy hheaded, Bool.false_eq_true, if_false]
      exact bind_of_ok hdispatch

theorem AtPrompt.opened {fuel : Nat} {s : Session β} (h : AtPrompt c builtins lines s₀ fuel s) :
    ∃ s', opening c s₀ = .ok () s' := by
  induction h with
  | first h _ => exact ⟨_, h⟩
  | next _ _ ih => exact ih

/-- The tear-down brings no namespace into being. -/
theorem present_of_tearDown {s : Session β} (h : Present (after (tearDown c) s)) : Present s := by
  intro hne
  unfold after tearDown exchange at h
  have hprovides : ∀ answer, (Exchange.tearDown answer).Provides s.state.ns → False :=
    fun answer => id
  cases hcall : c.backend.tearDown s.world with
  | ok u w | error f w =>
    simp only [hcall] at h
    rcases h hne with hloaded | ⟨e, he, hprovided⟩
    · exact .inl hloaded
    · rcases List.mem_append.mp he with he | he
      · exact .inr ⟨e, he, hprovided⟩
      · rw [List.mem_singleton.mp he] at hprovided
        exact absurd hprovided (hprovides _)

/-- If the namespace that `in-ns` is asked for is known, the session stands there at the next prompt
or, if the output is refused before, at the end. -/
theorem present_of_asked (h : ∀ s, Moment c lines s₀ s → Present s) {fuel : Nat} {s : Session β}
    {ns : String} (hprompt : AtPrompt c builtins lines s₀ (fuel + 1) s)
    (hasked : asked? s = some ns) (hknown : s.env.contains ns = true) :
    Present { s with state := s.state.enter ns } := by
  obtain ⟨input, hadvance⟩ := advance_of_asked (c := c) hasked hknown
  let s₁ : Session β := { s with input := input, state := s.state.enter ns }
  have hturn : turn c builtins s = (flush >>= fun _ => pure none) s₁ := bind_of_ok hadvance
  have hback : ∀ {s₂ : Session β}, Unmoved s₁ s₂ → Present s₂ → Present s₁ := by
    rintro s₂ ⟨world, tracer, writes, rfl⟩ hpresent
    exact hpresent
  have hmoved := displays_unmoved.flush s₁
  cases hflush : flush s₁ with
  | ok u s₂ =>
    rw [bind_of_ok hflush] at hturn
    rw [after_of_ok hflush] at hmoved
    exact hback hmoved (h s₂ (.prompt (hprompt.next hturn)))
  | error e s₂ =>
    rw [bind_of_error hflush] at hturn
    rw [after_of_error hflush] at hmoved
    have hend : after (start c builtins lines) s₀ = s₂ := by
      apply after_of_error
      rw [hprompt.start_eq, loop_succ, bind_of_error hturn]
    obtain ⟨s', hopening⟩ := hprompt.opened
    have hpresent := h _ (.ended hopening)
    rw [after_runSession, hend] at hpresent
    exact hback hmoved (present_of_tearDown hpresent)

/-- The current namespace exists throughout a run exactly if `in-ns` is never asked for a namespace
that is known and does not exist. -/
theorem present_throughout_iff (c : Setting β) (lines : List Reading.Line) (s₀ : Session β) :
    (∀ s, Moment c lines s₀ s → Present s) ↔ AsksForProvided c lines s₀ := by
  constructor
  · intro h fuel s ns hprompt hasked hne hknown
    -- the turn enters the namespace and makes no call that could provide it
    exact present_of_asked h hprompt hasked hknown hne
  · intro hasks s hs
    cases hs with
    | prompt h => exact h.present hasks
    | inFile h hread hheaded hpath hforms hin =>
      exact ((h.present hasks).onward (background_onward.input _ _)).onward hin.onward
    | ended h =>
      rw [after_runSession]
      exact (present_start hasks h).onward (background_onward.onBackend _ _ _)

end Run

/-! ## A provision that fails -/

/-- A session over prepared answers and no library. -/
def preparedSetting : Setting (List (Except Backend.Failure Backend.Result)) :=
  .ofBackend (Backend.Script.silent.backend none none) (.empty ⟨"lib"⟩) .none fun _ => 0

/-- The first namespace is declared, and the provision of the next one fails. -/
def refusingStart : Session (List (Except Backend.Failure Backend.Result)) :=
  fresh preparedSetting default [.ok (.success "nil"), .ok (.error "refused" none)]

/-- The same namespace is asked for twice. -/
def retriedLines : List Reading.Line := Reading.linesOfText "(in-ns 'foo)\n(in-ns 'foo)\n"

/-- The second time the session goes to a namespace that was never provided. -/
theorem retried_inNs_not_present :
    ¬∀ s, Moment preparedSetting retriedLines refusingStart s → Present s := by
  intro h
  have hopening : ∃ s, opening preparedSetting refusingStart = .ok () s := by
    have hok : (match opening preparedSetting refusingStart with
        | .ok _ _ => true
        | .error _ _ => false) = true := by decide +kernel
    cases hrun : opening preparedSetting refusingStart with
    | ok u s => exact ⟨s, rfl⟩
    | error e s =>
      rw [hrun] at hok
      exact absurd hok (by simp)
  obtain ⟨s, hs⟩ := hopening
  have hend : ¬Present
      (after (runSession preparedSetting builtins retriedLines) refusingStart) := by
    decide +kernel
  exact hend (h _ (.ended hs))

end LiveLisp.Session
