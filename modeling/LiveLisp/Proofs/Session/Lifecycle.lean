import LiveLisp.Backend.Scripted
import LiveLisp.Proofs.Reading.Progress
import LiveLisp.Proofs.Session.Steps
/-!
# From setup to tear-down

A session sets its backend up before any other call and tears it down after all of them, once each.
A fatal failure in between is the last answer before the tear-down, and what the session returns.
Once the prompt is reached nothing else can end the session but a request to quit, the end of the
input, a failure to read it or a refusal of the output.  A failure of the tear-down itself is not
returned.

What carries this is how every computation accounts for its calls: either no answer was fatal, and
the failure of the computation is not either or is a refusal, or the last answer was fatal and is
its failure.
-/

namespace LiveLisp.Session

open Backend (Failure)
open Fallible

variable {α α' β : Type}

/-- What a computation returns. -/
def returned (x : Run β α) (s : Session β) : Except SessionError α :=
  match x s with
  | .ok a _ => .ok a
  | .error e _ => .error e

theorem returned_of_ok {x : Run β α} {s s' : Session β} {a : α} (h : x s = .ok a s') :
    returned x s = .ok a := by
  simp [returned, h]

theorem returned_of_error {x : Run β α} {s s' : Session β} {e : SessionError}
    (h : x s = .error e s') : returned x s = .error e := by
  simp [returned, h]

/-! ## Calls -/

/-- Calls between setup and tear-down. -/
def Exchange.isWork : Exchange → Bool
  | .evaluate .. | .load .. => true
  | .setup .. | .tearDown _ => false

/-- The failure that a call was answered with. -/
def Exchange.failure? : Exchange → Option Failure
  | .setup _ (.error f) | .evaluate _ _ _ (.error f) | .load _ _ (.error f)
  | .tearDown (.error f) => some f
  | _ => none

/-- The failure that a call was answered with, if it has to end the session. -/
def Exchange.fatal? (e : Exchange) : Option Failure := e.failure?.filter Failure.isFatal

/-- The backend worked, and no answer was fatal. -/
def Calm (calls : List Exchange) : Prop := ∀ e ∈ calls, e.isWork = true ∧ e.fatal? = none

/-- The backend worked until it failed for good. -/
def Lost (f : Failure) (calls : List Exchange) : Prop :=
  ∃ before e, calls = before ++ [e] ∧ Calm before ∧ e.isWork = true ∧ e.fatal? = some f

theorem calm_nil : Calm [] := fun _ h => absurd h List.not_mem_nil

theorem Calm.append {calls more : List Exchange} (h : Calm calls) (hmore : Calm more) :
    Calm (calls ++ more) := by
  intro e he
  rcases List.mem_append.mp he with he | he
  · exact h e he
  · exact hmore e he

theorem Calm.lost {calls more : List Exchange} {f : Failure} (h : Calm calls)
    (hmore : Lost f more) : Lost f (calls ++ more) := by
  obtain ⟨before, e, rfl, hbefore, hwork, hfatal⟩ := hmore
  exact ⟨calls ++ before, e, (List.append_assoc ..).symm, h.append hbefore, hwork, hfatal⟩

theorem isFatal_of_fatal? {e : Exchange} {f : Failure} (h : e.fatal? = some f) :
    f.isFatal = true := (Option.filter_eq_some_iff.mp h).2

/-- The calls agree with what is returned: a fatal answer is the last one, and is returned. -/
def Agree (calls : List Exchange) (outcome : Except SessionError α) : Prop :=
  Calm calls ∨ ∃ f, Lost f calls ∧ outcome = .error (.backend f)

theorem Agree.append_left {calls more : List Exchange} {outcome : Except SessionError α}
    (h : Agree more outcome) (hcalm : Calm calls) : Agree (calls ++ more) outcome := by
  rcases h with hmore | ⟨f, hlost, rfl⟩
  · exact .inl (hcalm.append hmore)
  · exact .inr ⟨f, hcalm.lost hlost, rfl⟩

theorem Agree.of_error {calls : List Exchange} {e : SessionError}
    (h : Agree (α := α) calls (.error e)) : Agree (α := α') calls (.error e) := by
  rcases h with hcalm | ⟨f, hlost, he⟩
  · exact .inl hcalm
  · exact .inr ⟨f, hlost, congrArg _ (Except.error.inj he)⟩

theorem Agree.isWork {calls : List Exchange} {outcome : Except SessionError α}
    (h : Agree calls outcome) : ∀ e ∈ calls, e.isWork = true := by
  rcases h with hcalm | ⟨f, ⟨before, last, rfl, hcalm, hwork, -⟩, -⟩
  · exact fun e he => (hcalm e he).1
  · intro e he
    rcases List.mem_append.mp he with he | he
    · exact (hcalm e he).1
    · rwa [List.mem_singleton.mp he]

theorem Agree.fatal_last {before rest : List Exchange} {e : Exchange} {f : Failure}
    {outcome : Except SessionError α} (h : Agree (before ++ e :: rest) outcome)
    (hf : e.fatal? = some f) : rest = [] ∧ outcome = .error (.backend f) := by
  have hnot : ∀ {calls : List Exchange}, Calm calls → e ∉ calls := by
    intro calls hcalm he
    rw [(hcalm e he).2] at hf
    contradiction
  rcases h with hcalm | ⟨f', ⟨calls, last, heq, hcalm, -, hf'⟩, houtcome⟩
  · exact absurd (by simp) (hnot hcalm)
  · rcases rest.eq_nil_or_concat with rfl | ⟨rest', last', rfl⟩
    · obtain ⟨-, hlast⟩ := List.append_inj' heq rfl
      rw [(List.cons.inj hlast).1, hf'] at hf
      exact ⟨rfl, houtcome.trans (by rw [Option.some.inj hf])⟩
    · -- not the last call, so it is among those before, none of which was fatal
      rw [List.concat_eq_append, ← List.cons_append, ← List.append_assoc] at heq
      obtain ⟨hcalls, -⟩ := List.append_inj' heq rfl
      exact absurd (by simp [← hcalls]) (hnot hcalm)

/-! ## Accounting for calls -/

/-- What is to come is as it was: nothing was read, and no write was refused. -/
structure Awaits (s s' : Session β) : Prop where
  input : s'.input = s.input
  output : refusal? s'.output = refusal? s.output

theorem Awaits.trans {s s₁ s₂ : Session β} (h : Awaits s s₁) (h' : Awaits s₁ s₂) :
    Awaits s s₂ := ⟨h'.input.trans h.input, h'.output.trans h.output⟩

/-- What comes of a computation that reads nothing and whose failure agrees with the calls it made,
or is a refusal that was to come. -/
inductive Accounted (s : Session β) : EStateM.Result SessionError (Session β) α → Prop
  | ok {a : α} {s' : Session β} {calls : List Exchange} (hawaits : Awaits s s')
    (hlog : s'.exchanges = s.exchanges ++ calls) (hcalm : Calm calls) : Accounted s (.ok a s')
  | failed {e : SessionError} {s' : Session β} {calls : List Exchange} (hawaits : Awaits s s')
    (hlog : s'.exchanges = s.exchanges ++ calls) (hcalm : Calm calls) (he : e.isFatal = false) :
    Accounted s (.error e s')
  | lost {f : Failure} {s' : Session β} {calls : List Exchange}
    (hlog : s'.exchanges = s.exchanges ++ calls) (hlost : Lost f calls) :
    Accounted s (.error (.backend f) s')
  | refused {refusal : Refusal} {s' : Session β} {calls : List Exchange}
    (hlog : s'.exchanges = s.exchanges ++ calls) (hcalm : Calm calls)
    (houtput : refusal? s.output = some refusal) :
    Accounted s (.error (.input refusal.reason) s')

/-- A computation that accounts for its calls wherever it begins. -/
def Accounts (x : Run β α) : Prop := ∀ s, Accounted s (x s)

/-- Nothing was called. -/
theorem Accounted.of_quiet {s s' : Session β} {a : α} (hawaits : Awaits s s')
    (hlog : s'.exchanges = s.exchanges) : Accounted s (.ok a s') :=
  .ok hawaits (hlog.trans (List.append_nil _).symm) calm_nil

theorem Accounted.of_failed {s s' : Session β} {e : SessionError} (hawaits : Awaits s s')
    (hlog : s'.exchanges = s.exchanges) (he : e.isFatal = false) :
    Accounted (α := α) s (.error e s') :=
  .failed hawaits (hlog.trans (List.append_nil _).symm) calm_nil he

/-- The calls of a computation come behind those that were made before. -/
theorem Accounted.after {s s₁ : Session β} {calls : List Exchange}
    {r : EStateM.Result SessionError (Session β) α} (hr : Accounted s₁ r) (hawaits : Awaits s s₁)
    (hlog : s₁.exchanges = s.exchanges ++ calls) (hcalm : Calm calls) : Accounted s r := by
  cases hr with
  | ok hawaits' hlog' hcalm' =>
    rw [hlog, List.append_assoc] at hlog'
    exact .ok (hawaits.trans hawaits') hlog' (hcalm.append hcalm')
  | failed hawaits' hlog' hcalm' he =>
    rw [hlog, List.append_assoc] at hlog'
    exact .failed (hawaits.trans hawaits') hlog' (hcalm.append hcalm') he
  | lost hlog' hlost =>
    rw [hlog, List.append_assoc] at hlog'
    exact .lost hlog' (hcalm.lost hlost)
  | refused hlog' hcalm' houtput =>
    rw [hlog, List.append_assoc] at hlog'
    exact .refused hlog' (hcalm.append hcalm') (hawaits.output.symm.trans houtput)

/-- The calls of one computation and then of another. -/
theorem Accounted.trans {s s₁ : Session β} {a : α} {r : EStateM.Result SessionError (Session β) α'}
    (h : Accounted s (.ok a s₁)) (hr : Accounted s₁ r) : Accounted s r := by
  cases h with
  | ok hawaits hlog hcalm => exact hr.after hawaits hlog hcalm

theorem Accounted.of_error {s s₁ : Session β} {e : SessionError}
    (h : Accounted (α := α) s (.error e s₁)) : Accounted (α := α') s (.error e s₁) := by
  cases h with
  | failed hawaits hlog hcalm he => exact .failed hawaits hlog hcalm he
  | lost hlog hlost => exact .lost hlog hlost
  | refused hlog hcalm houtput => exact .refused hlog hcalm houtput

/-- A write makes no call. -/
theorem Written.accounted {s : Session β} {r : EStateM.Result SessionError (Session β) Unit}
    (h : Written s r) : Accounted s r := by
  cases h with
  | through hmoved houtput => exact .of_quiet ⟨hmoved.input, houtput⟩ hmoved.exchanges
  | refused hmoved houtput =>
    exact .refused (hmoved.exchanges.trans (List.append_nil _).symm) calm_nil houtput

theorem accounts_pure (a : α) : Accounts (pure a : Run β α) := fun _ => .of_quiet ⟨rfl, rfl⟩ rfl

theorem accounts_throw {e : SessionError} (he : e.isFatal = false) :
    Accounts (throw e : Run β α) := fun _ => .of_failed ⟨rfl, rfl⟩ rfl he

theorem Accounts.bind {x : Run β α} {k : α → Run β α'} (hx : Accounts x)
    (hk : ∀ a, Accounts (k a)) : Accounts (x >>= k) := by
  intro s
  have hfirst := hx s
  cases h : x s with
  | ok a s₁ =>
    rw [h] at hfirst
    rw [bind_of_ok h]
    exact hfirst.trans (hk a s₁)
  | error e s₁ =>
    rw [h] at hfirst
    rw [bind_of_error h]
    exact hfirst.of_error

/-- What is done may depend on the session as it is. -/
theorem accounts_get_bind {k : Session β → Run β α} (hk : ∀ s, Accounts (k s)) :
    Accounts (get >>= k) := fun s => hk s s

theorem accounts_printText (text : String) : Accounts (printText text : Run β Unit) :=
  fun s => (written_printText text s).accounted

theorem accounts_showScript (c : Setting β) (js : String) : Accounts (showScript c js) := by
  unfold showScript
  split
  · exact accounts_printText _
  · exact accounts_pure _

theorem accounts_onEnv (analysis : Analysis.Analyzing α) :
    Accounts (onEnv analysis : Run β α) := by
  intro s
  unfold onEnv
  cases analysis s.env with
  | ok a env => exact .of_quiet ⟨rfl, rfl⟩ rfl
  | error e env => exact .of_failed ⟨rfl, rfl⟩ rfl rfl

theorem accounts_onFiles (build : Library.Build α) : Accounts (onFiles build : Run β α) := by
  intro s
  unfold onFiles
  cases build s.world.files with
  | ok a files => exact .of_quiet ⟨rfl, rfl⟩ rfl
  | error e files => exact .of_failed ⟨rfl, rfl⟩ rfl rfl

/-- A call of the backend fails just as it is logged. -/
theorem accounts_exchange {entry : Except Failure α → Exchange} (call : Backend.Call β α)
    (hwork : ∀ answer, (entry answer).isWork = true) (hok : ∀ a, (entry (.ok a)).failure? = none)
    (herror : ∀ f, (entry (.error f)).failure? = some f) : Accounts (exchange entry call) := by
  have hsingle : ∀ {e : Exchange}, e.isWork = true → e.fatal? = none → Calm [e] := by
    intro e hework hefatal x hx
    rw [List.mem_singleton.mp hx]
    exact ⟨hework, hefatal⟩
  intro s
  unfold exchange
  cases call s.world with
  | ok a w => exact .ok ⟨rfl, rfl⟩ rfl (hsingle (hwork _) (by simp [Exchange.fatal?, hok]))
  | error f w =>
    cases hfatal : f.isFatal with
    | false =>
      have hnone : (entry (.error f)).fatal? = none := by simp [Exchange.fatal?, herror, hfatal]
      exact .failed ⟨rfl, rfl⟩ rfl (hsingle (hwork _) hnone) hfatal
    | true =>
      have hsome : (entry (.error f)).fatal? = some f := by simp [Exchange.fatal?, herror, hfatal]
      exact .lost rfl ⟨[], _, rfl, calm_nil, hwork _, hsome⟩

theorem accounts_send (c : Setting β) (file : String) (line : Nat) (code : String) :
    Accounts (send c file line code) :=
  accounts_exchange _ (fun _ => rfl) (fun _ => rfl) fun _ => rfl

theorem accounts_deliver (c : Setting β) (provides : List String) (url : Files.Pathname) :
    Accounts (deliver c provides url) :=
  accounts_exchange _ (fun _ => rfl) (fun _ => rfl) fun _ => rfl

theorem accounts_printTrace (c : Setting β) (result : Backend.Result) :
    Accounts (printTrace c result) := by
  unfold printTrace
  split
  · exact accounts_pure _
  · exact fun s => (accounts_printText _ _).after ⟨rfl, rfl⟩ (List.append_nil _).symm calm_nil
  · exact accounts_printText _

theorem loads_accounts : Loads fun α (x : Run β α) => Accounts x where
  pure := accounts_pure
  throw := accounts_throw
  bind := Accounts.bind
  get _ := .of_quiet ⟨rfl, rfl⟩ rfl
  printText := accounts_printText
  printTrace := accounts_printTrace
  onFiles := accounts_onFiles
  send := accounts_send
  deliver := accounts_deliver
  loaded _ _ := .of_quiet ⟨rfl, rfl⟩ rfl

/-! ## Forms at the prompt -/

theorem accounts_enter (ns : String) : Accounts (enter ns : Run β Unit) :=
  fun _ => .of_quiet ⟨rfl, rfl⟩ rfl

theorem accounts_evaluateForm (c : Setting β) (file : String) (wrap : Wrap) (form : Form) :
    Accounts (evaluateForm c file wrap form) := by
  have henter : ∀ ast, Accounts (enterDeclared ast : Run β Unit) := by
    intro ast
    unfold enterDeclared
    split
    · exact accounts_enter _
    · exact accounts_pure _
  refine accounts_get_bind fun s => (accounts_onEnv _).bind fun ast =>
    accounts_get_bind fun s' => ?_
  have hsubmit : ∀ js, Accounts (submit c file js form ast) := by
    intro js
    refine (accounts_showScript c js).bind fun _ =>
      (loads_accounts.loadDeclared (loads_accounts.loadNamespace c) ast).bind fun _ =>
        (accounts_send c _ _ _).bind fun result => ?_
    split
    · exact (henter ast).bind fun _ => accounts_pure _
    · exact accounts_pure _
  exact hsubmit _

theorem accounts_evalAndPrint (c : Setting β) (form : Form) : Accounts (evalAndPrint c form) := by
  have hremember : ∀ wrap result, Accounts (remember wrap result : Run β Unit) := by
    intro wrap result
    unfold remember
    split
    · exact fun s => .of_quiet ⟨rfl, rfl⟩ rfl
    · exact accounts_pure _
  refine (accounts_evaluateForm c _ _ form).bind fun e => ?_
  split
  · exact (accounts_printText _).bind fun _ => hremember _ _
  · exact (hremember _ _).bind fun _ => loads_accounts.displayFailure c form e

/-- Arguments that are refused do not end the session. -/
theorem isFatal_namespaceArgument {special : String} {form : Form} {e : SessionError}
    (h : namespaceArgument special form = .error e) : e.isFatal = false := by
  unfold namespaceArgument at h
  split at h
  · split at h
    · contradiction
    · rw [← Except.error.inj h]
      rfl
  · rw [← Except.error.inj h]
    rfl

theorem accounts_inNs (c : Setting β) (form : Form) : Accounts (inNs c form) := by
  unfold inNs
  split
  · next e h => exact accounts_throw (isFatal_namespaceArgument h)
  · next ns _ =>
    refine accounts_get_bind fun s => ?_
    split
    · have hregister : Accounts
          (modify fun s => { s with env := s.env.register ns } : Run β PUnit) :=
        fun _ => .of_quiet ⟨rfl, rfl⟩ rfl
      refine hregister.bind fun _ => (accounts_send c _ _ _).bind fun result => ?_
      split
      · exact accounts_throw rfl
      · exact accounts_enter ns
    · exact accounts_enter ns

theorem accounts_requireBy (clause : String) (c : Setting β) (form : Form) :
    Accounts (requireBy clause c form) := by
  unfold requireBy
  split
  · exact accounts_throw rfl
  · refine accounts_get_bind fun s => (accounts_evaluateForm c _ _ _).bind fun e => ?_
    split
    · exact loads_accounts.displayFailure c _ e
    · exact accounts_pure _

theorem accounts_evaluateAll (c : Setting β) (file : String) (forms : List Form) :
    Accounts (evaluateAll c file forms) := by
  induction forms with
  | nil => exact accounts_pure _
  | cons form rest ih =>
    refine (accounts_evaluateForm c file .identity form).bind fun e => ?_
    split
    · exact ih
    · exact loads_accounts.displayFailure c form e

theorem Accounts.keepingNs {action : Run β Unit} (h : Accounts action) :
    Accounts (keepingNs action) := by
  intro s
  have hs := h s
  unfold Session.keepingNs
  cases haction : action s with
  | ok u s' =>
    rw [haction] at hs
    exact hs.trans (.of_quiet ⟨rfl, rfl⟩ rfl)
  | error e s' =>
    rw [haction] at hs
    cases hs with
    | failed hawaits hlog hcalm he => exact .failed ⟨hawaits.input, hawaits.output⟩ hlog hcalm he
    | lost hlog hlost => exact .lost hlog hlost
    | refused hlog hcalm houtput => exact .refused hlog hcalm houtput

theorem isFatal_fileArgument {form : Form} {e : SessionError}
    (h : fileArgument form = .error e) : e.isFatal = false := by
  unfold fileArgument at h
  split at h
  · split at h
    · contradiction
    · rw [← Except.error.inj h]
      rfl
  · rw [← Except.error.inj h]
    rfl

theorem isFatal_sourceForms {files : Files.Tree} {path : Files.Pathname} {e : SessionError}
    (h : sourceForms files path = .error e) : e.isFatal = false := by
  unfold sourceForms at h
  split at h
  · rw [← Except.error.inj h]
    rfl
  · split at h
    · rw [← Except.error.inj h]
      rfl
    · split at h
      · rw [← Except.error.inj h]
        rfl
      · contradiction

theorem accounts_loadFile (c : Setting β) (form : Form) : Accounts (loadFile c form) := by
  unfold loadFile
  split
  · next e h => exact accounts_throw (isFatal_fileArgument h)
  · refine accounts_get_bind fun s => ?_
    split
    · next e h => exact accounts_throw (isFatal_sourceForms h)
    · exact (accounts_evaluateAll c _ _).keepingNs

theorem accounts_loadNamespaceForm (c : Setting β) (form : Form) :
    Accounts (loadNamespaceForm c form) := by
  unfold loadNamespaceForm
  split
  · next e h => exact accounts_throw (isFatal_namespaceArgument h)
  · exact (loads_accounts.loadNamespace c _).bind fun _ => accounts_pure _

/-! ## Turns -/

theorem Accounts.reporting {action : Run β Unit} (h : Accounts action)
    (report : SessionError → String) : Accounts (reporting report action) := by
  intro s
  have hs := h s
  unfold Session.reporting
  cases haction : action s with
  | ok u s' =>
    rw [haction] at hs
    exact hs
  | error e s' =>
    rw [haction] at hs
    cases hs with
    | failed hawaits hlog hcalm he =>
      simp only [he, Bool.false_eq_true, if_false]
      exact (accounts_printText _ s').after hawaits hlog hcalm
    | lost hlog hlost =>
      obtain ⟨before, e, -, -, -, he⟩ := id hlost
      have hfatal : (SessionError.backend _).isFatal = true := isFatal_of_fatal? he
      simp only [hfatal, if_true]
      exact .lost hlog hlost
    | refused hlog hcalm houtput => exact .refused hlog hcalm houtput

theorem isFatal_of_reporting {report : SessionError → String} {action : Run β Unit}
    {s s' : Session β} {e : SessionError} (h : Session.reporting report action s = .error e s') :
    e.isFatal = true := by
  unfold Session.reporting at h
  split at h
  · contradiction
  · split at h
    · next hfatal =>
      obtain ⟨rfl, -⟩ := EStateM.Result.error.inj h
      exact hfatal
    · obtain ⟨reason, rfl⟩ := input_of_printText h
      rfl

theorem accounts_dispatch (c : Setting β) (form : Form) : Accounts (dispatch c builtins form) := by
  unfold dispatch
  cases hhandler : handler? builtins form with
  | none => exact (accounts_evalAndPrint c form).reporting _
  | some handler =>
    apply Accounts.reporting
    rcases handler?_builtins hhandler with ⟨-, rfl⟩ | ⟨clause, -, -, rfl⟩ | ⟨-, rfl⟩ | ⟨-, rfl⟩
    · exact accounts_inNs c form
    · exact accounts_requireBy clause c form
    · exact accounts_loadFile c form
    · exact accounts_loadNamespaceForm c form

theorem isFatal_of_dispatch {c : Setting β} {specials : Table String (Special β)} {form : Form}
    {s s' : Session β} {e : SessionError} (h : dispatch c specials form s = .error e s') :
    e.isFatal = true := by
  unfold dispatch at h
  cases hhandler : handler? specials form <;> rw [hhandler] at h <;> exact isFatal_of_reporting h

/-- What ends a session that stands at the prompt, and what it then returns. -/
inductive Stops (c : Setting β) (s : Session β) : Except SessionError Exit → Prop
  | quit {form : Form} {input : Reading.Cursor}
    (hread : Reading.read s.state.prompt s.input = .ok (.form form) input)
    (hquit : isQuit form = true) : Stops c s (.ok .quit)
  | endOfInput {input : Reading.Cursor}
    (hread : Reading.read s.state.prompt s.input = .ok .streamEnd input)
    (hend : input.size = 0) : Stops c s (.ok .endOfInput)
  | unreadable {reason : String} {input : Reading.Cursor}
    (hread : Reading.read s.state.prompt s.input = .error (.input reason) input) :
    Stops c s (.error (.input reason))
  | lost {form : Form} {input : Reading.Cursor} {f : Failure} {s' : Session β}
    (hread : Reading.read s.state.prompt s.input = .ok (.form form) input)
    (hlost : dispatch c builtins form { s with input := input } = .error (.backend f) s')
    (hfatal : f.isFatal = true) : Stops c s (.error (.backend f))
  | unwritten {refusal : Refusal} {s' : Session β} (houtput : refusal? s.output = some refusal)
    (hturn : turn c builtins s = .error (.input refusal.reason) s') :
    Stops c s (.error (.input refusal.reason))

/-- What comes of dealing with what is read next: less input is left to read, or the session stops,
or the output refuses what is printed about it. -/
inductive Advanced (c : Setting β) (s : Session β) :
    EStateM.Result SessionError (Session β) (Option Exit) → Prop
  | goesOn {s' : Session β} {calls : List Exchange}
    (hlog : s'.exchanges = s.exchanges ++ calls) (hcalm : Calm calls)
    (houtput : refusal? s'.output = refusal? s.output)
    (hpast : s.input.Past s'.input) (hlt : s'.input.size < s.input.size) :
    Advanced c s (.ok none s')
  | ends {exit : Exit} {s' : Session β} (hlog : s'.exchanges = s.exchanges)
    (hstops : Stops c s (.ok exit)) : Advanced c s (.ok (some exit) s')
  | fails {e : SessionError} {s' : Session β} {calls : List Exchange}
    (hlog : s'.exchanges = s.exchanges ++ calls)
    (hagree : Agree (α := Exit) calls (.error e)) (hstops : Stops c s (.error e)) :
    Advanced c s (.error e s')
  | refused {refusal : Refusal} {s' : Session β} {calls : List Exchange}
    (hlog : s'.exchanges = s.exchanges ++ calls) (hcalm : Calm calls)
    (houtput : refusal? s.output = some refusal) :
    Advanced c s (.error (.input refusal.reason) s')

/-- Once something was read, the turn is what is done about it. -/
theorem Accounted.advanced {c : Setting β} {s : Session β} {input : Reading.Cursor}
    {x : Run β Unit} (h : Accounted { s with input := input } (x { s with input := input }))
    (hpast : s.input.Past input) (hlt : input.size < s.input.size)
    (hstops : ∀ e s', x { s with input := input } = .error e s' →
      e.isFatal = true ∧ ∀ f, e = .backend f → Stops c s (.error (.backend f))) :
    Advanced c s ((x >>= fun _ => pure none) { s with input := input }) := by
  cases hrun : x { s with input := input } with
  | ok u s' =>
    rw [hrun] at h
    rw [bind_of_ok hrun]
    cases h with
    | ok hawaits hlog hcalm =>
      have hsame : s'.input = input := hawaits.input
      rw [← hsame] at hpast hlt
      exact .goesOn hlog hcalm hawaits.output hpast hlt
  | error e s' =>
    rw [hrun] at h
    rw [bind_of_error hrun]
    obtain ⟨hfatal, hbackend⟩ := hstops e s' hrun
    cases h with
    | failed _ _ _ he => exact absurd hfatal (by simp [he])
    | lost hlog hlost => exact .fails hlog (.inr ⟨_, hlost, rfl⟩) (hbackend _ rfl)
    | refused hlog hcalm houtput => exact .refused hlog hcalm houtput

theorem advanced (c : Setting β) {s : Session β} (hc : s.input.Consistent) :
    Advanced c s (advance c builtins s) := by
  have hprogress := Reading.progressed_read s.state.prompt s.input
  rw [advance_eq]
  cases hread : Reading.read s.state.prompt s.input with
  | error e input =>
    rw [hread] at hprogress
    cases hprogress with
    | failed hpast hlt =>
      have hprinted : ∀ text, Advanced c s
          ((printText text >>= fun _ => pure none) { s with input := input }) := by
        intro text
        refine (accounts_printText text _).advanced hpast hlt fun e s' hrun => ?_
        obtain ⟨reason, rfl⟩ := input_of_printText hrun
        exact ⟨rfl, fun f hf => nomatch hf⟩
      cases e with
      | input reason =>
        exact .fails (List.append_nil _).symm (.inl calm_nil) (.unreadable hread)
      -- text that is no form is reported, and the reader has passed over it
      | _ => exact hprinted _
  | ok outcome input =>
    rw [hread] at hprogress
    cases hprogress with
    | streamEnd hpast hend => exact .ends rfl (.endOfInput hread (hend hc))
    | read hne hpast hlt =>
      cases outcome with
      | lineStart => exact .goesOn (List.append_nil _).symm calm_nil rfl hpast hlt
      | streamEnd => exact absurd rfl hne
      | form form =>
        dsimp only
        split
        · next hquit => exact .ends rfl (.quit hread hquit)
        · refine (accounts_dispatch c form _).advanced hpast hlt fun e s' hrun => ?_
          have hfatal := isFatal_of_dispatch hrun
          refine ⟨hfatal, ?_⟩
          rintro f rfl
          exact .lost hread hrun hfatal

/-- What comes of a turn: less input is left to read, or the session stops. -/
inductive Turned (c : Setting β) (s : Session β) :
    EStateM.Result SessionError (Session β) (Option Exit) → Prop
  | goesOn {s' : Session β} {calls : List Exchange}
    (hlog : s'.exchanges = s.exchanges ++ calls) (hcalm : Calm calls)
    (hpast : s.input.Past s'.input) (hlt : s'.input.size < s.input.size) :
    Turned c s (.ok none s')
  | ends {exit : Exit} {s' : Session β} (hlog : s'.exchanges = s.exchanges)
    (hstops : Stops c s (.ok exit)) : Turned c s (.ok (some exit) s')
  | fails {e : SessionError} {s' : Session β} {calls : List Exchange}
    (hlog : s'.exchanges = s.exchanges ++ calls)
    (hagree : Agree (α := Exit) calls (.error e)) (hstops : Stops c s (.error e)) :
    Turned c s (.error e s')

theorem turned (c : Setting β) {s : Session β} (hc : s.input.Consistent) :
    Turned c s (turn c builtins s) := by
  have hadvanced := advanced c hc
  have hrun : turn c builtins s = (advance c builtins >>= _) s := rfl
  cases hstep : advance c builtins s with
  | error e s' =>
    rw [hstep] at hadvanced
    rw [bind_of_error hstep] at hrun
    rw [hrun]
    cases hadvanced with
    | fails hlog hagree hstops => exact .fails hlog hagree hstops
    | refused hlog hcalm houtput => exact .fails hlog (.inl hcalm) (.unwritten houtput hrun)
  | ok exit? s' =>
    rw [hstep] at hadvanced
    rw [bind_of_ok hstep] at hrun
    cases hadvanced with
    | ends hlog hstops =>
      rw [hrun]
      exact .ends hlog hstops
    | goesOn hlog hcalm houtput hpast hlt =>
      have hwritten := written_flush s'
      change turn c builtins s = (flush >>= fun _ => pure none) s' at hrun
      cases hflush : flush s' with
      | ok u s'' =>
        rw [hflush] at hwritten
        rw [hrun, bind_of_ok hflush]
        cases hwritten with
        | through hmoved _ =>
          rw [← hmoved.input] at hpast hlt
          exact .goesOn (hmoved.exchanges.trans hlog) hcalm hpast hlt
      | error e s'' =>
        rw [hflush] at hwritten
        rw [bind_of_error hflush] at hrun
        rw [hrun]
        cases hwritten with
        | refused hmoved hrefusal =>
          exact .fails (hmoved.exchanges.trans hlog) (.inl hcalm)
            (.unwritten (houtput.symm.trans hrefusal) hrun)

/-! ## Runs -/

section Run

variable {c : Setting β} {lines : List Reading.Line} {s₀ : Session β}

/-- The turns that are left are enough: the run comes to a prompt where it stops. -/
theorem AtPrompt.stops {fuel : Nat} {s : Session β} (hprompt : AtPrompt c builtins lines s₀ fuel s)
    (hc : s.input.Consistent) (hfuel : s.input.size < fuel) :
    ∃ fuel' s' calls, AtPrompt c builtins lines s₀ fuel' s' ∧
      Stops c s' (returned (loop c builtins fuel) s) ∧
      (after (loop c builtins fuel) s).exchanges = s.exchanges ++ calls ∧
      Agree calls (returned (loop c builtins fuel) s) := by
  -- a turn after which the run goes on has taken up input, so the turns last as long as it does
  induction fuel generalizing s with
  | zero => omega
  | succ fuel ih =>
    have hturned := turned c hc
    unfold returned after
    rw [loop_succ]
    cases hturn : turn c builtins s with
    | error e s' =>
      rw [hturn] at hturned
      rw [bind_of_error hturn]
      cases hturned with
      | fails hlog hagree hstops => exact ⟨_, s, _, hprompt, hstops, hlog, hagree⟩
    | ok next s' =>
      rw [hturn] at hturned
      rw [bind_of_ok hturn]
      cases hturned with
      | ends hlog hstops =>
        exact ⟨_, s, [], hprompt, hstops, hlog.trans (List.append_nil _).symm, .inl calm_nil⟩
      | goesOn hlog hcalm hpast hlt =>
        obtain ⟨fuel', s'', calls, hprompt', hstops, hlog', hagree⟩ :=
          ih (hprompt.next hturn) (hpast.consistent hc) (by omega)
        rw [hlog, List.append_assoc] at hlog'
        exact ⟨fuel', s'', _, hprompt', hstops, hlog', hagree.append_left hcalm⟩

theorem Accounts.agree {x : Run β α} (h : Accounts x) (s : Session β) :
    ∃ calls, (after x s).exchanges = s.exchanges ++ calls ∧ Agree calls (returned x s) := by
  have hs := h s
  unfold after returned
  cases hx : x s with
  | ok a s' =>
    rw [hx] at hs
    cases hs with
    | ok _ hlog hcalm => exact ⟨_, hlog, .inl hcalm⟩
  | error e s' =>
    rw [hx] at hs
    cases hs with
    | failed _ hlog hcalm _ => exact ⟨_, hlog, .inl hcalm⟩
    | lost hlog hlost => exact ⟨_, hlog, .inr ⟨_, hlost, rfl⟩⟩
    | refused hlog hcalm _ => exact ⟨_, hlog, .inl hcalm⟩

/-- The calls of a run without its tear-down: the setup comes first, and if it fails there is no
other. -/
structure SetUpFirst (c : Setting β) (s₀ : Session β) (x : Run β α)
    (answer : Except Failure Unit) (work : List Exchange) : Prop where
  log : (after x s₀).exchanges = s₀.exchanges ++ .setup c.options answer :: work
  refused : ∀ f, answer = .error f → work = [] ∧ returned x s₀ = .error (.backend f)
  agree : Agree work (returned x s₀)

theorem setUpFirst_opening (c : Setting β) (s₀ : Session β) :
    ∃ answer work, SetUpFirst c s₀ (opening c) answer work := by
  have hgreeting : Accounts (do
      printText banner
      let e ← evaluateForm c promptFile .identity (startingForm (← get).state.ns)
      if e.result.isSuccess then return
      else throw (.evaluationFailed e.result.value) : Run β Unit) := by
    refine (accounts_printText _).bind fun _ => accounts_get_bind fun s =>
      (accounts_evaluateForm c _ _ _).bind fun e => ?_
    split
    · exact accounts_pure _
    · exact accounts_throw rfl
  cases hcall : c.backend.setup c.options s₀.world with
  | error f w =>
    have hsetUp : setUp c s₀ = .error (.backend f)
        { s₀ with world := w, exchanges := s₀.exchanges ++ [.setup c.options (.error f)] } := by
      simp only [setUp, exchange, hcall]
    have hrun : opening c s₀ = _ := bind_of_error hsetUp
    refine ⟨.error f, [], ?_, ?_, .inl calm_nil⟩
    · rw [after_of_error hrun]
    · rintro f' ⟨⟩
      exact ⟨rfl, returned_of_error hrun⟩
  | ok u w =>
    have hsetUp : setUp c s₀ = .ok ()
        { s₀ with world := w, exchanges := s₀.exchanges ++ [.setup c.options (.ok ())] } := by
      simp only [setUp, exchange, hcall]
    obtain ⟨work, hlog, hagree⟩ := hgreeting.agree
      { s₀ with world := w, exchanges := s₀.exchanges ++ [.setup c.options (.ok ())] }
    refine ⟨.ok (), work, ?_, fun f hf => absurd hf (by simp), ?_⟩
    · unfold after opening
      rw [bind_of_ok hsetUp]
      exact hlog.trans (List.append_assoc ..)
    · unfold returned opening
      rw [bind_of_ok hsetUp]
      exact hagree

/-- What ends a run that is open in `s₁`: the first flush is refused, or the run stands at a prompt
where it stops. -/
inductive Ends (c : Setting β) (lines : List Reading.Line) (s₀ s₁ : Session β) :
    Except SessionError Exit → Prop
  | unprompted {refusal : Refusal} {s : Session β} (houtput : refusal? s₁.output = some refusal)
    (hflush : flush { s₁ with input := .ofLines lines } = .error (.input refusal.reason) s) :
    Ends c lines s₀ s₁ (.error (.input refusal.reason))
  | atPrompt {fuel : Nat} {s : Session β} {outcome : Except SessionError Exit}
    (h : AtPrompt c builtins lines s₀ fuel s) (hstops : Stops c s outcome) :
    Ends c lines s₀ s₁ outcome

/-- Once it is open the run comes to its end. -/
theorem start_ends (lines : List Reading.Line) {s₁ : Session β}
    (h : opening c s₀ = .ok () s₁) :
    ∃ calls, Ends c lines s₀ s₁ (returned (start c builtins lines) s₀) ∧
      (after (start c builtins lines) s₀).exchanges = s₁.exchanges ++ calls ∧
      Agree calls (returned (start c builtins lines) s₀) := by
  have hwritten := written_flush { s₁ with input := .ofLines lines }
  cases hflush : flush { s₁ with input := .ofLines lines } with
  | error e s =>
    have hrun : start c builtins lines s₀ = .error e s := start_of_refused h hflush
    rw [hflush] at hwritten
    rw [returned_of_error hrun, after_of_error hrun]
    cases hwritten with
    | refused hmoved houtput =>
      exact ⟨[], .unprompted houtput hflush, hmoved.exchanges.trans (List.append_nil _).symm,
        .inl calm_nil⟩
  | ok u s =>
    have hfirst : AtPrompt c builtins lines s₀ _ s := .first h hflush
    rw [hflush] at hwritten
    cases hwritten with
    | through hmoved _ =>
      have hinput : s.input = .ofLines lines := hmoved.input
      have hexchanges : s.exchanges = s₁.exchanges := hmoved.exchanges
      have hconsistent : s.input.Consistent := by
        intro hended
        rw [hinput] at hended
        contradiction
      have hfuel : s.input.size < (Reading.Cursor.ofLines lines).size + 2 := by
        rw [hinput]
        exact Nat.lt_add_of_pos_right (by decide)
      obtain ⟨fuel, s', calls, hprompt, hstops, hlog, hagree⟩ := hfirst.stops hconsistent hfuel
      rw [hexchanges] at hlog
      unfold after returned at *
      rw [hfirst.start_eq]
      exact ⟨calls, .atPrompt hprompt hstops, hlog, hagree⟩

theorem setUpFirst_start (c : Setting β) (lines : List Reading.Line) (s₀ : Session β) :
    ∃ answer work, SetUpFirst c s₀ (start c builtins lines) answer work := by
  obtain ⟨answer, work, hopening⟩ := setUpFirst_opening c s₀
  cases h : opening c s₀ with
  | error e s₁ =>
    have hrun : start c builtins lines s₀ = .error e s₁ := by
      rw [start_eq]
      exact bind_of_error h
    have hreturned := returned_of_error h
    refine ⟨answer, work, ?_, ?_, ?_⟩
    · rw [after_of_error hrun, ← after_of_error h]
      exact hopening.log
    · intro f hf
      obtain ⟨hwork, he⟩ := hopening.refused f hf
      rw [hreturned] at he
      rw [returned_of_error hrun]
      exact ⟨hwork, congrArg _ (Except.error.inj he)⟩
    · have hagree := hopening.agree
      rw [hreturned] at hagree
      rw [returned_of_error hrun]
      exact hagree.of_error
  | ok u s₁ =>
    have hreturned := returned_of_ok h
    have hlog := hopening.log
    rw [after_of_ok h] at hlog
    obtain ⟨calls, -, hlog', hagree⟩ := start_ends lines h
    -- had an answer been fatal, the opening would have failed
    have hcalm : Calm work := by
      rcases hopening.agree with hcalm | ⟨f, -, he⟩
      · exact hcalm
      · rw [hreturned] at he
        contradiction
    refine ⟨answer, work ++ calls, ?_, ?_, hagree.append_left hcalm⟩
    · rw [hlog', hlog, List.append_assoc, List.cons_append]
    · intro f hf
      rw [(hopening.refused f hf).2] at hreturned
      contradiction

/-- Whatever comes of the tear-down, the session returns what it would have returned without. -/
theorem returned_runSession (c : Setting β) (specials : Table String (Special β))
    (lines : List Reading.Line) (s : Session β) :
    returned (runSession c specials lines) s = returned (start c specials lines) s := by
  unfold returned runSession
  cases start c specials lines s with
  | ok exit s' => cases htear : tearDown c s' <;> simp only [htear]
  | error e s' => cases htear : tearDown c s' <;> simp only [htear]

theorem tearDown_calls (c : Setting β) (s : Session β) :
    ∃ answer, (after (tearDown c) s).exchanges = s.exchanges ++ [.tearDown answer] := by
  unfold after tearDown exchange
  cases c.backend.tearDown s.world with
  | ok u w => exact ⟨.ok u, rfl⟩
  | error f w => exact ⟨.error f, rfl⟩

end Run

/-- A session sets its backend up, works with it if that succeeds, and tears it down.  A fatal
answer before the tear-down is the last one and is returned.  Once the session is open only a
request to quit, the end of the input, input that cannot be read, output that is refused and a fatal
answer end it. -/
theorem runSession_lifecycle (c : Setting β) (lines : List Reading.Line) (s₀ : Session β) :
    ∃ answer work ending,
      (after (runSession c builtins lines) s₀).exchanges =
        s₀.exchanges ++ .setup c.options answer :: (work ++ [.tearDown ending]) ∧
      (∀ e ∈ work, e.isWork = true) ∧
      (∀ f, answer = .error f → work = []) ∧
      (∀ before e rest f, .setup c.options answer :: work = before ++ e :: rest →
        e.fatal? = some f →
          rest = [] ∧ returned (runSession c builtins lines) s₀ = .error (.backend f)) ∧
      ∀ s₁, opening c s₀ = .ok () s₁ →
        Ends c lines s₀ s₁ (returned (runSession c builtins lines) s₀) := by
  obtain ⟨answer, work, hstart⟩ := setUpFirst_start c lines s₀
  obtain ⟨ending, htear⟩ := tearDown_calls c (after (start c builtins lines) s₀)
  rw [after_runSession, returned_runSession]
  refine ⟨answer, work, ending, ?_, hstart.agree.isWork, fun f hf => (hstart.refused f hf).1,
    ?_, ?_⟩
  · rw [htear, hstart.log, List.append_assoc, List.cons_append]
  · intro before e rest f hsplit hf
    -- the fatal answer is the one of the setup, or of a call after it
    cases before with
    | nil =>
      obtain ⟨rfl, rfl⟩ := List.cons.inj hsplit
      have hanswer : answer = .error f := by
        cases answer with
        | ok u => simp [Exchange.fatal?, Exchange.failure?] at hf
        | error f' =>
          have hfailure : some f' = some f := (Option.filter_eq_some_iff.mp hf).1
          exact congrArg _ (Option.some.inj hfailure)
      exact hstart.refused f hanswer
    | cons first before =>
      obtain ⟨-, rfl⟩ := List.cons.inj hsplit
      exact hstart.agree.fatal_last hf
  · intro s₁ h
    obtain ⟨calls, hends, -, -⟩ := start_ends lines h
    exact hends

/-- A backend that works and is gone when it is to be torn down. -/
def closingSetting : Setting (List (Except Failure Backend.Result)) :=
  .ofBackend (({ Backend.Script.silent with tearDown := .error .connectionClosed }).backend none
    none) (.empty ⟨"lib"⟩) .none fun _ => 0

/-- What is lost in the tear-down is not returned. -/
theorem tearDown_failure_not_returned :
    let lines := Reading.linesOfText ":cljs/quit\n"
    let s₀ := fresh closingSetting default []
    ¬∀ e ∈ (after (runSession closingSetting builtins lines) s₀).exchanges, ∀ f,
      e.fatal? = some f →
        returned (runSession closingSetting builtins lines) s₀ = .error (.backend f) := by
  intro lines s₀ h
  have hanswers : (after (runSession closingSetting builtins lines) s₀).exchanges.map
      Exchange.fatal? = [none, none, some .connectionClosed] := by decide +kernel
  have hquit : (returned (runSession closingSetting builtins lines) s₀).toOption = some .quit := by
    decide +kernel
  obtain ⟨e, he, hfatal⟩ : ∃ e ∈ (after (runSession closingSetting builtins lines) s₀).exchanges,
      e.fatal? = some .connectionClosed := by
    apply List.mem_map.mp
    simp [hanswers]
  rw [h e he _ hfatal] at hquit
  contradiction

end LiveLisp.Session
