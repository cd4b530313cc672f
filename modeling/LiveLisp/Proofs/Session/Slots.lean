import LiveLisp.Proofs.Session.Trace
/-!
# What the prompt remembers

The three last values and the last failure are a function of the trace: they are what the most
recent forms were answered with that were typed at the prompt and wrapped to be recorded.  Whatever
else is typed, and whatever a loaded file evaluates, changes none of them.  A value is remembered
once it is printed, so nothing may be refused by the output.
-/

namespace LiveLisp.Session

open Backend (Result)
open Fallible

variable {β : Type}

/-! ## Recorded results -/

/-- The result of an evaluation that was answered. -/
def Exchange.result? : Exchange → Option Result
  | .evaluate _ _ _ (.ok result) => some result
  | _ => none

/-- Whether what comes of a form typed at the prompt is recorded. -/
def isRecorded (form : Form) : Bool := !isSpecial form && Wrap.ofForm form == .record

/-- The result of the form, if it is one that is recorded and was answered. -/
def Deal.recorded? (d : Deal) : Option Result :=
  d.form?.bind fun form =>
    if isRecorded form then d.calls.getLast?.bind Exchange.result? else none

/-- The recorded values, in the order of the turns. -/
def successes (deals : List Deal) : List String :=
  deals.filterMap fun d => (d.recorded?.filter Result.isSuccess).map Result.value

/-- The recorded failures, in the order of the turns. -/
def failures (deals : List Deal) : List String :=
  deals.filterMap fun d => (d.recorded?.filter (!·.isSuccess)).map Result.value

/-- The prompt remembers the three last values and the last failure. -/
def Remembers (deals : List Deal) (state : State) : Prop :=
  (∀ i < 3, state.value? (i + 1) = (successes deals)[i]?) ∧
    state.lastError = (failures deals).head?

/-- The state after a result came in. -/
def State.recorded (state : State) : Option Result → State
  | some result =>
    if result.isSuccess then state.recordSuccess result.value
    else state.recordFailure result.value
  | none => state

theorem Remembers.enter {deals : List Deal} {state : State} (h : Remembers deals state)
    (ns : String) : Remembers deals (state.enter ns) := h

theorem Remembers.recorded {deals : List Deal} {state : State} (h : Remembers deals state)
    (d : Deal) : Remembers (d :: deals) (state.recorded d.recorded?) := by
  unfold Remembers successes failures State.recorded
  rw [List.filterMap_cons, List.filterMap_cons]
  cases d.recorded? with
  | none => exact h
  | some result =>
    obtain ⟨hvalues, herror⟩ := h
    dsimp only
    cases hsuccess : result.isSuccess with
    | false =>
      simp only [Option.filter_some, hsuccess]
      exact ⟨hvalues, rfl⟩
    | true =>
      simp only [Option.filter_some, hsuccess]
      refine ⟨?_, herror⟩
      intro i hi
      match i with
      | 0 => rfl
      | 1 => exact hvalues 0 (by decide)
      | 2 => exact hvalues 1 (by decide)

/-! ## What is not recorded -/

/-- From `s` to `s'` nothing but the namespace of the prompt changed. -/
def SameSlots (s s' : Session β) : Prop := ∃ ns, s'.state = s.state.enter ns

theorem SameSlots.of_state {s s' : Session β} (h : s'.state = s.state) : SameSlots s s' :=
  ⟨s.state.ns, h⟩

theorem quiet_sameSlots : Quiet (SameSlots (β := β)) where
  refl _ := .of_state rfl
  trans h h' := by
    obtain ⟨ns, hns⟩ := h
    obtain ⟨ns', hns'⟩ := h'
    rw [hns] at hns'
    exact ⟨ns', hns'⟩
  world _ _ := .of_state rfl
  exchange _ _ _ := .of_state rfl
  tracer _ _ := .of_state rfl
  output _ := .of_state rfl
  input _ _ := .of_state rfl

theorem steady_sameSlots (c : Setting β) : Steady c (SameSlots (β := β)) where
  toQuiet := quiet_sameSlots
  learn _ _ _ := .of_state rfl
  enter _ ns := ⟨ns, rfl⟩
  load ns s := .of_state (background_state.loadNamespace c ns s)

theorem sameSlots_evalAndPrint (c : Setting β) {form : Form} (h : Wrap.ofForm form ≠ .record) :
    Keeps SameSlots (evalAndPrint c form) := by
  have hR := steady_sameSlots c
  refine hR.bind (hR.evaluateForm promptFile _ form) fun e => ?_
  have hremember : remember (β := β) (Wrap.ofForm form) e.result = pure () := by
    cases hwrap : Wrap.ofForm form with
    | record => exact absurd hwrap h
    | _ => rfl
  rw [hremember]
  split
  · exact hR.bind (hR.printText _) fun _ => hR.pure _
  · exact hR.bind (hR.pure _) fun _ => hR.displayFailure c form e

/-! ## What is recorded -/

/-- What comes of evaluating an expression: there is one call at most. -/
inductive Expressed (file : String) (line : Nat) (s : Session β) :
    EStateM.Result SessionError (Session β) Evaluation → Prop
  | refused {e : SessionError} {s' : Session β} (hlog : s'.exchanges = s.exchanges)
    (hstate : s'.state = s.state) : Expressed file line s (.error e s')
  | lost {e : SessionError} {code : String} {f : Backend.Failure} {s' : Session β}
    (hlog : s'.exchanges = s.exchanges ++ [.evaluate file line code (.error f)])
    (hstate : s'.state = s.state) : Expressed file line s (.error e s')
  | answered {e : Evaluation} {s' : Session β}
    (hlog : s'.exchanges = s.exchanges ++ [.evaluate file line e.js (.ok e.result)])
    (hstate : s'.state = s.state) : Expressed file line s (.ok e s')

theorem submit_expression (c : Setting β) (file js : String) (form : Form) {ast : Analysis.Ast}
    (h : ast.nsDecl? = none) :
    submit c file js form ast = showScript c js >>= fun _ =>
      send c file form.pos.line js >>= fun result => pure ⟨js, result⟩ := by
  have hload : loadDeclared c ast = pure () := by
    unfold loadDeclared
    rw [h]
  have henter : enterDeclared ast = (pure () : Run β Unit) := by
    unfold enterDeclared
    rw [h]
  unfold submit
  rw [hload, henter]
  congr
  funext _
  rw [pure_bind]
  congr
  funext result
  split <;> rfl

theorem expressed_evaluateForm (c : Setting β) (file : String) {wrap : Wrap} {form : Form}
    (h : (wrap.apply form).isHeadedBy "ns" = false) (s : Session β) :
    Expressed file form.pos.line s (evaluateForm c file wrap form s) := by
  cases hanalyze : Analysis.analyze s.state.ns (wrap.apply form) s.env with
  | error e env =>
    rw [evaluateForm_of_error hanalyze]
    exact .refused rfl rfl
  | ok ast env =>
    have hnone : ast.nsDecl? = none := by
      have hkind := Analysis.analyzed_of_analyze hanalyze
      generalize ast.nsDecl? = decl? at hkind
      cases hkind with
      | declaration hheaded _ _ =>
        rw [h] at hheaded
        contradiction
      | expression _ => rfl
    rw [evaluateForm_of_ok hanalyze, submit_expression c file _ form hnone]
    generalize scriptOf c.options (c.clock s.exchanges.length) form ast = js
    have hmoved := displays_unmoved.showScript c js { s with env := env }
    cases hshow : showScript c js { s with env := env } with
    | error e s₁ =>
      rw [after_of_error hshow] at hmoved
      rw [bind_of_error hshow]
      exact .refused hmoved.exchanges hmoved.state
    | ok u s₁ =>
      rw [after_of_ok hshow] at hmoved
      rw [bind_of_ok hshow]
      have hlog : s₁.exchanges = s.exchanges := hmoved.exchanges
      have hsent := sent_send c file form.pos.line js s₁
      cases hsend : send c file form.pos.line js s₁ with
      | error e s' =>
        rw [hsend] at hsent
        rw [bind_of_error hsend]
        cases hsent with
        | lost hlog' hstate' =>
          rw [hlog] at hlog'
          exact .lost hlog' (hstate'.trans hmoved.state)
      | ok result s' =>
        rw [hsend] at hsent
        rw [bind_of_ok hsend]
        cases hsent with
        | answered hlog' hstate' =>
          rw [hlog] at hlog'
          exact .answered hlog' (hstate'.trans hmoved.state)

/-- If the output refuses nothing from `s` on, neither does it from `s'` on. -/
def Unrefused (s s' : Session β) : Prop := refusal? s.output = none → refusal? s'.output = none

theorem background_unrefused : Background (Unrefused (β := β)) where
  refl _ h := h
  trans h h' hs := h' (h hs)
  world _ _ h := h
  exchange _ _ _ h := h
  env _ _ h := h
  loaded _ _ h := h
  tracer _ _ h := h
  output s h := by
    cases hwrites : s.output with
    | nil => rfl
    | cons write rest =>
      rw [hwrites] at h
      cases write with
      | none => exact h
      | some refusal => contradiction
  input _ _ h := h

theorem sustained_unrefused (c : Setting β) : Sustained c (Unrefused (β := β)) where
  toQuiet := background_unrefused.toQuiet
  learn _ _ _ h := h
  state _ _ h := h
  load := background_unrefused.loadNamespace c

/-- A form that is recorded makes one call at most, and what is recorded is the answer to it. -/
theorem evalAndPrint_recording (c : Setting β) {form : Form} (h : Wrap.ofForm form = .record)
    {s : Session β} (houtput : refusal? s.output = none) :
    ∃ calls, (after (evalAndPrint c form) s).exchanges = s.exchanges ++ calls ∧
      (after (evalAndPrint c form) s).state =
        s.state.recorded (calls.getLast?.bind Exchange.result?) := by
  have hexpressed := expressed_evaluateForm c promptFile
    (isHeadedBy_apply (fun hwrap : Wrap.record = .identity => nomatch hwrap) form) s
  unfold evalAndPrint
  dsimp only
  rw [h]
  cases heval : evaluateForm c promptFile .record form s with
  | error e s' =>
    rw [heval] at hexpressed
    rw [after_of_error (bind_of_error heval)]
    cases hexpressed with
    | refused hlog hstate => exact ⟨[], hlog.trans (List.append_nil _).symm, hstate⟩
    | lost hlog hstate => exact ⟨_, hlog, hstate⟩
  | ok e s' =>
    rw [heval] at hexpressed
    cases hexpressed with
    | answered hlog hstate =>
      refine ⟨[.evaluate promptFile form.pos.line e.js (.ok e.result)], ?_⟩
      rw [after_bind_of_ok heval, List.getLast?_singleton]
      cases hresult : e.result.isSuccess with
      | true =>
        -- the value is printed, since nothing is refused, and then remembered
        have hunrefused := (sustained_unrefused c).evaluateForm promptFile .record form s houtput
        rw [after_of_ok heval] at hunrefused
        have hwritten := written_printText (e.result.value ++ "\n") s'
        simp only [if_true]
        cases hprint : printText (e.result.value ++ "\n") s' with
        | error e' s'' =>
          rw [hprint] at hwritten
          cases hwritten with
          | refused _ hrefusal =>
            exact nomatch hunrefused.symm.trans hrefusal
        | ok u s'' =>
          rw [hprint] at hwritten
          cases hwritten with
          | through hmoved _ =>
            have hremember : remember .record e.result s'' =
                .ok () { s'' with state := s''.state.recorded (some e.result) } := rfl
            rw [after_bind_of_ok hprint, after_of_ok hremember]
            refine ⟨hmoved.exchanges.trans hlog, ?_⟩
            change s''.state.recorded (some e.result) = s.state.recorded (some e.result)
            rw [hmoved.state, hstate]
      | false =>
        have hremember : remember .record e.result s' =
            .ok () { s' with state := s'.state.recorded (some e.result) } := rfl
        have hmoved := displays_unmoved.displayFailure c form e
          { s' with state := s'.state.recorded (some e.result) }
        simp only [Bool.false_eq_true, if_false]
        rw [after_bind_of_ok hremember]
        refine ⟨hmoved.exchanges.trans hlog, hmoved.state.trans ?_⟩
        change s'.state.recorded (some e.result) = s.state.recorded (some e.result)
        rw [hstate]

/-! ## Turns -/

section Turns

variable (c : Setting β)

theorem recorded?_of_no_call {s s' : Session β} (h : s'.exchanges = s.exchanges) :
    (dealt s s').recorded? = none := by
  simp [Deal.recorded?, dealt, h]

theorem recorded?_of_not_recorded {form : Form} {s : Session β} (s' : Session β)
    (hnext : nextForm? s = some form) (h : isRecorded form = false) :
    (dealt s s').recorded? = none := by
  simp [Deal.recorded?, dealt, hnext, h]

theorem recorded?_of_calls {form : Form} {s s' : Session β} {calls : List Exchange}
    (hnext : nextForm? s = some form) (hrecorded : isRecorded form = true)
    (hlog : s'.exchanges = s.exchanges ++ calls) :
    (dealt s s').recorded? = calls.getLast?.bind Exchange.result? := by
  unfold Deal.recorded? dealt
  rw [hnext, hlog, List.drop_left]
  exact if_pos hrecorded

theorem sameSlots_dispatch {form : Form} (h : isRecorded form = false) :
    Keeps SameSlots (dispatch c builtins form) := by
  intro s
  unfold dispatch
  cases hhandler : handler? builtins form with
  | some handler => exact quiet_sameSlots.reporting _ ((steady_sameSlots c).handler hhandler s)
  | none =>
    have hwrap : Wrap.ofForm form ≠ .record := by
      intro hwrap
      simp [isRecorded, handler?_builtins_eq_none_iff.mp hhandler, hwrap] at h
    exact quiet_sameSlots.reporting _ (sameSlots_evalAndPrint c hwrap s)

theorem dispatch_recording {form : Form} (h : isRecorded form = true) {s : Session β}
    (houtput : refusal? s.output = none) :
    ∃ calls, (after (dispatch c builtins form) s).exchanges = s.exchanges ++ calls ∧
      (after (dispatch c builtins form) s).state =
        s.state.recorded (calls.getLast?.bind Exchange.result?) := by
  unfold isRecorded at h
  obtain ⟨hspecial, hwrap⟩ := Bool.and_eq_true_iff.mp h
  have hhandler : handler? (β := β) builtins form = none :=
    handler?_builtins_eq_none_iff.mpr (by simpa using hspecial)
  unfold dispatch
  rw [hhandler]
  dsimp only
  have hmoved := unmoved_reporting (fun e => errorLine c.options.isColored e.message)
    (evalAndPrint c form) s
  rw [hmoved.exchanges, hmoved.state]
  exact evalAndPrint_recording c (eq_of_beq hwrap) houtput

/-- A turn changes the namespace, and records what came of the form that was read. -/
theorem slots_turn {s : Session β} (houtput : refusal? s.output = none) :
    let s' := after (turn c builtins) s
    ∃ ns, s'.state = (s.state.recorded (dealt s s').recorded?).enter ns := by
  intro s'
  rcases after_turn_cases c s with ⟨-, input, hmoved⟩ | ⟨form, input, hread, -, hmoved⟩
  · have hlog : s'.exchanges = s.exchanges := hmoved.exchanges
    refine ⟨s.state.ns, ?_⟩
    rw [recorded?_of_no_call hlog]
    exact hmoved.state
  · have hnext := nextForm?_of_read hread
    cases hform : isRecorded form with
    | false =>
      obtain ⟨ns, hns⟩ := sameSlots_dispatch c hform { s with input := input }
      rw [← hmoved.state] at hns
      rw [recorded?_of_not_recorded s' hnext hform]
      exact ⟨ns, hns⟩
    | true =>
      obtain ⟨calls, hlog, hstate⟩ := dispatch_recording c hform
        (s := { s with input := input }) houtput
      rw [← hmoved.exchanges] at hlog
      rw [← hmoved.state] at hstate
      rw [recorded?_of_calls hnext hform hlog]
      exact ⟨_, hstate⟩

/-- What is neither recorded nor compiled changes nothing. -/
theorem sameSlots_turn {s : Session β}
    (h : ∀ form, nextForm? s = some form → isSpecial form = true ∨ Wrap.ofForm form ≠ .record ∨
      ∃ e env, Analysis.analyze s.state.ns ((Wrap.ofForm form).apply form) s.env = .error e env) :
    SameSlots s (after (turn c builtins) s) := by
  rcases after_turn_cases c s with ⟨-, input, hmoved⟩ | ⟨form, input, hread, -, hmoved⟩
  · exact .of_state hmoved.state
  · refine quiet_sameSlots.trans ?_ (.of_state hmoved.state)
    have hslots : isRecorded form = false →
        SameSlots s (after (dispatch c builtins form) { s with input := input }) := fun hform =>
      quiet_sameSlots.trans (quiet_sameSlots.input s input) (sameSlots_dispatch c hform _)
    rcases h form (nextForm?_of_read hread) with hspecial | hwrap | ⟨e, env, herror⟩
    · apply hslots
      simp [isRecorded, hspecial]
    · apply hslots
      simp [isRecorded, hwrap]
    · by_cases hspecial : isSpecial form = true
      · apply hslots
        simp [isRecorded, hspecial]
      · have hhandler : handler? (β := β) builtins form = none :=
          handler?_builtins_eq_none_iff.mpr (by simpa using hspecial)
        have hrun : evalAndPrint c form { s with input := input } =
            .error (.compile e) { s with input := input, env := env } :=
          bind_of_error (evaluateForm_of_error herror)
        apply SameSlots.of_state
        unfold dispatch
        rw [hhandler]
        refine (unmoved_reporting _ _ _).state.trans ?_
        rw [after_of_error hrun]

end Turns

/-! ## Runs -/

section Run

variable {c : Setting β} {lines : List Reading.Line} {s₀ s : Session β} {deals : List Deal}

theorem Traced.unrefused {fuel : Nat} (h : Traced c lines s₀ deals fuel s)
    (houtput : refusal? s₀.output = none) : refusal? s.output = none :=
  (sustained_unrefused c).atPrompt h.atPrompt houtput

theorem remembers_flush (hstart : Remembers [] s₀.state) (h : opening c s₀ = .ok () s) :
    Remembers [] (after flush { s with input := .ofLines lines }).state := by
  have hopened := (steady_sameSlots c).opening s₀
  rw [after_of_ok h] at hopened
  obtain ⟨ns, hns⟩ := quiet_sameSlots.trans hopened (quiet_sameSlots.flushed s (.ofLines lines))
  rw [hns]
  exact hstart.enter ns

theorem Traced.remembers {fuel : Nat} (h : Traced c lines s₀ deals fuel s)
    (houtput : refusal? s₀.output = none) (hstart : Remembers [] s₀.state) :
    Remembers deals s.state := by
  induction h with
  | first h hflush =>
    rw [← after_of_ok hflush]
    exact remembers_flush hstart h
  | @next deals fuel s s' h hturn ih =>
    obtain ⟨ns, hns⟩ := slots_turn c (h.unrefused houtput)
    rw [after_of_ok hturn] at hns
    rw [hns]
    exact (ih.recorded _).enter ns

theorem InFile.sameSlots {file : String} {forms : List Form} {s' : Session β}
    (h : InFile c file forms s s') : SameSlots s s' := by
  induction h with
  | here => exact quiet_sameSlots.refl _
  | @next form rest e s s₁ s' heval _ _ ih =>
    have hform := (steady_sameSlots c).evaluateForm file .identity form s
    rw [after_of_ok heval] at hform
    exact quiet_sameSlots.trans hform ih

theorem Point.remembers (h : Point c lines s₀ deals s) (houtput : refusal? s₀.output = none)
    (hstart : Remembers [] s₀.state) : Remembers deals s.state := by
  induction h with
  | start => exact hstart
  | opened =>
    obtain ⟨ns, hns⟩ := (steady_sameSlots c).opening s₀
    rw [hns]
    exact hstart.enter ns
  | flushed h => exact remembers_flush hstart h
  | prompt h => exact h.remembers houtput hstart
  | inFile h _ _ _ _ hin =>
    -- a turn is counted once the file is done
    obtain ⟨ns, hns⟩ := hin.sameSlots
    rw [hns]
    exact (h.remembers houtput hstart).enter ns
  | turned h =>
    obtain ⟨ns, hns⟩ := slots_turn c (h.unrefused houtput)
    rw [hns]
    exact ((h.remembers houtput hstart).recorded _).enter ns
  | closed _ ih =>
    obtain ⟨ns, hns⟩ := quiet_sameSlots.onBackend .tearDown c.backend.tearDown
      (after (Session.start c builtins lines) s₀)
    rw [after_runSession, tearDown, hns]
    exact ih.enter ns

end Run

/-- If the output refuses nothing, the values and the failure that the prompt remembers are those of
the forms that were typed, wrapped to be recorded and answered, the most recent first, at every
point of a run.  A turn changes none of them if it reads nothing, a special form, a declaration or
one of the remembered values by its symbol, or a form that does not compile. -/
theorem slots_of_trace (c : Setting β) (houtput : refusal? c.output = none) (files : Files.Tree)
    (backend : β) (lines : List Reading.Line) {deals : List Deal} {s : Session β}
    (h : Point c lines (fresh c files backend) deals s) :
    (∀ i < 3, s.state.value? (i + 1) = (successes deals)[i]?) ∧
      s.state.lastError = (failures deals).head? ∧
      ∀ t : Session β, (∀ form, nextForm? t = some form → isSpecial form = true ∨
          Wrap.ofForm form ≠ .record ∨ ∃ e env,
            Analysis.analyze t.state.ns ((Wrap.ofForm form).apply form) t.env = .error e env) →
        ∃ ns, (after (turn c builtins) t).state = t.state.enter ns := by
  have hstart : Remembers [] (fresh c files backend).state := by
    refine ⟨?_, rfl⟩
    intro i hi
    match i with
    | 0 | 1 | 2 => rfl
  obtain ⟨hvalues, herror⟩ := h.remembers houtput hstart
  exact ⟨hvalues, herror, fun t ht => sameSlots_turn c ht⟩

/-- Two values, a failure, and a look at the last value. -/
theorem slots_of_sample :
    let lines := Reading.linesOfText "1\n2\n(nope)\n*1\n"
    let answers : List (Except Backend.Failure Result) :=
      [.ok (.success "nil"), .ok (.success "1"), .ok (.success "2"), .ok (.error "boom" none),
        .ok (.success "2")]
    let s := after (runSession preparedSetting builtins lines)
      (fresh preparedSetting default answers)
    ∃ deals, Point preparedSetting lines (fresh preparedSetting default answers) deals s ∧
      (successes deals)[0]? = some "2" ∧ (successes deals)[1]? = some "1" ∧
      (successes deals)[2]? = none ∧ (failures deals).head? = some "boom" := by
  intro lines answers s
  obtain ⟨deals, hpoint⟩ := exists_point_runSession preparedSetting lines
    (fresh preparedSetting default answers)
  obtain ⟨hvalues, herror, -⟩ := slots_of_trace preparedSetting rfl default answers lines hpoint
  refine ⟨deals, hpoint, ?_, ?_, ?_, ?_⟩
  · rw [← hvalues 0 (by decide)]
    decide +kernel
  · rw [← hvalues 1 (by decide)]
    decide +kernel
  · rw [← hvalues 2 (by decide)]
    decide +kernel
  · rw [← herror]
    decide +kernel

end LiveLisp.Session
