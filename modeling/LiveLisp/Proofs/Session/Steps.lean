import LiveLisp.Proofs.Fallible
import LiveLisp.Session.Loop
/-!
# Steps of a session

What computations do to a session, whether they succeed or fail.  A relation between sessions that
is kept by printing, by backend calls, by analysis and by loading is kept by all that is made of
these; what the prompt remembers is changed by few others.  A write that is refused ends the
session, and what it was refused for was to come from the start.  At the end the turns of the prompt
are opened, and the places where a run stands between them are named.
-/

namespace LiveLisp.Session

open Fallible

variable {α α' β : Type}

/-- The session that a computation leaves behind. -/
def after (x : Run β α) (s : Session β) : Session β :=
  match x s with
  | .ok _ s' | .error _ s' => s'

theorem after_of_ok {x : Run β α} {s s' : Session β} {a : α} (h : x s = .ok a s') :
    after x s = s' := by
  simp [after, h]

theorem after_of_error {x : Run β α} {s s' : Session β} {e : SessionError}
    (h : x s = .error e s') : after x s = s' := by
  simp [after, h]

theorem after_bind_of_ok {x : Run β α} {k : α → Run β α'} {s s₁ : Session β} {a : α}
    (h : x s = .ok a s₁) : after (x >>= k) s = after (k a) s₁ := by
  simp only [after, bind_of_ok h]

theorem after_bind_pure (x : Run β α) (g : α → α') (s : Session β) :
    after (x >>= fun a => pure (g a)) s = after x s := by
  cases h : x s with
  | ok a s' =>
    have hbind : (x >>= fun a => pure (g a)) s = .ok (g a) s' := bind_of_ok h
    rw [after_of_ok h, after_of_ok hbind]
  | error e s' => rw [after_of_error h, after_of_error (bind_of_error h)]

/-! ## Properties of compound computations -/

/-- A property of computations that printing has, and that is passed on from parts to the whole. -/
structure Prints (T : (α : Type) → Run β α → Prop) : Prop where
  pure : ∀ {α : Type} (a : α), T α (pure a)
  throw : ∀ {α : Type} {e : SessionError}, e.isFatal = false → T α (throw e)
  bind : ∀ {α α' : Type} {x : Run β α} {k : α → Run β α'}, T α x → (∀ a, T α' (k a)) →
    T α' (x >>= k)
  get : T (Session β) get
  printText : ∀ text, T Unit (printText text)
  printTrace : ∀ c result, T Unit (printTrace c result)

theorem Prints.displayFailure {T : (α : Type) → Run β α → Prop} (hT : Prints T) (c : Setting β)
    (form : Form) (e : Evaluation) : T Unit (displayFailure c form e) := by
  refine hT.bind (hT.printText _) fun _ => hT.bind (hT.printTrace c _) fun _ => ?_
  split
  · exact hT.printText _
  · exact hT.pure _

/-- Such a property that backend calls and file work have as well. -/
structure Composes (T : (α : Type) → Run β α → Prop) : Prop extends Prints T where
  onFiles : ∀ {α : Type} (build : Library.Build α), T α (onFiles build)
  send : ∀ c file line code, T Backend.Result (send c file line code)
  deliver : ∀ c provides url, T Unit (deliver c provides url)

namespace Composes

variable {T : (α : Type) → Run β α → Prop}

theorem deliverUnit (hT : Composes T) (c : Setting β) (r : Library.Record) :
    T Unit (deliverUnit c r) := by
  unfold Session.deliverUnit
  split
  · refine hT.bind (hT.onFiles _) fun _ => hT.bind (hT.send c _ _ _) fun result => ?_
    split
    · exact hT.throw rfl
    · exact hT.pure _
  · exact hT.deliver c _ _

theorem loadEach (hT : Composes T) {c : Setting β} (hload : ∀ ns, T Nat (loadNamespace c ns))
    (namespaces : List String) : T Nat (loadEach c namespaces) := by
  induction namespaces with
  | nil => exact hT.pure _
  | cons ns rest ih => exact hT.bind (hload ns) fun n => hT.bind ih fun m => hT.pure _

theorem loadDeclared (hT : Composes T) {c : Setting β} (hload : ∀ ns, T Nat (loadNamespace c ns))
    (ast : Analysis.Ast) : T Unit (loadDeclared c ast) := by
  unfold Session.loadDeclared
  split
  · exact hT.bind (hT.loadEach hload _) fun _ => hT.pure _
  · exact hT.pure _

end Composes

/-- A property that all that goes on behind the prompt has, loading included. -/
structure Loads (T : (α : Type) → Run β α → Prop) : Prop extends Composes T where
  loaded : ∀ names, T PUnit (modify fun s => { s with loaded := s.loaded ++ names })

namespace Loads

variable {T : (α : Type) → Run β α → Prop}

theorem deliverAll (hT : Loads T) (c : Setting β) (records : List Library.Record) :
    T Nat (deliverAll c records) := by
  induction records with
  | nil => exact hT.pure _
  | cons r rest ih =>
    refine hT.bind hT.get fun s => ?_
    split
    · exact ih
    · exact hT.bind (hT.deliverUnit c r) fun _ => hT.bind (hT.loaded _) fun _ =>
        hT.bind ih fun n => hT.pure _

theorem loadNamespace (hT : Loads T) (c : Setting β) (ns : String) :
    T Nat (loadNamespace c ns) := by
  unfold Session.loadNamespace
  split
  · exact hT.throw rfl
  · exact hT.deliverAll c _

end Loads

/-! ## Kept relations -/

/-- `x` leaves behind a session that is related to the one it began with. -/
def Keeps (R : Session β → Session β → Prop) (x : Run β α) : Prop := ∀ s, R s (after x s)

/-- Relations that hold across printing. -/
structure Displays (R : Session β → Session β → Prop) : Prop where
  refl : ∀ s, R s s
  trans : ∀ {s s' s''}, R s s' → R s' s'' → R s s''
  world : ∀ s w, R s { s with world := w }
  tracer : ∀ s tracer, R s { s with tracer := tracer }
  output : ∀ s, R s { s with output := s.output.tail }

/-- Relations that hold across backend calls and reading, too. -/
structure Quiet (R : Session β → Session β → Prop) : Prop extends Displays R where
  exchange : ∀ s w e, R s { s with world := w, exchanges := s.exchanges ++ [e] }
  input : ∀ s input, R s { s with input := input }

/-- Relations that hold across analysis as well, whatever comes of it. -/
structure Ambient (R : Session β → Session β → Prop) : Prop extends Quiet R where
  env : ∀ s env, R s { s with env := env }

/-- What is done may depend on the session as it is. -/
theorem keeps_get_bind {R : Session β → Session β → Prop} {k : Session β → Run β α}
    (hk : ∀ s, R s (after (k s) s)) : Keeps R (get >>= k) := fun s => hk s

namespace Displays

variable {R : Session β → Session β → Prop}

theorem pure (hR : Displays R) (a : α) : Keeps R (pure a : Run β α) := fun s => hR.refl s

theorem throw (hR : Displays R) (e : SessionError) : Keeps R (throw e : Run β α) :=
  fun s => hR.refl s

theorem after_bind (hR : Displays R) {x : Run β α} {k : α → Run β α'} {s : Session β}
    (hx : R s (after x s)) (hk : ∀ a, Keeps R (k a)) : R s (after (x >>= k) s) := by
  cases h : x s with
  | ok a s₁ =>
    rw [after_of_ok h] at hx
    rw [after_bind_of_ok h]
    exact hR.trans hx (hk a s₁)
  | error e s₁ =>
    rw [after_of_error h] at hx
    rwa [after_of_error (bind_of_error h)]

theorem bind (hR : Displays R) {x : Run β α} {k : α → Run β α'} (hx : Keeps R x)
    (hk : ∀ a, Keeps R (k a)) : Keeps R (x >>= k) := fun s => hR.after_bind (hx s) hk

theorem nextWrite (hR : Displays R) : Keeps R nextWrite := fun s => hR.output s

theorem printText (hR : Displays R) (text : String) : Keeps R (printText text) := by
  refine hR.bind hR.nextWrite fun refusal? => ?_
  split
  · exact fun s => hR.world s _
  · exact hR.bind (fun s => hR.world s _) fun _ => hR.throw _

theorem flush (hR : Displays R) : Keeps R (flush : Run β Unit) := by
  refine hR.bind hR.nextWrite fun refusal? => ?_
  split
  · exact hR.pure _
  · exact hR.throw _

theorem showScript (hR : Displays R) (c : Setting β) (js : String) :
    Keeps R (showScript c js) := by
  unfold Session.showScript
  split
  · exact hR.printText _
  · exact hR.pure _

theorem printTrace (hR : Displays R) (c : Setting β) (result : Backend.Result) :
    Keeps R (printTrace c result) := by
  unfold Session.printTrace
  split
  · exact hR.pure _
  · exact keeps_get_bind fun s => hR.after_bind (hR.tracer s _) fun _ => hR.printText _
  · exact hR.printText _

theorem prints (hR : Displays R) : Prints fun α (x : Run β α) => Keeps R x where
  pure a := hR.pure a
  throw _ := hR.throw _
  bind := hR.bind
  get s := hR.refl s
  printText := hR.printText
  printTrace := hR.printTrace

theorem displayFailure (hR : Displays R) (c : Setting β) (form : Form) (e : Evaluation) :
    Keeps R (displayFailure c form e) := hR.prints.displayFailure c form e

end Displays

/-- From `s` to `s'` nothing changed but what is shown. -/
def Unmoved (s s' : Session β) : Prop :=
  ∃ world tracer writes,
    s' = { s with world := world, tracer := tracer, output := s.output.drop writes }

theorem displays_unmoved : Displays (Unmoved (β := β)) where
  refl s := ⟨s.world, s.tracer, 0, rfl⟩
  trans := by
    rintro s - - ⟨world, tracer, writes, rfl⟩ ⟨world', tracer', writes', rfl⟩
    exact ⟨world', tracer', writes + writes', by simp⟩
  world s w := ⟨w, s.tracer, 0, rfl⟩
  tracer s tracer := ⟨s.world, tracer, 0, rfl⟩
  output s := ⟨s.world, s.tracer, 1, by simp⟩

namespace Unmoved

variable {s s' : Session β}

/-- Whatever holds across printing holds if nothing but what is shown changed. -/
theorem related (h : Unmoved s s') {R : Session β → Session β → Prop} (hR : Displays R) :
    R s s' := by
  have hdrop : ∀ writes, R s { s with output := s.output.drop writes } := by
    intro writes
    induction writes with
    | zero => exact hR.refl s
    | succ writes ih =>
      rw [← List.tail_drop]
      exact hR.trans ih (hR.output _)
  obtain ⟨world, tracer, writes, rfl⟩ := h
  exact hR.trans (hdrop writes) (hR.trans (hR.world _ world) (hR.tracer _ tracer))

theorem state (h : Unmoved s s') : s'.state = s.state := by
  obtain ⟨world, tracer, writes, rfl⟩ := h
  rfl

theorem env (h : Unmoved s s') : s'.env = s.env := by
  obtain ⟨world, tracer, writes, rfl⟩ := h
  rfl

theorem input (h : Unmoved s s') : s'.input = s.input := by
  obtain ⟨world, tracer, writes, rfl⟩ := h
  rfl

theorem exchanges (h : Unmoved s s') : s'.exchanges = s.exchanges := by
  obtain ⟨world, tracer, writes, rfl⟩ := h
  rfl

end Unmoved

/-! ## Writes -/

/-- The first refusal among writes that are to come. -/
def refusal? (output : List (Option Refusal)) : Option Refusal := output.findSome? id

/-- What comes of a write: it goes through, or it is the first that is refused. -/
inductive Written (s : Session β) : EStateM.Result SessionError (Session β) Unit → Prop
  | through {s' : Session β} (h : Unmoved s s') (houtput : refusal? s'.output = refusal? s.output) :
    Written s (.ok () s')
  | refused {refusal : Refusal} {s' : Session β} (h : Unmoved s s')
    (houtput : refusal? s.output = some refusal) : Written s (.error (.input refusal.reason) s')

theorem refusal?_tail {output : List (Option Refusal)} (h : output.head?.join = none) :
    refusal? output.tail = refusal? output := by
  cases output with
  | nil => rfl
  | cons write rest =>
    obtain rfl : write = none := h
    rfl

theorem refusal?_of_head {output : List (Option Refusal)} {refusal : Refusal}
    (h : output.head?.join = some refusal) : refusal? output = some refusal := by
  cases output with
  | nil => contradiction
  | cons write rest =>
    obtain rfl : write = some refusal := h
    rfl

theorem written_printText (text : String) (s : Session β) : Written s (printText text s) := by
  have hmoved := displays_unmoved.printText text s
  cases hnext : s.output.head?.join with
  | none =>
    have hrun : printText text s =
        .ok () (({ s with output := s.output.tail } : Session β).print text) := by
      refine (bind_of_ok rfl).trans ?_
      rw [hnext]
      rfl
    rw [after_of_ok hrun] at hmoved
    rw [hrun]
    exact .through hmoved (refusal?_tail hnext)
  | some refusal =>
    have hrun : printText text s = .error (.input refusal.reason)
        (({ s with output := s.output.tail } : Session β).print
          (String.ofList (text.toList.take refusal.written))) := by
      refine (bind_of_ok rfl).trans ?_
      rw [hnext]
      rfl
    rw [after_of_error hrun] at hmoved
    rw [hrun]
    exact .refused hmoved (refusal?_of_head hnext)

theorem input_of_printText {text : String} {s s' : Session β} {e : SessionError}
    (h : printText text s = .error e s') : ∃ reason, e = .input reason := by
  have hwritten := written_printText text s
  rw [h] at hwritten
  cases hwritten
  exact ⟨_, rfl⟩

theorem written_flush (s : Session β) : Written s (flush s) := by
  have hmoved := displays_unmoved.flush s
  cases hnext : s.output.head?.join with
  | none =>
    have hrun : flush s = .ok () { s with output := s.output.tail } := by
      refine (bind_of_ok rfl).trans ?_
      rw [hnext]
      rfl
    rw [after_of_ok hrun] at hmoved
    rw [hrun]
    exact .through hmoved (refusal?_tail hnext)
  | some refusal =>
    have hrun : flush s = .error (.input refusal.reason) { s with output := s.output.tail } := by
      refine (bind_of_ok rfl).trans ?_
      rw [hnext]
      rfl
    rw [after_of_error hrun] at hmoved
    rw [hrun]
    exact .refused hmoved (refusal?_of_head hnext)

namespace Quiet

variable {R : Session β → Session β → Prop}

theorem onFiles (hR : Quiet R) (build : Library.Build α) : Keeps R (onFiles build) := by
  intro s
  unfold after Session.onFiles
  cases build s.world.files <;> exact hR.world s _

theorem onBackend (hR : Quiet R) (entry : Except Backend.Failure α → Exchange)
    (call : Backend.Call β α) : Keeps R (Session.exchange entry call) := by
  intro s
  unfold after Session.exchange
  cases call s.world <;> exact hR.exchange s _ _

theorem send (hR : Quiet R) (c : Setting β) (file : String) (line : Nat) (code : String) :
    Keeps R (send c file line code) := hR.onBackend _ _

/-- The input is given, and what was printed goes out. -/
theorem flushed (hR : Quiet R) (s : Session β) (input : Reading.Cursor) :
    R s (after flush { s with input := input }) := hR.trans (hR.input s input) (hR.flush _)

theorem composes (hR : Quiet R) : Composes fun α (x : Run β α) => Keeps R x where
  toPrints := hR.prints
  onFiles := hR.onFiles
  send := hR.send
  deliver _ _ _ := hR.onBackend _ _

end Quiet

/-- Relations that hold across what goes on behind the prompt: all of this, and loading. -/
structure Background (R : Session β → Session β → Prop) : Prop extends Ambient R where
  loaded : ∀ s names, R s { s with loaded := s.loaded ++ names }

namespace Background

variable {R : Session β → Session β → Prop}

theorem loads (hR : Background R) : Loads fun α (x : Run β α) => Keeps R x where
  toComposes := hR.composes
  loaded names s := hR.loaded s names

theorem deliverAll (hR : Background R) (c : Setting β) (records : List Library.Record) :
    Keeps R (deliverAll c records) := hR.loads.deliverAll c records

theorem loadNamespace (hR : Background R) (c : Setting β) (ns : String) :
    Keeps R (loadNamespace c ns) := hR.loads.loadNamespace c ns

theorem loadEach (hR : Background R) (c : Setting β) (namespaces : List String) :
    Keeps R (loadEach c namespaces) := hR.composes.loadEach (hR.loadNamespace c) namespaces

theorem loadDeclared (hR : Background R) (c : Setting β) (ast : Analysis.Ast) :
    Keeps R (loadDeclared c ast) := hR.composes.loadDeclared (hR.loadNamespace c) ast

end Background

/-- `s'` came from `s` by what goes on behind the prompt. -/
def Behind (s s' : Session β) : Prop := ∀ R, Background R → R s s'

theorem background_behind : Background (Behind (β := β)) where
  refl s _ hR := hR.refl s
  trans h h' R hR := hR.trans (h R hR) (h' R hR)
  world s w _ hR := hR.world s w
  exchange s w e _ hR := hR.exchange s w e
  env s env _ hR := hR.env s env
  loaded s names _ hR := hR.loaded s names
  tracer s tracer _ hR := hR.tracer s tracer
  output s _ hR := hR.output s
  input s input _ hR := hR.input s input

/-! ## Evaluation -/

/-- The session in the namespace of a declaration; other forms leave it where it is. -/
def declared (ast : Analysis.Ast) (s : Session β) : Session β :=
  match ast.nsDecl? with
  | some decl => { s with state := s.state.enter decl.name }
  | none => s

theorem enterDeclared_eq (ast : Analysis.Ast) (s : Session β) :
    enterDeclared ast s = .ok () (declared ast s) := by
  unfold enterDeclared declared
  cases ast.nsDecl? <;> rfl

/-- The script of an analyzed form goes out once it was shown, if it is to be, and what it declares
has been loaded. -/
def submit (c : Setting β) (file js : String) (form : Form) (ast : Analysis.Ast) :
    Run β Evaluation := do
  showScript c js
  loadDeclared c ast
  let result ← send c file form.pos.line js
  if result.isSuccess then enterDeclared ast
  return ⟨js, result⟩

theorem submit_cases (c : Setting β) (file js : String) (form : Form) (ast : Analysis.Ast)
    (s : Session β) :
    (∃ e s', submit c file js form ast s = .error e s' ∧ Behind s s') ∨
      ∃ result s₁ s₂ s₃, Unmoved s s₁ ∧ loadDeclared c ast s₁ = .ok () s₂ ∧
        send c file form.pos.line js s₂ = .ok result s₃ ∧
        submit c file js form ast s =
          .ok ⟨js, result⟩ (if result.isSuccess then declared ast s₃ else s₃) := by
  have hshow := displays_unmoved.showScript c js s
  unfold submit
  cases h : showScript c js s with
  | error e s₁ =>
    rw [after_of_error h] at hshow
    exact .inl ⟨e, s₁, bind_of_error h, hshow.related background_behind.toDisplays⟩
  | ok u s₁ =>
    rw [after_of_ok h] at hshow
    rw [bind_of_ok h]
    have hbehind : Behind s s₁ := hshow.related background_behind.toDisplays
    have hload := background_behind.loadDeclared c ast s₁
    cases h' : loadDeclared c ast s₁ with
    | error e s₂ =>
      rw [after_of_error h'] at hload
      exact .inl ⟨e, s₂, bind_of_error h', background_behind.trans hbehind hload⟩
    | ok u s₂ =>
      rw [after_of_ok h'] at hload
      rw [bind_of_ok h']
      have hsend := background_behind.send c file form.pos.line js s₂
      cases h'' : send c file form.pos.line js s₂ with
      | error e s₃ =>
        rw [after_of_error h''] at hsend
        refine .inl ⟨e, s₃, bind_of_error h'', ?_⟩
        exact background_behind.trans hbehind (background_behind.trans hload hsend)
      | ok result s₃ =>
        refine .inr ⟨result, s₁, s₂, s₃, hshow, h', h'', ?_⟩
        rw [bind_of_ok h'']
        cases hsuccess : result.isSuccess with
        | false => rfl
        | true => exact bind_of_ok (enterDeclared_eq ast s₃)

section Analyzed

variable {c : Setting β} {file : String} {wrap : Wrap} {form : Form} {s : Session β}
  {env : Analysis.Env}

/-- A form that is refused by the analysis goes nowhere. -/
theorem evaluateForm_of_error {e : Analysis.CompileError}
    (h : Analysis.analyze s.state.ns (wrap.apply form) s.env = .error e env) :
    evaluateForm c file wrap form s = .error (.compile e) { s with env := env } := by
  have henv : onEnv (Analysis.analyze s.state.ns (wrap.apply form)) s =
      .error (.compile e) { s with env := env } := by
    simp only [onEnv, h]
  exact (bind_of_ok rfl).trans (bind_of_error henv)

theorem evaluateForm_of_ok {ast : Analysis.Ast}
    (h : Analysis.analyze s.state.ns (wrap.apply form) s.env = .ok ast env) :
    let js := scriptOf c.options (c.clock s.exchanges.length) form ast
    evaluateForm c file wrap form s = submit c file js form ast { s with env := env } := by
  have henv : onEnv (Analysis.analyze s.state.ns (wrap.apply form)) s =
      .ok ast { s with env := env } := by
    simp only [onEnv, h]
  refine (bind_of_ok rfl).trans ((bind_of_ok henv).trans ((bind_of_ok rfl).trans ?_))
  rfl

end Analyzed

/-- An evaluation fails behind the prompt, or the script of the analyzed form is answered; only
then, and only if the answer is a success, a declared namespace is entered. -/
theorem evaluateForm_cases (c : Setting β) (file : String) (wrap : Wrap) (form : Form)
    (s : Session β) :
    (∃ e s', evaluateForm c file wrap form s = .error e s' ∧ Behind s s') ∨
      ∃ ast env now result s₁ s₂ s₃,
        Analysis.analyze s.state.ns (wrap.apply form) s.env = .ok ast env ∧
        Behind s s₁ ∧ loadDeclared c ast s₁ = .ok () s₂ ∧
        send c file form.pos.line (scriptOf c.options now form ast) s₂ = .ok result s₃ ∧
        evaluateForm c file wrap form s = .ok ⟨scriptOf c.options now form ast, result⟩
          (if result.isSuccess then declared ast s₃ else s₃) := by
  cases h : Analysis.analyze s.state.ns (wrap.apply form) s.env with
  | error e env => exact .inl ⟨_, _, evaluateForm_of_error h, background_behind.env s env⟩
  | ok ast env =>
    let js := scriptOf c.options (c.clock s.exchanges.length) form ast
    have hlearnt : Behind s { s with env := env } := background_behind.env s env
    have hsubmit : evaluateForm c file wrap form s =
        submit c file js form ast { s with env := env } := evaluateForm_of_ok h
    rcases submit_cases c file js form ast { s with env := env } with ⟨e, s', hfail, hbehind⟩ |
      ⟨result, s₁, s₂, s₃, hshow, hload, hsend, hok⟩
    · exact .inl ⟨e, s', hsubmit.trans hfail, background_behind.trans hlearnt hbehind⟩
    · have hbehind : Behind s s₁ :=
        background_behind.trans hlearnt (hshow.related background_behind.toDisplays)
      exact .inr ⟨ast, env, _, result, s₁, s₂, s₃, rfl, hbehind, hload, hsend, hsubmit.trans hok⟩

/-! ## Turns -/

/-- A failure that does not end the session is printed, and that is all. -/
theorem unmoved_reporting (report : SessionError → String) (action : Run β Unit) (s : Session β) :
    Unmoved (after action s) (after (reporting report action) s) := by
  unfold after reporting
  cases haction : action s with
  | ok u s' => exact displays_unmoved.refl s'
  | error e s' =>
    dsimp only
    by_cases hfatal : e.isFatal = true
    · rw [if_pos hfatal]
      exact displays_unmoved.refl s'
    · rw [if_neg hfatal]
      exact displays_unmoved.printText (report e) s'

theorem Displays.reporting {R : Session β → Session β → Prop} (hR : Displays R)
    (report : SessionError → String) {action : Run β Unit} {s : Session β}
    (h : R s (after action s)) : R s (after (reporting report action) s) :=
  hR.trans h ((unmoved_reporting report action s).related hR)

theorem handler?_eq_some_iff {specials : Table String (Special β)} {form : Form}
    {handler : Special β} :
    handler? specials form = some handler ↔
      ∃ name, form.isHeadedBy name = true ∧ specials.get? name = some handler := by
  unfold handler? Form.isHeadedBy
  simp only [Option.bind_eq_some_iff, Option.any_eq_true, Symbol.plainName?_eq_some_iff]

/-- The built-in special forms. -/
theorem handler?_builtins {form : Form} {handler : Special β}
    (h : handler? builtins form = some handler) :
    (form.isHeadedBy "in-ns" = true ∧ handler = inNs) ∨
      (∃ clause ∈ ["require", "require-macros"], form.isHeadedBy clause = true ∧
        handler = requireBy clause) ∨
      (form.isHeadedBy "load-file" = true ∧ handler = loadFile) ∨
      (form.isHeadedBy "load-namespace" = true ∧ handler = loadNamespaceForm) := by
  obtain ⟨name, hheaded, hget⟩ := handler?_eq_some_iff.mp h
  have hmem := Table.mem_entries_of_get? hget
  simp only [builtins, List.mem_cons, Prod.mk.injEq, List.not_mem_nil, or_false] at hmem
  rcases hmem with ⟨rfl, rfl⟩ | ⟨rfl, rfl⟩ | ⟨rfl, rfl⟩ | ⟨rfl, rfl⟩ | ⟨rfl, rfl⟩
  · exact .inl ⟨hheaded, rfl⟩
  · exact .inr (.inl ⟨_, by simp, hheaded, rfl⟩)
  · exact .inr (.inl ⟨_, by simp, hheaded, rfl⟩)
  · exact .inr (.inr (.inl ⟨hheaded, rfl⟩))
  · exact .inr (.inr (.inr ⟨hheaded, rfl⟩))

/-- What a turn does, by what is read. -/
theorem advance_eq (c : Setting β) (specials : Table String (Special β)) (s : Session β) :
    advance c specials s =
      match Reading.read s.state.prompt s.input with
      | .ok .lineStart input => .ok none { s with input := input }
      | .ok .streamEnd input => .ok (some .endOfInput) { s with input := input }
      | .ok (.form form) input =>
        if isQuit form then .ok (some .quit) { s with input := input }
        else (dispatch c specials form >>= fun _ => pure none) { s with input := input }
      | .error (.input reason) input => .error (.input reason) { s with input := input }
      | .error e input =>
        (printText (errorLine c.options.isColored e.message) >>= fun _ => pure none)
          { s with input := input } := by
  unfold advance
  cases h : Reading.read s.state.prompt s.input with
  | ok outcome input =>
    have hread : readForm s = .ok (.ok outcome) { s with input := input } := by
      simp only [readForm, h]
    rw [bind_of_ok hread]
    cases outcome with
    | lineStart | streamEnd => rfl
    | form form => by_cases hquit : isQuit form = true <;> simp only [hquit] <;> rfl
  | error e input =>
    have hread : readForm s = .ok (.error e) { s with input := input } := by
      simp only [readForm, h]
    rw [bind_of_ok hread]
    cases e <;> rfl

/-- A turn flushes at most, once it has dealt with what was read. -/
theorem unmoved_turn (c : Setting β) (specials : Table String (Special β)) (s : Session β) :
    Unmoved (after (advance c specials) s) (after (turn c specials) s) := by
  unfold turn
  cases h : advance c specials s with
  | error e s' =>
    rw [after_of_error h, after_of_error (bind_of_error h)]
    exact displays_unmoved.refl s'
  | ok exit? s' =>
    rw [after_of_ok h, after_bind_of_ok h]
    cases exit? with
    | some exit => exact displays_unmoved.refl s'
    | none =>
      exact displays_unmoved.bind displays_unmoved.flush (fun _ => displays_unmoved.pure _) s'

theorem loop_succ (c : Setting β) (specials : Table String (Special β)) (fuel : Nat) :
    loop c specials (fuel + 1) = turn c specials >>= fun
      | some exit => pure exit
      | none => loop c specials fuel := rfl

theorem after_runSession (c : Setting β) (specials : Table String (Special β))
    (lines : List Reading.Line) (s : Session β) :
    after (runSession c specials lines) s =
      after (tearDown c) (after (start c specials lines) s) := by
  unfold after runSession
  cases start c specials lines s with
  | ok exit s' => cases htear : tearDown c s' <;> simp only [htear]
  | error e s' => cases htear : tearDown c s' <;> simp only [htear]

/-- What comes before the forms of the input. -/
def opening (c : Setting β) : Run β Unit := do
  setUp c
  printText banner
  let e ← evaluateForm c promptFile .identity (startingForm (← get).state.ns)
  if e.result.isSuccess then return
  else throw (.evaluationFailed e.result.value)

theorem start_eq (c : Setting β) (specials : Table String (Special β))
    (lines : List Reading.Line) :
    start c specials lines = opening c >>= fun _ => run c specials lines := by
  simp only [start, opening, bind_assoc]
  congr
  funext _
  congr
  funext _
  congr
  funext s
  congr
  funext e
  cases e.result.isSuccess <;> simp [throw_bind]

/-- If the first flush is refused there is no prompt. -/
theorem start_of_refused {c : Setting β} {specials : Table String (Special β)}
    {lines : List Reading.Line} {s₀ s s' : Session β} {e : SessionError}
    (h : opening c s₀ = .ok () s)
    (hflush : flush { s with input := .ofLines lines } = .error e s') :
    start c specials lines s₀ = .error e s' := by
  rw [start_eq, bind_of_ok h]
  exact (bind_of_ok rfl).trans (bind_of_error hflush)

/-- The run that began at `s₀` stands at the prompt in `s`, with `fuel` turns at most to come. -/
inductive AtPrompt (c : Setting β) (specials : Table String (Special β))
    (lines : List Reading.Line) (s₀ : Session β) : Nat → Session β → Prop
  | first {s s' : Session β} (h : opening c s₀ = .ok () s)
    (hflush : flush { s with input := .ofLines lines } = .ok () s') :
    AtPrompt c specials lines s₀ ((Reading.Cursor.ofLines lines).size + 2) s'
  | next {fuel : Nat} {s s' : Session β} (h : AtPrompt c specials lines s₀ (fuel + 1) s)
    (hturn : turn c specials s = .ok none s') : AtPrompt c specials lines s₀ fuel s'

/-- What is left to do at the prompt is the rest of the run. -/
theorem AtPrompt.start_eq {c : Setting β} {specials : Table String (Special β)}
    {lines : List Reading.Line} {s₀ s : Session β} {fuel : Nat}
    (h : AtPrompt c specials lines s₀ fuel s) :
    start c specials lines s₀ = loop c specials fuel s := by
  induction h with
  | first h hflush =>
    rw [Session.start_eq, bind_of_ok h]
    exact (bind_of_ok rfl).trans (bind_of_ok hflush)
  | next _ hturn ih =>
    rw [ih, loop_succ]
    exact bind_of_ok hturn

end LiveLisp.Session
