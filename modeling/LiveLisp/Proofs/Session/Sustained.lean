import LiveLisp.Proofs.Analysis.Declaration
import LiveLisp.Proofs.Session.Steps
/-!
# What a whole run keeps

A relation between sessions that is kept by loading a namespace, and by everything that loads
nothing, is kept from the beginning of a run to every form that it evaluates.  Forms are evaluated
to open the session, when they are typed, when a special form declares the current namespace again,
and one after the other when a file is loaded.  Only what is typed is remembered, so that the
special forms keep more than a run does.
-/

namespace LiveLisp.Session

open Fallible

variable {α β : Type}

/-! ## Relations kept by every computation -/

/-- Relations that hold across evaluations: across loading a namespace, learning about namespaces
and going to another one. -/
structure Steady (c : Setting β) (R : Session β → Session β → Prop) : Prop extends Quiet R where
  learn : ∀ s env, s.env.Grows env → R s { s with env := env }
  enter : ∀ s ns, R s { s with state := s.state.enter ns }
  load : ∀ ns, Keeps R (loadNamespace c ns)

namespace Steady

variable {c : Setting β} {R : Session β → Session β → Prop}

theorem enterDeclared (hR : Steady c R) (ast : Analysis.Ast) : Keeps R (enterDeclared ast) := by
  unfold Session.enterDeclared
  split
  · exact fun s => hR.enter s _
  · exact hR.pure _

theorem submit (hR : Steady c R) (file js : String) (form : Form) (ast : Analysis.Ast) :
    Keeps R (submit c file js form ast) := by
  refine hR.bind (hR.showScript c js) fun _ =>
    hR.bind (hR.composes.loadDeclared hR.load ast) fun _ =>
      hR.bind (hR.send c _ _ _) fun result => ?_
  split
  · exact hR.bind (hR.enterDeclared ast) fun _ => hR.pure _
  · exact hR.pure _

theorem evaluateForm (hR : Steady c R) (file : String) (wrap : Wrap) (form : Form) :
    Keeps R (evaluateForm c file wrap form) := by
  intro s
  have hgrows := Analysis.grows_analyze s.state.ns (wrap.apply form) s.env
  cases h : Analysis.analyze s.state.ns (wrap.apply form) s.env with
  | error e env =>
    rw [finalState_of_error h] at hgrows
    rw [after_of_error (evaluateForm_of_error h)]
    exact hR.learn s env hgrows
  | ok ast env =>
    rw [finalState_of_ok h] at hgrows
    unfold after
    rw [evaluateForm_of_ok h]
    exact hR.trans (hR.learn s env hgrows) (hR.submit file _ form ast _)

theorem inNs (hR : Steady c R) (form : Form) : Keeps R (inNs c form) := by
  have henter : ∀ ns, Keeps R (Session.enter ns : Run β Unit) := fun ns s => hR.enter s _
  unfold Session.inNs
  split
  · exact hR.throw _
  · next ns _ =>
    refine keeps_get_bind fun s => ?_
    split
    · have hregister : Keeps R
          (modify fun s => { s with env := s.env.register ns } : Run β PUnit) :=
        fun s => hR.learn s _ (s.env.grows_register ns)
      refine hR.bind hregister (fun _ => hR.bind (hR.send c _ _ _) fun result => ?_) s
      split
      · exact hR.throw _
      · exact henter ns
    · exact henter ns s

theorem requireBy (hR : Steady c R) (clause : String) (form : Form) :
    Keeps R (requireBy clause c form) := by
  unfold Session.requireBy
  split
  · exact hR.throw _
  · refine keeps_get_bind fun s =>
      hR.bind (hR.evaluateForm promptFile .identity _) (fun e => ?_) s
    split
    · exact hR.displayFailure c _ e
    · exact hR.pure _

theorem evaluateAll (hR : Steady c R) (file : String) (forms : List Form) :
    Keeps R (evaluateAll c file forms) := by
  induction forms with
  | nil => exact hR.pure _
  | cons form rest ih =>
    refine hR.bind (hR.evaluateForm file .identity form) fun e => ?_
    split
    · exact ih
    · exact hR.displayFailure c form e

theorem keepingNs (hR : Steady c R) {action : Run β Unit} (h : Keeps R action) :
    Keeps R (keepingNs action) := by
  intro s
  have hs := h s
  unfold after at hs
  unfold after Session.keepingNs
  cases haction : action s with
  | ok u s' | error e s' =>
    rw [haction] at hs
    exact hR.trans hs (hR.enter s' _)

theorem loadFile (hR : Steady c R) (form : Form) : Keeps R (loadFile c form) := by
  unfold Session.loadFile
  split
  · exact hR.throw _
  · refine keeps_get_bind fun s => ?_
    split
    · exact hR.throw _ s
    · exact hR.keepingNs (hR.evaluateAll _ _) s

theorem loadNamespaceForm (hR : Steady c R) (form : Form) :
    Keeps R (loadNamespaceForm c form) := by
  unfold Session.loadNamespaceForm
  split
  · exact hR.throw _
  · exact hR.bind (hR.load _) fun _ => hR.pure _

theorem handler (hR : Steady c R) {form : Form} {handler : Special β}
    (h : handler? builtins form = some handler) : Keeps R (handler c form) := by
  rcases handler?_builtins h with ⟨-, rfl⟩ | ⟨clause, -, -, rfl⟩ | ⟨-, rfl⟩ | ⟨-, rfl⟩
  · exact hR.inNs form
  · exact hR.requireBy clause form
  · exact hR.loadFile form
  · exact hR.loadNamespaceForm form

theorem opening (hR : Steady c R) : Keeps R (opening c) := by
  refine hR.bind (hR.onBackend _ _) fun _ => hR.bind (hR.printText _) fun _ =>
    keeps_get_bind fun s => hR.bind (hR.evaluateForm _ _ _) (fun e => ?_) s
  split
  · exact hR.pure _
  · exact hR.throw _

end Steady

/-- Relations that hold across all that a run does. -/
structure Sustained (c : Setting β) (R : Session β → Session β → Prop) : Prop extends Quiet R where
  learn : ∀ s env, s.env.Grows env → R s { s with env := env }
  state : ∀ s state, R s { s with state := state }
  load : ∀ ns, Keeps R (loadNamespace c ns)

namespace Sustained

variable {c : Setting β} {R : Session β → Session β → Prop}

theorem steady (hR : Sustained c R) : Steady c R where
  toQuiet := hR.toQuiet
  learn := hR.learn
  enter s ns := hR.state s (s.state.enter ns)
  load := hR.load

theorem evaluateForm (hR : Sustained c R) (file : String) (wrap : Wrap) (form : Form) :
    Keeps R (evaluateForm c file wrap form) := hR.steady.evaluateForm file wrap form

theorem remember (hR : Sustained c R) (wrap : Wrap) (result : Backend.Result) :
    Keeps R (remember wrap result : Run β Unit) := by
  unfold Session.remember
  split
  · exact fun s => hR.state s _
  · exact hR.pure _

theorem evalAndPrint (hR : Sustained c R) (form : Form) : Keeps R (evalAndPrint c form) := by
  refine hR.bind (hR.evaluateForm promptFile _ form) fun e => ?_
  split
  · exact hR.bind (hR.printText _) fun _ => hR.remember _ _
  · exact hR.bind (hR.remember _ _) fun _ => hR.displayFailure c form e

theorem dispatch (hR : Sustained c R) (form : Form) : Keeps R (dispatch c builtins form) := by
  intro s
  unfold Session.dispatch
  cases hhandler : handler? builtins form with
  | none => exact hR.reporting _ (hR.evalAndPrint form s)
  | some handler => exact hR.reporting _ (hR.steady.handler hhandler s)

theorem turn (hR : Sustained c R) : Keeps R (turn c builtins) := by
  have hread : Keeps R (readForm : Run β _) := by
    intro s
    unfold after readForm
    cases Reading.read s.state.prompt s.input <;> exact hR.input s _
  intro s
  refine hR.trans ?_ ((unmoved_turn c builtins s).related hR.toDisplays)
  refine hR.bind hread (fun outcome => ?_) s
  split
  · exact hR.pure _
  · exact hR.pure _
  · split
    · exact hR.pure _
    · exact hR.bind (hR.dispatch _) fun _ => hR.pure _
  · exact hR.throw _
  · exact hR.bind (hR.printText _) fun _ => hR.pure _

theorem atPrompt (hR : Sustained c R) {lines : List Reading.Line} {s₀ s : Session β} {fuel : Nat}
    (h : AtPrompt c builtins lines s₀ fuel s) : R s₀ s := by
  induction h with
  | @first s s' h hflush =>
    have hopening := hR.steady.opening s₀
    have hflushed := hR.flushed s (.ofLines lines)
    rw [after_of_ok h] at hopening
    rw [after_of_ok hflush] at hflushed
    exact hR.trans hopening hflushed
  | @next fuel s s' _ hturn ih =>
    have hstep := hR.turn s
    rw [after_of_ok hturn] at hstep
    exact hR.trans ih hstep

end Sustained

/-! ## Forms that a run evaluates -/

/-- Of the forms of a file, `form` comes to be evaluated in `s'`. -/
inductive Comes (c : Setting β) (file : String) : List Form → Session β → Form → Session β → Prop
  | here {form : Form} {rest : List Form} {s : Session β} : Comes c file (form :: rest) s form s
  | next {first form : Form} {rest : List Form} {e : Evaluation} {s s₁ s' : Session β}
    (heval : evaluateForm c file .identity first s = .ok e s₁)
    (hsuccess : e.result.isSuccess = true) (h : Comes c file rest s₁ form s') :
    Comes c file (first :: rest) s form s'

/-- In a run that began at `s₀` a form comes to be evaluated in `s`. -/
inductive Evaluates (c : Setting β) (lines : List Reading.Line) (s₀ : Session β) :
    String → Wrap → Form → Session β → Prop
  | opening {s s' : Session β} (hsetUp : setUp c s₀ = .ok () s)
    (hbanner : printText banner s = .ok () s') :
    Evaluates c lines s₀ promptFile .identity (startingForm s'.state.ns) s'
  | typed {fuel : Nat} {s : Session β} {form : Form} {input : Reading.Cursor}
    (h : AtPrompt c builtins lines s₀ (fuel + 1) s)
    (hread : Reading.read s.state.prompt s.input = .ok (.form form) input)
    (hquit : isQuit form = false) (hhandler : handler? (β := β) builtins form = none) :
    Evaluates c lines s₀ promptFile (Wrap.ofForm form) form { s with input := input }
  | declared {fuel : Nat} {s : Session β} {form : Form} {input : Reading.Cursor} {clause : String}
    (h : AtPrompt c builtins lines s₀ (fuel + 1) s)
    (hread : Reading.read s.state.prompt s.input = .ok (.form form) input)
    (hclause : clause ∈ ["require", "require-macros"]) (hheaded : form.isHeadedBy clause = true)
    (harguments : (arguments form).isEmpty = false) :
    Evaluates c lines s₀ promptFile .identity (declarationOf s.state.ns clause form)
      { s with input := input }
  | inFile {fuel : Nat} {s s' : Session β} {form form' : Form} {input : Reading.Cursor}
    {path : Files.Pathname} {forms : List Form}
    (h : AtPrompt c builtins lines s₀ (fuel + 1) s)
    (hread : Reading.read s.state.prompt s.input = .ok (.form form) input)
    (hheaded : form.isHeadedBy "load-file" = true) (hpath : fileArgument form = .ok path)
    (hforms : sourceForms s.world.files path = .ok forms)
    (hcomes : Comes c path.text forms { s with input := input } form' s') :
    Evaluates c lines s₀ path.text .identity form' s'

namespace Sustained

variable {c : Setting β} {R : Session β → Session β → Prop}

theorem comes (hR : Sustained c R) {file : String} {forms : List Form} {form : Form}
    {s s' : Session β} (h : Comes c file forms s form s') : R s s' := by
  induction h with
  | here => exact hR.refl _
  | @next first form rest e s s₁ s' heval _ _ ih =>
    have hfirst := hR.evaluateForm file .identity first s
    rw [after_of_ok heval] at hfirst
    exact hR.trans hfirst ih

theorem evaluates (hR : Sustained c R) {lines : List Reading.Line} {s₀ s : Session β}
    {file : String} {wrap : Wrap} {form : Form} (h : Evaluates c lines s₀ file wrap form s) :
    R s₀ s := by
  cases h with
  | @opening s' _ hsetUp hbanner =>
    have hready := hR.onBackend (.setup c.options) (c.backend.setup c.options) s₀
    have hgreeted := hR.printText banner s'
    have hafter := after_of_ok hsetUp
    unfold setUp at hafter
    rw [hafter] at hready
    rw [after_of_ok hbanner] at hgreeted
    exact hR.trans hready hgreeted
  | typed h | declared h => exact hR.trans (hR.atPrompt h) (hR.input _ _)
  | inFile h _ _ _ _ hcomes =>
    exact hR.trans (hR.trans (hR.atPrompt h) (hR.input _ _)) (hR.comes hcomes)

end Sustained

end LiveLisp.Session
