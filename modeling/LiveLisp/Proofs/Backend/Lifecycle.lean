import LiveLisp.Backend.Scripted
import LiveLisp.Proofs.Fallible
/-!
# The life of a process backend

Calls are made on a process backend one after the other, in any order and with any outcome.  What a
set-up can do to the world outside is said once, in `setup_cases`: how far it came, and what it took
back.  With what the other calls do it gives the shape of the log in every phase, and from the shape
follows when requests go out and that a process and a connection are released once.
-/

namespace LiveLisp.Backend

open Fallible
open Files (Pathname Tree)

/-! ## Calls one after the other -/

/-- A call of a backend. -/
inductive Request where
  | setup (options : Options)
  | evaluate (file : String) (line : Nat) (code : String)
  | load (provides : List String) (url : Pathname)
  | tearDown

section Calls

variable {β : Type}

def Request.isSetup : Request → Bool
  | .setup _ => true
  | _ => false

/-- The call as a computation; only an evaluation has a result. -/
def Request.call (b : Backend β) : Request → Call β (Option Result)
  | .setup options => b.setup options >>= fun _ => pure none
  | .evaluate file line code => b.evaluate file line code >>= fun result => pure (some result)
  | .load provides url => b.load provides url >>= fun _ => pure none
  | .tearDown => b.tearDown >>= fun _ => pure none

/-- A call that was made, and what it returned. -/
structure Answered where
  request : Request
  answer : Except Failure (Option Result)

/-- The calls that were made since `w₀`, and the world after them. -/
inductive History (b : Backend β) (w₀ : World β) : List Answered → World β → Prop
  | nil : History b w₀ [] w₀
  | call {past : List Answered} {w : World β} (h : History b w₀ past w) (request : Request) :
    History b w₀ (past ++ [⟨request, outcome (request.call b) w⟩])
      (finalState (request.call b) w)

theorem finalState_bind_pure {α α' : Type} (x : Call β α) (g : α → α') (w : World β) :
    finalState (x >>= fun a => pure (g a)) w = finalState x w := by
  cases h : x w with
  | ok a w' =>
    have hbind : (x >>= fun a => pure (g a)) w = .ok (g a) w' := bind_of_ok h
    rw [finalState_of_ok h, finalState_of_ok hbind]
  | error f w' => rw [finalState_of_error h, finalState_of_error (bind_of_error h)]

end Calls

namespace Phase

def isReady : Phase → Bool
  | .ready _ => true
  | _ => false

/-- Nothing is held any more. -/
def isOver : Phase → Bool
  | .tornDown | .failed => true
  | _ => false

theorem isReady_of_isOver {phase : Phase} (h : phase.isOver = true) : phase.isReady = false := by
  cases phase with
  | tornDown | failed => rfl
  | _ => contradiction

end Phase

def Act.isTalk : Act → Bool
  | .sent _ | .answered _ => true
  | .started | .connected | .stopped | .closed => false

/-- Requests and answers only. -/
def IsTalk (acts : List Act) : Prop := ∀ a ∈ acts, a.isTalk = true

theorem IsTalk.append {acts more : List Act} (h : IsTalk acts) (hmore : IsTalk more) :
    IsTalk (acts ++ more) := by
  intro a ha
  rcases List.mem_append.mp ha with ha | ha
  · exact h a ha
  · exact hmore a ha

theorem IsTalk.not_mem {acts : List Act} (h : IsTalk acts) {a : Act} (ha : a.isTalk = false) :
    a ∉ acts := by
  intro hmem
  rw [h a hmem] at ha
  contradiction

theorem IsTalk.count {acts : List Act} (h : IsTalk acts) {a : Act} (ha : a.isTalk = false) :
    acts.count a = 0 := List.count_eq_zero.mpr (h.not_mem ha)

/-- The connection is open: it was made, and nothing has been released. -/
def IsOpen (acts : List Act) : Prop := .connected ∈ acts ∧ .stopped ∉ acts ∧ .closed ∉ acts

theorem isOpen_of_isTalk {talk : List Act} (h : IsTalk talk) :
    IsOpen (.started :: .connected :: talk) := by
  have hstopped : Act.stopped ∉ talk := h.not_mem rfl
  have hclosed : Act.closed ∉ talk := h.not_mem rfl
  exact ⟨by simp, by simpa using hstopped, by simpa using hclosed⟩

/-- Whatever was sent went over an open connection. -/
def SendsOpen (acts : List Act) : Prop :=
  ∀ before code rest, acts = before ++ .sent code :: rest → IsOpen before

theorem sendsOpen_of_isTalk {talk : List Act} (h : IsTalk talk) :
    SendsOpen (.started :: .connected :: talk) := by
  intro before code rest hacts
  -- a request is neither of the first two acts, so that both come before it
  match before with
  | [] => simp at hacts
  | [_] => simp at hacts
  | a :: b :: between =>
    simp only [List.cons_append, List.cons.injEq] at hacts
    obtain ⟨rfl, rfl, rfl⟩ := hacts
    apply isOpen_of_isTalk
    intro a ha
    exact h a (List.mem_append_left _ ha)

theorem SendsOpen.append {acts more : List Act} (h : SendsOpen acts)
    (hmore : ∀ code, .sent code ∉ more) : SendsOpen (acts ++ more) := by
  intro before code rest hacts
  rcases List.append_eq_append_iff.mp hacts with ⟨between, -, hsplit⟩ | ⟨between, hbefore, hsplit⟩
  · exact absurd (by rw [hsplit]; simp) (hmore code)
  · cases between with
    | nil => exact absurd (by rw [← List.nil_append more, ← hsplit]; simp) (hmore code)
    | cons a between =>
      obtain ⟨rfl, -⟩ := List.cons.inj hsplit
      exact h before code between hbefore

/-- Every process was stopped and every connection closed, once; there was one of each at most. -/
structure Released (acts : List Act) : Prop where
  stopped : acts.count .stopped = acts.count .started
  closed : acts.count .closed = acts.count .connected
  once : acts.count .started ≤ 1 ∧ acts.count .connected ≤ 1

namespace Node

variable {host : Host} {settings : NodeSettings} {library : Library}

/-! ## Requests -/

/-- The node holds a connection to a process of its own. -/
def Connected (n : Node) : Prop := ∃ incoming, n.phase = .ready ⟨true, incoming⟩

/-- What comes of a request over a connection. -/
inductive Replied (code : String) (w : World Node) :
    EStateM.Result Failure (World Node) Result → Prop
  | lost {f : Failure} {w' : World Node} (hopen : Connected w'.backend)
    (hacts : w'.backend.acts = w.backend.acts ++ [.sent code]) : Replied code w (.error f w')
  | answered {result : Result} {w' : World Node} (hopen : Connected w'.backend)
    (hacts : w'.backend.acts = w.backend.acts ++ [.sent code, .answered result]) :
    Replied code w (.ok result w')

theorem replied_roundTrip (host : Host) (code : String) {w : World Node}
    (h : Connected w.backend) : Replied code w (roundTrip host code w) := by
  obtain ⟨incoming, hphase⟩ := h
  unfold roundTrip
  rw [hphase]
  dsimp only
  cases host.transmit w.backend.sent code with
  | error reason => exact .lost ⟨incoming, hphase⟩ rfl
  | ok deliveries =>
    dsimp only
    generalize (incoming.extend deliveries).receive = r
    cases r.payload with
    | error f => exact .lost ⟨r.incoming, rfl⟩ rfl
    | ok payload =>
      dsimp only
      cases decodeResponse payload with
      | error f => exact .lost ⟨r.incoming, rfl⟩ rfl
      | ok result => exact .answered ⟨r.incoming, rfl⟩ (List.append_assoc ..)

theorem roundTrip_of_not_ready (host : Host) (code : String) {w : World Node}
    (h : w.backend.phase.isReady = false) :
    roundTrip host code w = .error (.invalidState "ready" w.backend.phase.name) w := by
  unfold roundTrip
  cases hphase : w.backend.phase with
  | ready connection =>
    rw [hphase] at h
    contradiction
  | _ => rfl

/-! ## Preparation of the runtime -/

/-- All steps were sent, each after the one before it was answered with success. -/
inductive Prepared : List BootstrapStep → List Act → Prop
  | nil : Prepared [] []
  | step {step : BootstrapStep} {steps : List BootstrapStep} {talk : List Act} {value : String}
    (h : Prepared steps talk) :
    Prepared (step :: steps) (.sent step.code :: .answered (.success value) :: talk)

/-- Steps were sent in order up to one that had no answer, or another answer than success. -/
inductive Interrupted : List BootstrapStep → List Act → Prop
  | lost {step : BootstrapStep} {steps : List BootstrapStep} :
    Interrupted (step :: steps) [.sent step.code]
  | refused {step : BootstrapStep} {steps : List BootstrapStep} {result : Result}
    (h : result.isSuccess = false) :
    Interrupted (step :: steps) [.sent step.code, .answered result]
  | later {step : BootstrapStep} {steps : List BootstrapStep} {talk : List Act} {value : String}
    (h : Interrupted steps talk) :
    Interrupted (step :: steps) (.sent step.code :: .answered (.success value) :: talk)

theorem isTalk_pair (code : String) (result : Result) {talk : List Act} (h : IsTalk talk) :
    IsTalk (.sent code :: .answered result :: talk) :=
  List.forall_mem_cons.mpr ⟨rfl, List.forall_mem_cons.mpr ⟨rfl, h⟩⟩

theorem Prepared.isTalk {steps : List BootstrapStep} {talk : List Act} (h : Prepared steps talk) :
    IsTalk talk := by
  induction h with
  | nil => simp [IsTalk]
  | step _ ih => exact isTalk_pair _ _ ih

theorem Interrupted.isTalk {steps : List BootstrapStep} {talk : List Act}
    (h : Interrupted steps talk) : IsTalk talk := by
  induction h with
  | lost => simp [IsTalk, Act.isTalk]
  | refused => exact isTalk_pair _ _ (by simp [IsTalk])
  | later _ ih => exact isTalk_pair _ _ ih

theorem runSteps_cases (host : Host) (steps : List BootstrapStep) {w : World Node}
    (h : Connected w.backend) :
    (∃ w' talk, runSteps (roundTrip host) steps w = .ok () w' ∧ Connected w'.backend ∧
        w'.backend.acts = w.backend.acts ++ talk ∧ Prepared steps talk) ∨
      ∃ f w' talk, runSteps (roundTrip host) steps w = .error f w' ∧ Connected w'.backend ∧
        w'.backend.acts = w.backend.acts ++ talk ∧ Interrupted steps talk := by
  induction steps generalizing w with
  | nil => exact .inl ⟨w, [], rfl, h, (List.append_nil _).symm, .nil⟩
  | cons step steps ih =>
    have hreplied := replied_roundTrip host step.code h
    rw [runSteps]
    cases hsend : roundTrip host step.code w with
    | error f w₁ =>
      rw [hsend] at hreplied
      cases hreplied with
      | lost hopen hacts => exact .inr ⟨f, w₁, _, bind_of_error hsend, hopen, hacts, .lost⟩
    | ok result w₁ =>
      rw [hsend] at hreplied
      rw [bind_of_ok hsend]
      cases hreplied with
      | answered hopen hacts =>
        cases result with
        | success value =>
          -- the steps that are left are sent after this one
          have hlog : ∀ talk, w₁.backend.acts ++ talk =
              w.backend.acts ++ .sent step.code :: .answered (.success value) :: talk := by
            intro talk
            rw [hacts, List.append_assoc]
            rfl
          rcases ih hopen with ⟨w', talk, hrun, hopen', hacts', hdone⟩ |
            ⟨f, w', talk, hrun, hopen', hacts', hpart⟩
          · exact .inl ⟨w', _, hrun, hopen', hacts'.trans (hlog talk), .step hdone⟩
          · exact .inr ⟨f, w', _, hrun, hopen', hacts'.trans (hlog talk), .later hpart⟩
        | error value trace => exact .inr ⟨_, w₁, _, rfl, hopen, hacts, .refused rfl⟩
        | exception value trace => exact .inr ⟨_, w₁, _, rfl, hopen, hacts, .refused rfl⟩

/-! ## Setting up -/

/-- What a set-up that failed leaves in the log: nothing, if no process was started; a process that
was stopped when the port did not answer, or left alone when the connection could not be duplicated;
or a process and a connection that were released after none or some of the steps. -/
inductive Abandoned (host : Host) (outputDir : Pathname) : List Act → Prop
  | unstarted : Abandoned host outputDir []
  | unanswered : Abandoned host outputDir [.started, .stopped]
  | unduplicated {reason : String} (h : host.duplicated = .error reason) :
    Abandoned host outputDir [.started]
  | unprepared : Abandoned host outputDir [.started, .connected, .stopped, .closed]
  | interrupted {manifest : Pathname} {talk : List Act}
    (h : Interrupted (bootstrapSteps outputDir manifest) talk) :
    Abandoned host outputDir (.started :: .connected :: talk ++ [.stopped, .closed])

/-- What comes of a start. -/
inductive Began (host : Host) (outputDir : Pathname) (n : Node) :
    EStateM.Result Failure (World Node) Unit → Prop
  | ready {manifest : Pathname} {talk : List Act} {w : World Node} (hopen : Connected w.backend)
    (hacts : w.backend.acts = n.acts ++ .started :: .connected :: talk)
    (hdone : Prepared (bootstrapSteps outputDir manifest) talk) : Began host outputDir n (.ok () w)
  | failed {f : Failure} {w : World Node} {log : List Act}
    (hphase : (abandon host w.backend).phase = .failed)
    (hacts : (abandon host w.backend).acts = n.acts ++ log) (hlog : Abandoned host outputDir log) :
    Began host outputDir n (.error f w)

theorem abandon_of_not_ready (host : Host) {n : Node} (h : n.phase.isReady = false) :
    abandon host n = n.enter .failed := by
  unfold abandon
  cases hphase : n.phase with
  | ready connection =>
    rw [hphase] at h
    contradiction
  | _ => rfl

theorem close_eq (host : Host) (incoming : Incoming) (n : Node) :
    (close host ⟨true, incoming⟩ n).2 = (n.did .stopped).did .closed := by
  unfold close
  simp only [if_true]
  cases host.stopProcess with
  | error reason => rfl
  | ok u => cases host.closeConnection <;> rfl

theorem abandon_of_connected (host : Host) {n : Node} (h : Connected n) :
    (abandon host n).phase = .failed ∧
      (abandon host n).acts = n.acts ++ [.stopped, .closed] := by
  obtain ⟨incoming, hphase⟩ := h
  unfold abandon
  rw [hphase]
  dsimp only
  rw [close_eq]
  exact ⟨rfl, List.append_assoc ..⟩

theorem writeServer_backend (outputDir : Pathname) (port : Nat) (w : World Node) :
    (finalState (writeServer outputDir port) w).backend = w.backend := by
  unfold finalState writeServer
  cases w.files.makeDirectories outputDir with
  | error e => rfl
  | ok files =>
    dsimp only
    cases files.writeText (outputDir.join serverFile) (serverScript port) <;> rfl

/-- An interpreter was started, or nothing was done outside of the file tree. -/
theorem launch_cases (host : Host) (settings : NodeSettings) (outputDir : Pathname)
    (w : World Node) :
    (∃ process w', launch host settings outputDir w = .ok process w' ∧
        w'.backend = w.backend.did .started) ∨
      ∃ f w', launch host settings outputDir w = .error f w' ∧ w'.backend = w.backend := by
  unfold launch
  rw [bind_of_ok (rfl : (get : Call Node _) w = .ok w w)]
  cases host.interpreter? w.files settings.command with
  | none => exact .inr ⟨_, w, rfl, rfl⟩
  | some interpreter =>
    have hbackend := writeServer_backend outputDir settings.port w
    dsimp only
    cases hwrite : writeServer outputDir settings.port w with
    | error f w₁ =>
      rw [finalState_of_error hwrite] at hbackend
      exact .inr ⟨f, w₁, bind_of_error hwrite, hbackend⟩
    | ok u w₁ =>
      rw [finalState_of_ok hwrite] at hbackend
      rw [bind_of_ok hwrite, bind_of_ok (rfl : (get : Call Node _) w₁ = .ok w₁ w₁)]
      cases host.launch w₁.files interpreter with
      | error reason => exact .inr ⟨_, w₁, rfl, hbackend⟩
      | ok u =>
        refine .inl ⟨interpreter, { w₁ with backend := w₁.backend.did .started }, rfl, ?_⟩
        rw [← hbackend]

theorem connect_cases (host : Host) (settings : NodeSettings) (process : Pathname)
    (w : World Node) :
    (∃ w', connect host settings process w = .ok () w' ∧ Connected w'.backend ∧
        w'.backend.acts = w.backend.acts ++ [.connected] ∧ host.duplicated = .ok ()) ∨
      (∃ f w', connect host settings process w = .error f w' ∧
        w'.backend = w.backend.did .stopped ∧ dial host settings (some process) = .error f) ∨
      ∃ f reason, connect host settings process w = .error f w ∧
        dial host settings (some process) = .ok () ∧ host.duplicated = .error reason := by
  unfold connect
  cases dial host settings (some process) with
  | error f => exact .inr (.inl ⟨f, { w with backend := w.backend.did .stopped }, rfl, rfl, rfl⟩)
  | ok u =>
    dsimp only
    cases hduplicated : host.duplicated with
    | error reason => exact .inr (.inr ⟨_, reason, rfl, rfl, rfl⟩)
    | ok u =>
      let n := (w.backend.did .connected).enter (.ready ⟨true, ⟨[], []⟩⟩)
      exact .inl ⟨{ w with backend := n }, rfl, ⟨_, rfl⟩, rfl, rfl⟩

theorem onFiles_backend {α : Type} (build : Library.Build α) (w : World Node) :
    (finalState (onFiles build) w).backend = w.backend := by
  unfold finalState onFiles
  cases build w.files <;> rfl

/-- Everything after the connection was made fails with the connection open, or is done. -/
theorem began_prepare (host : Host) (library : Library) (outputDir : Pathname) {n : Node}
    {w : World Node} (hopen : Connected w.backend)
    (hacts : w.backend.acts = n.acts ++ [.started, .connected]) :
    Began host outputDir n ((do
      onFiles (library.compileRuntime outputDir)
      let manifest ← onFiles (library.writeManifest outputDir)
      runSteps (roundTrip host) (bootstrapSteps outputDir manifest) : Call Node Unit) w) := by
  have hfail : ∀ {f : Failure} {w' : World Node}, w'.backend = w.backend →
      Began host outputDir n (.error f w') := by
    intro f w' hsame
    obtain ⟨hphase, hlog⟩ := abandon_of_connected host hopen
    rw [hacts, List.append_assoc, ← hsame] at hlog
    rw [← hsame] at hphase
    exact .failed hphase hlog .unprepared
  have hruntime := onFiles_backend (library.compileRuntime outputDir) w
  cases hcompile : (onFiles (library.compileRuntime outputDir) : Call Node Unit) w with
  | error f w₁ =>
    rw [finalState_of_error hcompile] at hruntime
    rw [bind_of_error hcompile]
    exact hfail hruntime
  | ok u w₁ =>
    rw [finalState_of_ok hcompile] at hruntime
    rw [bind_of_ok hcompile]
    have hlisting := onFiles_backend (library.writeManifest outputDir) w₁
    rw [hruntime] at hlisting
    cases hmanifest : (onFiles (library.writeManifest outputDir) : Call Node Pathname) w₁ with
    | error f w₂ =>
      rw [finalState_of_error hmanifest] at hlisting
      rw [bind_of_error hmanifest]
      exact hfail hlisting
    | ok manifest w₂ =>
      rw [finalState_of_ok hmanifest] at hlisting
      rw [bind_of_ok hmanifest]
      rw [← hlisting] at hopen hacts
      rcases runSteps_cases host (bootstrapSteps outputDir manifest) hopen with
        ⟨w', talk, hrun, hopen', hacts', hdone⟩ | ⟨f, w', talk, hrun, hopen', hacts', hpart⟩
      · rw [hrun]
        rw [hacts, List.append_assoc] at hacts'
        exact .ready hopen' hacts' hdone
      · rw [hrun]
        obtain ⟨hphase, hlog⟩ := abandon_of_connected host hopen'
        rw [hacts', hacts, List.append_assoc, List.append_assoc] at hlog
        exact .failed hphase hlog (.interrupted hpart)

theorem began_start (host : Host) (settings : NodeSettings) (library : Library)
    (outputDir : Pathname) {w : World Node} (hphase : w.backend.phase = .starting) :
    Began host outputDir w.backend (start host settings library outputDir w) := by
  have hclosed : ∀ {n : Node}, n.phase = .starting → abandon host n = n.enter .failed := by
    intro n h
    exact abandon_of_not_ready host (by rw [h]; rfl)
  unfold start
  rcases launch_cases host settings outputDir w with ⟨process, w₁, hlaunch, hstarted⟩ |
    ⟨f, w₁, hlaunch, hsame⟩
  · rw [bind_of_ok hlaunch]
    have hphase₁ : w₁.backend.phase = .starting := by
      rw [hstarted]
      exact hphase
    have hacts₁ : w₁.backend.acts = w.backend.acts ++ [.started] := by
      rw [hstarted]
      rfl
    rcases connect_cases host settings process w₁ with ⟨w₂, hconnect, hopen, hacts, -⟩ |
      ⟨f, w₂, hconnect, hstopped, -⟩ | ⟨f, reason, hconnect, -, hduplicated⟩
    · rw [bind_of_ok hconnect]
      rw [hacts₁, List.append_assoc] at hacts
      exact began_prepare host library outputDir hopen hacts
    · rw [bind_of_error hconnect]
      have habandon : abandon host w₂.backend = w₂.backend.enter .failed := by
        apply hclosed
        rw [hstopped]
        exact hphase₁
      refine .failed (by rw [habandon]; rfl) ?_ .unanswered
      rw [habandon, hstopped]
      change w₁.backend.acts ++ [.stopped] = _
      rw [hacts₁, List.append_assoc]
      rfl
    · rw [bind_of_error hconnect]
      refine .failed (by rw [hclosed hphase₁]; rfl) ?_ (.unduplicated hduplicated)
      rw [hclosed hphase₁]
      exact hacts₁
  · rw [bind_of_error hlaunch]
    have habandon : abandon host w₁.backend = w₁.backend.enter .failed := by
      apply hclosed
      rw [hsame]
      exact hphase
    refine .failed (by rw [habandon]; rfl) ?_ .unstarted
    rw [habandon, hsame, List.append_nil]
    rfl

/-- What a set-up of an unstarted node does. -/
theorem setup_cases (host : Host) (settings : NodeSettings) (library : Library)
    (options : Options) {w : World Node} (h : w.backend.phase = .unstarted) :
    let outputDir := targetDir settings options w.files
    (∃ w' manifest talk, setup host settings library options w = .ok () w' ∧
        Connected w'.backend ∧
        w'.backend.acts = w.backend.acts ++ .started :: .connected :: talk ∧
        Prepared (bootstrapSteps outputDir manifest) talk) ∨
      ∃ f w' log, setup host settings library options w = .error f w' ∧
        w'.backend.phase = .failed ∧ w'.backend.acts = w.backend.acts ++ log ∧
        Abandoned host outputDir log := by
  intro outputDir
  have hbegan := began_start host settings library outputDir
    (w := { w with backend := w.backend.enter .starting }) rfl
  unfold setup
  rw [h]
  dsimp only
  cases hstart : start host settings library outputDir
      { w with backend := w.backend.enter .starting } with
  | ok u w' =>
    rw [hstart] at hbegan
    cases hbegan with
    | ready hopen hacts hdone => exact .inl ⟨w', _, _, rfl, hopen, hacts, hdone⟩
  | error f w' =>
    rw [hstart] at hbegan
    cases hbegan with
    | failed hphase hacts hlog =>
      exact .inr ⟨f, { w' with backend := abandon host w'.backend }, _, rfl, hphase, hacts, hlog⟩

/-- Where a start fails before there is a connection, the log stays as it is then. -/
theorem setup_acts_of_starting (options : Options) {w w₁ w' : World Node} {f f₁ : Failure}
    (h : w.backend.phase = .unstarted)
    (hrun : setup host settings library options w = .error f w')
    (hstart : start host settings library (targetDir settings options w.files)
      { w with backend := w.backend.enter .starting } = .error f₁ w₁)
    (hstarting : w₁.backend.phase = .starting) : w'.backend.acts = w₁.backend.acts := by
  unfold setup at hrun
  rw [h] at hrun
  dsimp only at hrun
  rw [hstart] at hrun
  obtain ⟨-, rfl⟩ := EStateM.Result.error.inj hrun
  dsimp only
  rw [abandon_of_not_ready host (by rw [hstarting]; rfl)]
  rfl

theorem setup_of_not_unstarted (host : Host) (settings : NodeSettings) (library : Library)
    (options : Options) {w : World Node} (h : w.backend.phase ≠ .unstarted) :
    setup host settings library options w =
      .error (.invalidState "unstarted" w.backend.phase.name) w := by
  unfold setup
  cases hphase : w.backend.phase with
  | unstarted => exact absurd hphase h
  | _ => rfl

/-! ## The other calls -/

/-- A call other than setting up and tearing down: over an open connection there is more talk, and
otherwise nothing is done. -/
inductive Talked (w w' : World Node) : Prop
  | nothing (hphase : w'.backend.phase = w.backend.phase) (hacts : w'.backend.acts = w.backend.acts)
  | more {talk : List Act} (hbefore : Connected w.backend) (hafter : Connected w'.backend)
    (hacts : w'.backend.acts = w.backend.acts ++ talk) (htalk : IsTalk talk)

/-- The connection, if there is one, leads to a process of the node's own. -/
def OwnsProcess (n : Node) : Prop := n.phase.isReady = true → Connected n

theorem talked_roundTrip (host : Host) (code : String) {w : World Node}
    (h : OwnsProcess w.backend) : Talked w (finalState (roundTrip host code) w) := by
  cases hready : w.backend.phase.isReady with
  | false =>
    rw [finalState_of_error (roundTrip_of_not_ready host code hready)]
    exact .nothing rfl rfl
  | true =>
    have hreplied := replied_roundTrip host code (h hready)
    unfold finalState
    cases hsend : roundTrip host code w with
    | error f w' =>
      rw [hsend] at hreplied
      cases hreplied with
      | lost hopen hacts => exact .more (h hready) hopen hacts (by simp [IsTalk, Act.isTalk])
    | ok result w' =>
      rw [hsend] at hreplied
      cases hreplied with
      | answered hopen hacts =>
        exact .more (h hready) hopen hacts (isTalk_pair _ _ (by simp [IsTalk]))

theorem talked_load (host : Host) (provides : List String) {w : World Node}
    (h : OwnsProcess w.backend) : Talked w (finalState (load host provides) w) := by
  unfold load
  cases provides with
  | nil => exact .nothing rfl rfl
  | cons primary rest =>
    dsimp only
    rw [finalState_bind_of_ok (rfl : (get : Call Node _) w = .ok w w)]
    by_cases hknown : w.backend.delivered.contains primary = true
    · rw [if_pos hknown]
      exact .nothing rfl rfl
    · rw [if_neg hknown]
      have htalked := talked_roundTrip host ("goog.require('" ++ primary ++ "');") h
      cases hsend : roundTrip host ("goog.require('" ++ primary ++ "');") w with
      | error f w' =>
        rw [finalState_of_error hsend] at htalked
        rw [finalState_of_error (bind_of_error hsend)]
        exact htalked
      | ok result w' =>
        rw [finalState_of_ok hsend] at htalked
        rw [finalState_bind_of_ok hsend]
        by_cases hsuccess : result.isSuccess = true
        · -- only the namespaces that were delivered change, and no relation speaks of them
          rw [if_pos hsuccess]
          cases htalked with
          | nothing hphase hacts => exact .nothing hphase hacts
          | more hbefore hafter hacts htalk => exact .more hbefore hafter hacts htalk
        · rw [if_neg hsuccess]
          exact htalked

theorem tearDown_of_connected (host : Host) {w : World Node} (h : Connected w.backend) :
    (finalState (tearDown host) w).backend.phase = .tornDown ∧
      (finalState (tearDown host) w).backend.acts = w.backend.acts ++ [.stopped, .closed] := by
  obtain ⟨incoming, hphase⟩ := h
  have hclose := close_eq host incoming (w.backend.enter .tornDown)
  unfold finalState tearDown
  rw [hphase]
  dsimp only
  cases (close host ⟨true, incoming⟩ (w.backend.enter .tornDown)).1 <;>
  · dsimp only
    rw [hclose]
    exact ⟨rfl, List.append_assoc ..⟩

theorem tearDown_of_not_ready (host : Host) {w : World Node}
    (h : w.backend.phase.isReady = false) :
    (finalState (tearDown host) w).backend.phase = .tornDown ∧
      (finalState (tearDown host) w).backend.acts = w.backend.acts := by
  unfold finalState tearDown
  cases hphase : w.backend.phase with
  | ready connection =>
    rw [hphase] at h
    contradiction
  | tornDown => exact ⟨hphase, rfl⟩
  | _ => exact ⟨rfl, rfl⟩

theorem tearDown_phase (host : Host) {w : World Node} (h : OwnsProcess w.backend) :
    (finalState (tearDown host) w).backend.phase = .tornDown := by
  by_cases hready : w.backend.phase.isReady = true
  · exact (tearDown_of_connected host (h hready)).1
  · exact (tearDown_of_not_ready host (by simpa using hready)).1

theorem close_failure (host : Host) (connection : Connection) (n : Node) (f : Failure)
    (h : (close host connection n).1 = .error f) : ∃ reason, f = .transfer reason := by
  unfold close at h
  dsimp only at h
  split at h
  · exact ⟨_, (Except.error.inj h).symm⟩
  · exact ⟨_, (Except.error.inj h).symm⟩
  · contradiction

theorem tearDown_invalidState_iff (host : Host) (w : World Node) :
    (∃ expected actual,
        outcome (tearDown host) w = .error (.invalidState expected actual)) ↔
      w.backend.phase = .tornDown := by
  unfold outcome tearDown
  cases hphase : w.backend.phase with
  | ready connection =>
    dsimp only
    cases hclose : (close host connection (w.backend.enter .tornDown)).1 with
    | ok u => simp
    | error f =>
      -- closing fails for reasons of its own
      obtain ⟨reason, rfl⟩ := close_failure host connection _ f hclose
      simp
  | tornDown => simp
  | _ => simp

/-! ## Every course of calls -/

/-- What is left of a process and a connection at the end. -/
inductive Ended (host : Host) : List Act → Prop
  | nothing : Ended host []
  | unanswered : Ended host [.started, .stopped]
  | unduplicated {reason : String} (h : host.duplicated = .error reason) : Ended host [.started]
  | released {talk : List Act} (h : IsTalk talk) :
    Ended host (.started :: .connected :: talk ++ [.stopped, .closed])

theorem Abandoned.ended {outputDir : Pathname} {log : List Act}
    (h : Abandoned host outputDir log) : Ended host log := by
  cases h with
  | unstarted => exact .nothing
  | unanswered => exact .unanswered
  | unduplicated h => exact .unduplicated h
  | unprepared => exact Ended.released (List.forall_mem_nil _)
  | interrupted h => exact .released h.isTalk

/-- The log of a node that was fresh, by the phase that it is in. -/
inductive Course (host : Host) (n : Node) : Prop
  | unstarted (hphase : n.phase = .unstarted) (hacts : n.acts = [])
  | ready {talk : List Act} (hopen : Connected n) (hacts : n.acts = .started :: .connected :: talk)
    (htalk : IsTalk talk)
  | ended (hphase : n.phase.isOver = true) (hacts : Ended host n.acts)

theorem Course.ownsProcess {n : Node} (h : Course host n) : OwnsProcess n := by
  intro hready
  cases h with
  | unstarted hphase _ =>
    rw [hphase] at hready
    contradiction
  | ready hopen _ _ => exact hopen
  | ended hphase _ =>
    rw [Phase.isReady_of_isOver hphase] at hready
    contradiction

theorem Course.acts_of_unstarted {n : Node} (h : Course host n) (hphase : n.phase = .unstarted) :
    n.acts = [] := by
  cases h with
  | unstarted _ hacts => exact hacts
  | ready hopen _ _ =>
    obtain ⟨incoming, hready⟩ := hopen
    rw [hready] at hphase
    contradiction
  | ended hover _ =>
    rw [hphase] at hover
    contradiction

theorem Course.ended_of_isOver {n : Node} (h : Course host n) (hover : n.phase.isOver = true) :
    Ended host n.acts := by
  cases h with
  | unstarted hphase _ =>
    rw [hphase] at hover
    contradiction
  | ready hopen _ _ =>
    obtain ⟨incoming, hready⟩ := hopen
    rw [hready] at hover
    contradiction
  | ended _ hacts => exact hacts

theorem Course.of_talked {w w' : World Node} (h : Course host w.backend) (htalked : Talked w w') :
    Course host w'.backend := by
  cases htalked with
  | nothing hphase hacts =>
    cases h with
    | unstarted hunstarted hnone => exact .unstarted (hphase.trans hunstarted) (hacts.trans hnone)
    | ready hopen hlog htalk =>
      obtain ⟨incoming, hready⟩ := hopen
      exact .ready ⟨incoming, hphase.trans hready⟩ (hacts.trans hlog) htalk
    | ended hover hlog =>
      rw [← hphase] at hover
      rw [← hacts] at hlog
      exact .ended hover hlog
  | more hbefore hafter hacts hmore =>
    obtain ⟨incoming, hready⟩ := hbefore
    cases h with
    | unstarted hunstarted _ =>
      rw [hready] at hunstarted
      contradiction
    | ready _ hlog htalk =>
      rw [hlog] at hacts
      exact .ready hafter hacts (htalk.append hmore)
    | ended hover _ =>
      rw [hready] at hover
      contradiction

theorem Course.of_setup (settings : NodeSettings) (library : Library) (options : Options)
    {w : World Node} (h : Course host w.backend) :
    Course host (finalState (setup host settings library options) w).backend := by
  by_cases hphase : w.backend.phase = .unstarted
  · have hnone := h.acts_of_unstarted hphase
    rcases setup_cases host settings library options hphase with
      ⟨w', manifest, talk, hrun, hopen, hacts, hdone⟩ | ⟨f, w', log, hrun, hfailed, hacts, hlog⟩
    · rw [finalState_of_ok hrun]
      rw [hnone] at hacts
      exact .ready hopen hacts hdone.isTalk
    · rw [finalState_of_error hrun]
      rw [hnone] at hacts
      refine .ended (by rw [hfailed]; rfl) ?_
      rw [hacts]
      exact hlog.ended
  · rw [finalState_of_error (setup_of_not_unstarted host settings library options hphase)]
    exact h

theorem Course.of_tearDown {w : World Node} (h : Course host w.backend) :
    Course host (finalState (tearDown host) w).backend := by
  have hrest : w.backend.phase.isReady = false → Ended host w.backend.acts →
      Course host (finalState (tearDown host) w).backend := by
    intro hready hended
    obtain ⟨hphase, hacts⟩ := tearDown_of_not_ready host hready
    rw [← hacts] at hended
    exact .ended (by rw [hphase]; rfl) hended
  cases h with
  | unstarted hphase hacts =>
    apply hrest
    · rw [hphase]
      rfl
    · rw [hacts]
      exact .nothing
  | ready hopen hacts htalk =>
    obtain ⟨hphase, hlog⟩ := tearDown_of_connected host hopen
    refine .ended (by rw [hphase]; rfl) ?_
    rw [hlog, hacts]
    exact .released htalk
  | ended hphase hacts =>
    exact hrest (Phase.isReady_of_isOver hphase) hacts

/-- A call sets the node up, talks over its connection or tears it down. -/
theorem call_cases (settings : NodeSettings) (library : Library) (request : Request)
    {w : World Node} (h : OwnsProcess w.backend) :
    let w' := finalState (request.call (backend host settings library)) w
    (∃ options, request = .setup options ∧
        w' = finalState (setup host settings library options) w) ∨
      (request.isSetup = false ∧ Talked w w') ∨
      (request.isSetup = false ∧ w' = finalState (tearDown host) w) := by
  intro w'
  cases request with
  | setup options => exact .inl ⟨options, rfl, finalState_bind_pure _ _ _⟩
  | evaluate file line code =>
    have htalked := talked_roundTrip host code h
    rw [← finalState_bind_pure _ some] at htalked
    exact .inr (.inl ⟨rfl, htalked⟩)
  | load provides url =>
    have htalked := talked_load host provides h
    rw [← finalState_bind_pure _ fun _ => none] at htalked
    exact .inr (.inl ⟨rfl, htalked⟩)
  | tearDown => exact .inr (.inr ⟨rfl, finalState_bind_pure _ _ _⟩)

theorem Course.of_call (settings : NodeSettings) (library : Library) (request : Request)
    {w : World Node} (h : Course host w.backend) :
    Course host (finalState (request.call (backend host settings library)) w).backend := by
  rcases call_cases settings library request h.ownsProcess with
    ⟨options, -, hw⟩ | ⟨-, htalked⟩ | ⟨-, hw⟩
  · rw [hw]
    exact h.of_setup settings library options
  · exact h.of_talked htalked
  · rw [hw]
    exact h.of_tearDown

theorem isOver_call (settings : NodeSettings) (library : Library) (request : Request)
    {w : World Node} (h : Course host w.backend) (hover : w.backend.phase.isOver = true) :
    (finalState (request.call (backend host settings library)) w).backend.phase.isOver = true := by
  rcases call_cases settings library request h.ownsProcess with
    ⟨options, -, hw⟩ | ⟨-, htalked⟩ | ⟨-, hw⟩
  · have hphase : w.backend.phase ≠ .unstarted := by
      intro hphase
      rw [hphase] at hover
      contradiction
    rw [hw, finalState_of_error (setup_of_not_unstarted host settings library options hphase)]
    exact hover
  · cases htalked with
    | nothing hphase _ => rwa [hphase]
    | more hbefore _ _ _ =>
      obtain ⟨incoming, hready⟩ := hbefore
      rw [hready] at hover
      contradiction
  · rw [hw, tearDown_phase host h.ownsProcess]
    rfl

/-- A node that is unstarted after a call was so before it, and the call was no set-up. -/
theorem unstarted_of_call (settings : NodeSettings) (library : Library) (request : Request)
    {w : World Node} (h : Course host w.backend)
    (hafter : (finalState (request.call (backend host settings library)) w).backend.phase =
      .unstarted) : w.backend.phase = .unstarted ∧ request.isSetup = false := by
  rcases call_cases settings library request h.ownsProcess with
    ⟨options, -, hw⟩ | ⟨hother, htalked⟩ | ⟨-, hw⟩
  · rw [hw] at hafter
    by_cases hphase : w.backend.phase = .unstarted
    · rcases setup_cases host settings library options hphase with
        ⟨w', _, _, hrun, ⟨incoming, hready⟩, _, _⟩ | ⟨f, w', _, hrun, hfailed, _, _⟩
      · rw [finalState_of_ok hrun, hready] at hafter
        contradiction
      · rw [finalState_of_error hrun, hfailed] at hafter
        contradiction
    · rw [finalState_of_error (setup_of_not_unstarted host settings library options hphase)]
        at hafter
      exact absurd hafter hphase
  · refine ⟨?_, hother⟩
    cases htalked with
    | nothing hphase _ => rwa [← hphase]
    | more _ hopen _ _ =>
      obtain ⟨incoming, hready⟩ := hopen
      rw [hready] at hafter
      contradiction
  · rw [hw, tearDown_phase host h.ownsProcess] at hafter
    contradiction

section History

variable {files : Tree} {past : List Answered} {w : World Node}

theorem course_of_history
    (h : History (backend host settings library) (World.fresh files Node.fresh) past w) :
    Course host w.backend := by
  induction h with
  | nil => exact .unstarted rfl rfl
  | call _ request ih => exact ih.of_call settings library request

theorem isOver_of_history {w' : World Node} {later : List Answered}
    (h : History (backend host settings library) w later w') (hcourse : Course host w.backend)
    (hover : w.backend.phase.isOver = true) : w'.backend.phase.isOver = true := by
  suffices Course host w'.backend ∧ w'.backend.phase.isOver = true from this.2
  induction h with
  | nil => exact ⟨hcourse, hover⟩
  | call _ request ih =>
    exact ⟨ih.1.of_call settings library request, isOver_call settings library request ih.1 ih.2⟩

theorem no_setup_of_unstarted
    (h : History (backend host settings library) (World.fresh files Node.fresh) past w)
    (hphase : w.backend.phase = .unstarted) : ∀ c ∈ past, c.request.isSetup = false := by
  induction h with
  | nil => simp
  | call hbefore request ih =>
    obtain ⟨hunstarted, hother⟩ :=
      unstarted_of_call settings library request (course_of_history hbefore) hphase
    intro c hc
    rcases List.mem_append.mp hc with hc | hc
    · exact ih hunstarted c hc
    · rw [List.mem_singleton.mp hc]
      exact hother

end History

/-! ## The contract -/

/-- At the end all is released, but for a process whose connection could not be duplicated. -/
theorem Ended.isReleased_or_started {acts : List Act} (h : Ended host acts) :
    Released acts ∨ acts = [.started] ∧ ∃ reason, host.duplicated = .error reason := by
  cases h with
  | nothing => exact .inl ⟨rfl, rfl, by simp⟩
  | unanswered => exact .inl ⟨by decide, by decide, by decide⟩
  | unduplicated herror => exact .inr ⟨rfl, _, herror⟩
  | released htalk =>
    have hstarted := htalk.count (a := .started) rfl
    have hconnected := htalk.count (a := .connected) rfl
    have hstopped := htalk.count (a := .stopped) rfl
    have hclosed := htalk.count (a := .closed) rfl
    refine .inl ?_
    constructor <;> simp [hstarted, hconnected, hstopped, hclosed]

theorem Ended.isReleased {acts : List Act} (h : Ended host acts)
    (hduplicated : host.duplicated = .ok ()) : Released acts := by
  rcases h.isReleased_or_started with hreleased | ⟨-, reason, herror⟩
  · exact hreleased
  · rw [herror] at hduplicated
    contradiction

theorem not_isReleased_started : ¬ Released [.started] :=
  fun h => absurd h.stopped (by decide)

theorem Ended.not_isReleased_iff {acts : List Act} (h : Ended host acts) :
    ¬ Released acts ↔ acts = [.started] := by
  constructor
  · intro hnot
    exact (h.isReleased_or_started.resolve_left hnot).1
  · rintro rfl
    exact not_isReleased_started

/-- A set-up that fails leaves a process running exactly when it was started, its port answered, and
the handle of the accepted connection could not be duplicated. -/
theorem setup_not_isReleased_iff (options : Options) {w : World Node}
    (hphase : w.backend.phase = .unstarted) (hnone : w.backend.acts = []) {f : Failure}
    {w' : World Node} (hrun : setup host settings library options w = .error f w') :
    ¬ Released w'.backend.acts ↔ ∃ process w₁ reason,
      launch host settings (targetDir settings options w.files)
        { w with backend := w.backend.enter .starting } = .ok process w₁ ∧
      dial host settings (some process) = .ok () ∧ host.duplicated = .error reason := by
  have hended : Ended host w'.backend.acts := by
    rcases setup_cases host settings library options hphase with
      ⟨w₂, _, _, hok, _⟩ | ⟨f₂, w₂, log, herror, -, hacts, hlog⟩
    · rw [hrun] at hok
      contradiction
    · obtain ⟨-, rfl⟩ := EStateM.Result.error.inj (hrun.symm.trans herror)
      rw [hacts, hnone]
      exact hlog.ended
  rw [hended.not_isReleased_iff]
  rcases launch_cases host settings (targetDir settings options w.files)
      { w with backend := w.backend.enter .starting } with
    ⟨process, w₁, hlaunch, hstarted⟩ | ⟨f₁, w₁, hlaunch, hsame⟩
  · have hphase₁ : w₁.backend.phase = .starting := congrArg Node.phase hstarted
    have hacts₁ : w₁.backend.acts = [.started] :=
      (congrArg Node.acts hstarted).trans (congrArg (· ++ [Act.started]) hnone)
    rcases connect_cases host settings process w₁ with ⟨w₂, -, -, -, hduplicated⟩ |
      ⟨f₂, w₂, hconnect, hstopped, hdial⟩ | ⟨f₂, reason, hconnect, hdial, hduplicated⟩
    · rw [← hended.not_isReleased_iff]
      refine iff_of_false (not_not_intro (hended.isReleased hduplicated)) ?_
      rintro ⟨-, -, reason, -, -, herror⟩
      exact nomatch hduplicated.symm.trans herror
    · have hacts := setup_acts_of_starting options hphase hrun
        ((bind_of_ok hlaunch).trans (bind_of_error hconnect))
        ((congrArg Node.phase hstopped).trans hphase₁)
      refine iff_of_false ?_ ?_
      · rw [hacts, hstopped]
        change ¬ w₁.backend.acts ++ [.stopped] = _
        rw [hacts₁]
        simp
      · rintro ⟨process', w₃, -, hlaunch', hdial', -⟩
        obtain ⟨rfl, -⟩ := EStateM.Result.ok.inj (hlaunch.symm.trans hlaunch')
        exact nomatch hdial.symm.trans hdial'
    · have hacts := setup_acts_of_starting options hphase hrun
        ((bind_of_ok hlaunch).trans (bind_of_error hconnect)) hphase₁
      exact iff_of_true (hacts.trans hacts₁) ⟨process, w₁, reason, hlaunch, hdial, hduplicated⟩
  · have hacts := setup_acts_of_starting options hphase hrun (bind_of_error hlaunch)
      (congrArg Node.phase hsame)
    refine iff_of_false ?_ ?_
    · rw [hacts, hsame]
      change ¬ w.backend.acts = _
      rw [hnone]
      simp
    · rintro ⟨process, w₂, -, hlaunch', -⟩
      exact nomatch hlaunch.symm.trans hlaunch'

theorem Ended.not_isOpen {acts : List Act} (h : Ended host acts) : ¬ IsOpen acts := by
  rintro ⟨hconnected, hstopped, -⟩
  cases h with
  | nothing => simp at hconnected
  | unanswered => simp at hconnected
  | unduplicated _ => simp at hconnected
  | released htalk => simp at hstopped

theorem Ended.sendsOpen {acts : List Act} (h : Ended host acts) : SendsOpen acts := by
  cases h with
  | nothing => simp [SendsOpen]
  | unanswered => exact fun before code rest hacts => by simp [List.cons_eq_append_iff] at hacts
  | unduplicated _ => exact fun before code rest hacts => by simp [List.cons_eq_append_iff] at hacts
  | released htalk => exact (sendsOpen_of_isTalk htalk).append (by simp)

theorem Course.sendsOpen {n : Node} (h : Course host n) : SendsOpen n.acts := by
  cases h with
  | unstarted _ hacts =>
    rw [hacts]
    simp [SendsOpen]
  | ready _ hacts htalk =>
    rw [hacts]
    exact sendsOpen_of_isTalk htalk
  | ended _ hacts => exact hacts.sendsOpen

theorem Course.isReady_iff {n : Node} (h : Course host n) :
    n.phase.isReady = true ↔ IsOpen n.acts := by
  cases h with
  | unstarted hphase hacts =>
    rw [hphase, hacts]
    simp [Phase.isReady, IsOpen]
  | ready hopen hacts htalk =>
    obtain ⟨incoming, hready⟩ := hopen
    rw [hready, hacts]
    exact iff_of_true rfl (isOpen_of_isTalk htalk)
  | ended hphase hacts =>
    rw [Phase.isReady_of_isOver hphase]
    exact iff_of_false Bool.false_ne_true hacts.not_isOpen

/-- What holds of a process backend after the calls `past`, and of the next calls. -/
structure Disciplined (host : Host) (settings : NodeSettings) (library : Library)
    (past : List Answered) (w : World Node) : Prop where
  /-- Everything that was sent went over an open connection, also inside of a set-up. -/
  sends : SendsOpen w.backend.acts
  /-- The connection is open in the ready phase and in no other. -/
  ready_iff : w.backend.phase.isReady = true ↔ IsOpen w.backend.acts
  /-- Outside of the ready phase nothing is sent. -/
  refuses (code : String) : w.backend.phase.isReady = false →
    roundTrip host code w = .error (.invalidState "ready" w.backend.phase.name) w
  /-- A set-up succeeds only as the first one, and has seen every step succeed. -/
  setup_ok {options : Options} {w' : World Node} :
    setup host settings library options w = .ok () w' →
      w.backend.phase = .unstarted ∧ (∀ c ∈ past, c.request.isSetup = false) ∧
      w'.backend.phase.isReady = true ∧
      ∃ manifest talk, w'.backend.acts = .started :: .connected :: talk ∧
        Prepared (bootstrapSteps (targetDir settings options w.files) manifest) talk
  /-- A set-up that fails has sent nothing after the first step that did not succeed. -/
  setup_error {options : Options} {f : Failure} {w' : World Node} :
    w.backend.phase = .unstarted → setup host settings library options w = .error f w' →
      w'.backend.phase = .failed ∧
        Abandoned host (targetDir settings options w.files) w'.backend.acts
  /-- There is one set-up at most; any other is rejected and changes nothing. -/
  setup_rejected (options : Options) : w.backend.phase ≠ .unstarted →
    setup host settings library options w =
      .error (.invalidState "unstarted" w.backend.phase.name) w
  /-- The end is final. -/
  ended {later : List Answered} {w' : World Node} : w.backend.phase.isOver = true →
    History (backend host settings library) w later w' → w'.backend.phase.isReady = false
  /-- By the end a process and a connection were released, once, where connections can be
  duplicated. -/
  released : w.backend.phase.isOver = true → host.duplicated = .ok () → Released w.backend.acts
  /-- What is not released by the end is a process that was started and never stopped. -/
  unreleased_iff : w.backend.phase.isOver = true →
    (¬ Released w.backend.acts ↔ w.backend.acts = [.started])
  /-- That happens in a set-up whose process runs and answers, if the handle of the connection can
  not be duplicated, and in no other case. -/
  setup_unreleased_iff {options : Options} {f : Failure} {w' : World Node} :
    w.backend.phase = .unstarted → setup host settings library options w = .error f w' →
      (¬ Released w'.backend.acts ↔ ∃ process w₁ reason,
        launch host settings (targetDir settings options w.files)
          { w with backend := w.backend.enter .starting } = .ok process w₁ ∧
        dial host settings (some process) = .ok () ∧ host.duplicated = .error reason)
  /-- Tearing down always ends the life of the node, and fails with a complaint about the phase
  only if it had ended so before. -/
  ends : (finalState (tearDown host) w).backend.phase = .tornDown ∧
    ((∃ expected actual,
        outcome (tearDown host) w = .error (.invalidState expected actual)) ↔
      w.backend.phase = .tornDown)

theorem disciplined_of_history (host : Host) (settings : NodeSettings) (library : Library)
    (files : Tree) {past : List Answered} {w : World Node}
    (h : History (backend host settings library) (World.fresh files Node.fresh) past w) :
    Disciplined host settings library past w := by
  have hcourse := course_of_history h
  refine
    { sends := hcourse.sendsOpen
      ready_iff := hcourse.isReady_iff
      refuses := fun code hready => roundTrip_of_not_ready host code hready
      setup_ok := ?setup_ok
      setup_error := ?setup_error
      setup_rejected := fun options hphase =>
        setup_of_not_unstarted host settings library options hphase
      ended := ?ended
      released := ?released
      unreleased_iff := fun hover => (hcourse.ended_of_isOver hover).not_isReleased_iff
      setup_unreleased_iff := fun hphase hrun =>
        setup_not_isReleased_iff _ hphase (hcourse.acts_of_unstarted hphase) hrun
      ends := ⟨tearDown_phase host hcourse.ownsProcess, tearDown_invalidState_iff host w⟩ }
  case setup_ok =>
    intro options w' hrun
    by_cases hphase : w.backend.phase = .unstarted
    · rcases setup_cases host settings library options hphase with
        ⟨w₁, manifest, talk, hrun₁, ⟨incoming, hready⟩, hacts, hdone⟩ | ⟨f, w₁, _, hrun₁, _⟩
      · rw [hrun] at hrun₁
        obtain ⟨-, rfl⟩ := EStateM.Result.ok.inj hrun₁
        rw [hcourse.acts_of_unstarted hphase] at hacts
        refine ⟨hphase, no_setup_of_unstarted h hphase, ?_, manifest, talk, hacts, hdone⟩
        rw [hready]
        rfl
      · rw [hrun] at hrun₁
        contradiction
    · rw [setup_of_not_unstarted host settings library options hphase] at hrun
      contradiction
  case setup_error =>
    intro options f w' hphase hrun
    rcases setup_cases host settings library options hphase with
      ⟨w₁, _, _, hrun₁, _⟩ | ⟨f₁, w₁, log, hrun₁, hfailed, hacts, hlog⟩
    · rw [hrun] at hrun₁
      contradiction
    · rw [hrun] at hrun₁
      obtain ⟨-, rfl⟩ := EStateM.Result.error.inj hrun₁
      rw [hcourse.acts_of_unstarted hphase] at hacts
      refine ⟨hfailed, ?_⟩
      rw [hacts]
      exact hlog
  case ended =>
    intro later w' hover hlater
    exact Phase.isReady_of_isOver (isOver_of_history hlater hcourse hover)
  case released =>
    intro hover hduplicated
    exact (hcourse.ended_of_isOver hover).isReleased hduplicated

/-- The port answers, but there is no runtime to prepare. -/
theorem released_after_missing_runtime :
    let machine : Machine := ⟨[("node", 0)], fun _ _ => true, []⟩
    let host := machine.host (.fresh [])
    let library := Library.empty ⟨"lib"⟩
    let request := (Request.setup .none).call (backend host .standard library)
    let w := finalState request (World.fresh (.fresh []) .fresh)
    w.backend.acts = [.started, .connected, .stopped, .closed] ∧ Released w.backend.acts := by
  intro machine host library request w
  have hdisciplined := disciplined_of_history host .standard library (.fresh [])
    (History.nil.call (.setup .none))
  exact ⟨by decide +kernel, hdisciplined.released (by decide +kernel) rfl⟩

/-- The process is started and answers, but there is no second handle for its connection: the
set-up fails and leaves the process running. -/
theorem unduplicated_connection_not_released :
    let machine : Machine := ⟨[("node", 0)], fun _ _ => true, []⟩
    let host := { machine.host (.fresh []) with
      duplicated := .error "Too many open files (os error 24)" }
    let b := backend host .standard (.empty ⟨"lib"⟩)
    let w₀ := World.fresh (.fresh []) Node.fresh
    let w := finalState ((Request.setup .none).call b) w₀
    (∃ past, History b w₀ past w) ∧ w.backend.phase = .failed ∧ w.backend.acts = [.started] ∧
      ¬ Released w.backend.acts := by
  intro machine host b w₀ w
  have hacts : w.backend.acts = [.started] := by decide +kernel
  refine ⟨⟨_, History.nil.call (.setup .none)⟩, by decide +kernel, hacts, ?_⟩
  rw [hacts]
  exact not_isReleased_started

end Node

end LiveLisp.Backend
