import LiveLisp.Proofs.Backend.Lifecycle
/-!
# Calls outside of the ready phase

An evaluation is refused in every phase but the ready one.  A load looks at its namespaces first:
one without namespaces, and one whose first namespace was delivered before, ends without a look at
the phase.  What was delivered before is told by the calls that were made and their answers.
-/

namespace LiveLisp.Backend

open Fallible

/-! ## What was loaded -/

/-- The namespaces that are delivered after a call and its answer, if `loaded` were so before it. A
load that succeeds adds its namespaces, unless its first one was there. -/
def Answered.adds (loaded : List String) : Answered → List String
  | ⟨.load (primary :: rest) _, .ok _⟩ =>
    if loaded.contains primary then loaded else loaded ++ primary :: rest
  | _ => loaded

/-- The namespaces that were delivered by the calls `past`. -/
def loadedBy (past : List Answered) : List String := past.foldl Answered.adds []

theorem loadedBy_concat (past : List Answered) (c : Answered) :
    loadedBy (past ++ [c]) = c.adds (loadedBy past) := by
  simp [loadedBy]

theorem Answered.adds_of_error (loaded : List String) (request : Request) (f : Failure) :
    Answered.adds loaded ⟨request, .error f⟩ = loaded := by
  cases request with
  | load provides url => cases provides <;> rfl
  | _ => rfl

theorem History.call_of_ok {β : Type} {b : Backend β} {w₀ w w' : World β} {past : List Answered}
    {a : Option Result} (h : History b w₀ past w) (request : Request)
    (hrun : request.call b w = .ok a w') : History b w₀ (past ++ [⟨request, .ok a⟩]) w' := by
  have hnext := h.call request
  rw [outcome, hrun, finalState_of_ok hrun] at hnext
  exact hnext

namespace Node

variable (host : Host) (settings : NodeSettings) (library : Library)

/-! ## Calls that deliver nothing -/

/-- The same namespaces are delivered. -/
def SameDelivered (w w' : World Node) : Prop := w'.backend.delivered = w.backend.delivered

instance : Std.Refl SameDelivered := ⟨fun _ => rfl⟩

instance : Trans SameDelivered SameDelivered SameDelivered := ⟨fun h h' => h'.trans h⟩

/-- A request delivers nothing by itself, and leaves an open connection open. -/
theorem roundTrip_keeps (code : String) (w : World Node) :
    (finalState (roundTrip host code) w).backend.delivered = w.backend.delivered ∧
      (finalState (roundTrip host code) w).backend.phase.isReady = w.backend.phase.isReady := by
  cases hphase : w.backend.phase with
  | ready connection =>
    unfold finalState roundTrip
    rw [hphase]
    dsimp only
    cases host.transmit w.backend.sent code with
    | error reason => exact ⟨rfl, congrArg Phase.isReady hphase⟩
    | ok deliveries =>
      dsimp only
      cases (connection.incoming.extend deliveries).receive.payload with
      | error f => exact ⟨rfl, rfl⟩
      | ok payload =>
        dsimp only
        cases decodeResponse payload <;> exact ⟨rfl, rfl⟩
  | _ =>
    have hrefused := roundTrip_of_not_ready host code (w := w) (by rw [hphase]; rfl)
    rw [finalState_of_error hrefused]
    exact ⟨rfl, congrArg Phase.isReady hphase⟩

theorem sameDelivered_roundTrip (code : String) : Relates SameDelivered (roundTrip host code) :=
  fun w => (roundTrip_keeps host code w).1

theorem sameDelivered_launch (outputDir : Files.Pathname) :
    Relates SameDelivered (launch host settings outputDir) := by
  intro w
  rcases launch_cases host settings outputDir w with ⟨process, w', hrun, hbackend⟩ |
    ⟨f, w', hrun, hbackend⟩
  · rw [finalState_of_ok hrun, SameDelivered, hbackend]
    rfl
  · rw [finalState_of_error hrun, SameDelivered, hbackend]

theorem sameDelivered_connect (process : Files.Pathname) :
    Relates SameDelivered (connect host settings process) := by
  intro w
  unfold connect
  cases dial host settings (some process) with
  | error f => rfl
  | ok u =>
    dsimp only
    cases host.duplicated <;> rfl

theorem sameDelivered_onFiles {α : Type} (build : Library.Build α) :
    Relates SameDelivered (onFiles build : Call Node α) := by
  intro w
  rw [SameDelivered, onFiles_backend]

theorem sameDelivered_runSteps (steps : List BootstrapStep) :
    Relates SameDelivered (runSteps (roundTrip host) steps) := by
  induction steps with
  | nil => exact relates_pure ()
  | cons step steps ih =>
    apply (sameDelivered_roundTrip host step.code).bind
    intro result
    cases result.isSuccess with
    | true => exact ih
    | false => exact relates_throw _

theorem sameDelivered_start (outputDir : Files.Pathname) :
    Relates SameDelivered (start host settings library outputDir) := by
  apply (sameDelivered_launch host settings outputDir).bind
  intro process
  apply (sameDelivered_connect host settings process).bind
  intro _
  apply (sameDelivered_onFiles (library.compileRuntime outputDir)).bind
  intro _
  apply (sameDelivered_onFiles (library.writeManifest outputDir)).bind
  intro manifest
  exact sameDelivered_runSteps host (bootstrapSteps outputDir manifest)

/-- Closing is told by the log alone. -/
theorem close_keeps (connection : Connection) (n : Node) :
    (close host connection n).2.phase = n.phase ∧
      (close host connection n).2.delivered = n.delivered := by
  unfold close
  cases connection.ownsProcess with
  | true => cases host.stopProcess <;> cases host.closeConnection <;> exact ⟨rfl, rfl⟩
  | false => cases host.closeConnection <;> exact ⟨rfl, rfl⟩

theorem abandon_delivered (n : Node) : (abandon host n).delivered = n.delivered := by
  unfold abandon
  cases n.phase with
  | ready connection => exact (close_keeps host connection (n.enter .failed)).2
  | _ => rfl

theorem sameDelivered_setup (options : Options) :
    Relates SameDelivered (setup host settings library options) := by
  intro w
  by_cases hphase : w.backend.phase = .unstarted
  · unfold finalState setup
    rw [hphase]
    dsimp only
    have hstart := sameDelivered_start host settings library (targetDir settings options w.files)
    cases hrun : start host settings library (targetDir settings options w.files)
        { w with backend := w.backend.enter .starting } with
    | ok u w' =>
      have hsame : SameDelivered _ w' := hstart.of_ok hrun
      exact hsame
    | error f w' =>
      have hsame : SameDelivered _ w' := hstart.of_error hrun
      exact (abandon_delivered host w'.backend).trans hsame
  · rw [finalState_of_error (setup_of_not_unstarted host settings library options hphase)]
    rfl

/-- Tearing down ends the life of the node, whosever the process is. -/
theorem tearDown_keeps (w : World Node) :
    (finalState (tearDown host) w).backend.phase = .tornDown ∧
      (finalState (tearDown host) w).backend.delivered = w.backend.delivered := by
  unfold finalState tearDown
  cases hphase : w.backend.phase with
  | ready connection =>
    have hclose := close_keeps host connection (w.backend.enter .tornDown)
    dsimp only
    cases (close host connection (w.backend.enter .tornDown)).1 <;> exact hclose
  | tornDown => exact ⟨hphase, rfl⟩
  | _ => exact ⟨rfl, rfl⟩

/-! ## Loads -/

/-- A load that has nothing to do looks at no phase. -/
theorem load_of_passed {provides : List String} {w : World Node}
    (h : ∀ primary ∈ provides.head?, primary ∈ w.backend.delivered) :
    load host provides w = .ok () w := by
  cases provides with
  | nil => rfl
  | cons primary rest =>
    have hknown : w.backend.delivered.contains primary = true := by simpa using h primary rfl
    unfold load
    dsimp only
    rw [bind_of_ok (rfl : (get : Call Node _) w = .ok w w), if_pos hknown]
    rfl

/-- Any other load sends a request and adds its namespaces if the answer is a success. -/
theorem load_of_new {primary : String} {rest : List String} {w : World Node}
    (h : primary ∉ w.backend.delivered) :
    load host (primary :: rest) w = (do
      let result ← roundTrip host ("goog.require('" ++ primary ++ "');")
      if result.isSuccess then
        change fun n => { n with delivered := n.delivered ++ primary :: rest }
      else throw (Failure.loadFailed primary result.value)) w := by
  have hnew : ¬ w.backend.delivered.contains primary = true := by simpa using h
  unfold load
  dsimp only
  rw [bind_of_ok (rfl : (get : Call Node _) w = .ok w w), if_neg hnew]

/-- Outside of the ready phase a load is refused, unless it has nothing to do. -/
theorem load_of_not_ready (provides : List String) {w : World Node}
    (h : w.backend.phase.isReady = false) :
    load host provides w =
      if ∀ primary ∈ provides.head?, primary ∈ w.backend.delivered then .ok () w
      else .error (.invalidState "ready" w.backend.phase.name) w := by
  split
  · next hpassed => exact load_of_passed host hpassed
  · next hpassed =>
    cases provides with
    | nil => simp at hpassed
    | cons primary rest =>
      rw [load_of_new host (by simpa using hpassed)]
      exact bind_of_error (roundTrip_of_not_ready host _ h)

theorem load_unchanged (provides : List String) {w : World Node}
    (h : w.backend.phase.isReady = false) : finalState (load host provides) w = w := by
  have hrun := load_of_not_ready host provides h
  by_cases hpassed : ∀ primary ∈ provides.head?, primary ∈ w.backend.delivered
  · rw [if_pos hpassed] at hrun
    exact finalState_of_ok hrun
  · rw [if_neg hpassed] at hrun
    exact finalState_of_error hrun

/-- What comes of a load. -/
inductive Loading (provides : List String) (w : World Node) :
    EStateM.Result Failure (World Node) Unit → Prop
  | passed (h : ∀ primary ∈ provides.head?, primary ∈ w.backend.delivered) :
    Loading provides w (.ok () w)
  | added {primary : String} {rest : List String} {w' : World Node}
    (hprovides : provides = primary :: rest) (hnew : primary ∉ w.backend.delivered)
    (hdelivered : w'.backend.delivered = w.backend.delivered ++ provides)
    (hready : w'.backend.phase.isReady = w.backend.phase.isReady) : Loading provides w (.ok () w')
  | failed {f : Failure} {w' : World Node} (hdelivered : SameDelivered w w')
    (hready : w'.backend.phase.isReady = w.backend.phase.isReady) : Loading provides w (.error f w')

theorem loading_load (provides : List String) (w : World Node) :
    Loading provides w (load host provides w) := by
  by_cases hpassed : ∀ primary ∈ provides.head?, primary ∈ w.backend.delivered
  · rw [load_of_passed host hpassed]
    exact .passed hpassed
  · obtain ⟨primary, rest, rfl, hnew⟩ : ∃ primary rest, provides = primary :: rest ∧
        primary ∉ w.backend.delivered := by
      cases provides with
      | nil => simp at hpassed
      | cons primary rest => exact ⟨primary, rest, rfl, by simpa using hpassed⟩
    rw [load_of_new host hnew]
    obtain ⟨hdelivered, hready⟩ := roundTrip_keeps host ("goog.require('" ++ primary ++ "');") w
    cases hsend : roundTrip host ("goog.require('" ++ primary ++ "');") w with
    | error f w' =>
      rw [finalState_of_error hsend] at hdelivered hready
      rw [bind_of_error hsend]
      exact .failed hdelivered hready
    | ok result w' =>
      rw [finalState_of_ok hsend] at hdelivered hready
      rw [bind_of_ok hsend]
      by_cases hsuccess : result.isSuccess = true
      · rw [if_pos hsuccess]
        exact .added rfl hnew (congrArg (· ++ primary :: rest) hdelivered) hready
      · rw [if_neg hsuccess]
        exact .failed hdelivered hready

theorem isReady_load (provides : List String) (w : World Node) :
    (finalState (load host provides) w).backend.phase.isReady = w.backend.phase.isReady := by
  have hloading := loading_load host provides w
  unfold finalState
  cases hrun : load host provides w with
  | ok u w' =>
    rw [hrun] at hloading
    cases hloading with
    | passed _ => rfl
    | added _ _ _ hready => exact hready
  | error f w' =>
    rw [hrun] at hloading
    cases hloading with
    | failed _ hready => exact hready

/-! ## Every course of calls -/

section Calls

variable (w : World Node)

theorem finalState_callSetup (options : Options) :
    finalState ((Request.setup options).call (backend host settings library)) w =
      finalState (setup host settings library options) w :=
  finalState_bind_pure _ _ w

theorem finalState_callEvaluate (file : String) (line : Nat) (code : String) :
    finalState ((Request.evaluate file line code).call (backend host settings library)) w =
      finalState (roundTrip host code) w :=
  finalState_bind_pure _ _ w

theorem finalState_callLoad (provides : List String) (url : Files.Pathname) :
    finalState ((Request.load provides url).call (backend host settings library)) w =
      finalState (load host provides) w :=
  finalState_bind_pure _ _ w

theorem finalState_callTearDown :
    finalState (Request.tearDown.call (backend host settings library)) w =
      finalState (tearDown host) w :=
  finalState_bind_pure _ _ w

end Calls

/-- What is delivered after a call is told by the call and its answer. -/
theorem delivered_call (request : Request) (w : World Node) :
    (finalState (request.call (backend host settings library)) w).backend.delivered =
      Answered.adds w.backend.delivered
        ⟨request, outcome (request.call (backend host settings library)) w⟩ := by
  cases request with
  | setup options =>
    rw [finalState_callSetup]
    exact sameDelivered_setup host settings library options w
  | evaluate file line code =>
    rw [finalState_callEvaluate]
    exact sameDelivered_roundTrip host code w
  | tearDown =>
    rw [finalState_callTearDown]
    exact (tearDown_keeps host w).2
  | load provides url =>
    have hloading := loading_load host provides w
    cases hrun : load host provides w with
    | error f w' =>
      have hcall : (Request.load provides url).call (backend host settings library) w =
          .error f w' := bind_of_error hrun
      rw [hrun] at hloading
      rw [finalState_of_error hcall, outcome, hcall]
      dsimp only
      rw [Answered.adds_of_error]
      cases hloading with
      | failed hdelivered _ => exact hdelivered
    | ok u w' =>
      have hcall : (Request.load provides url).call (backend host settings library) w =
          .ok none w' := bind_of_ok hrun
      rw [hrun] at hloading
      rw [finalState_of_ok hcall, outcome, hcall]
      cases hloading with
      | passed h =>
        cases provides with
        | nil => rfl
        | cons primary rest => exact (if_pos (by simpa using h primary rfl)).symm
      | added hprovides hnew hdelivered _ =>
        subst hprovides
        exact hdelivered.trans (if_neg (by simpa using hnew)).symm

/-- Before a node is connected, and when it failed to be, nothing is delivered. -/
def Unloaded (n : Node) : Prop :=
  n.phase.isReady = false → n.phase ≠ .tornDown → n.delivered = []

theorem Unloaded.of_call (request : Request) {w : World Node} (h : Unloaded w.backend) :
    Unloaded (finalState (request.call (backend host settings library)) w).backend := by
  cases request with
  | setup options =>
    rw [finalState_callSetup]
    by_cases hphase : w.backend.phase = .unstarted
    · intro _ _
      have hsame := sameDelivered_setup host settings library options w
      exact hsame.trans (h (by rw [hphase]; rfl) (by simp [hphase]))
    · rw [finalState_of_error (setup_of_not_unstarted host settings library options hphase)]
      exact h
  | evaluate file line code =>
    rw [finalState_callEvaluate]
    obtain ⟨hdelivered, hready⟩ := roundTrip_keeps host code w
    intro hclosed hopen
    rw [hready] at hclosed
    rw [finalState_of_error (roundTrip_of_not_ready host code hclosed)] at hopen ⊢
    exact h hclosed hopen
  | load provides url =>
    rw [finalState_callLoad]
    intro hclosed hopen
    rw [isReady_load] at hclosed
    rw [load_unchanged host provides hclosed] at hopen ⊢
    exact h hclosed hopen
  | tearDown =>
    rw [finalState_callTearDown]
    intro _ hopen
    exact absurd (tearDown_keeps host w).1 hopen

section History

variable {host settings library} {files : Files.Tree} {start : Node} {past : List Answered}
  {w : World Node}

theorem delivered_of_history (hstart : start.delivered = [])
    (h : History (backend host settings library) (World.fresh files start) past w) :
    w.backend.delivered = loadedBy past := by
  induction h with
  | nil => exact hstart
  | call _ request ih => rw [delivered_call, ih, loadedBy_concat]

theorem unloaded_of_history (hstart : start.delivered = [])
    (h : History (backend host settings library) (World.fresh files start) past w) :
    Unloaded w.backend := by
  induction h with
  | nil => exact fun _ _ => hstart
  | call _ request ih => exact ih.of_call host settings library request

/-- Outside of the ready phase, after any calls on a node that was fresh or attached: an evaluation
is refused; a load is refused exactly if it has namespaces and its first one was not delivered
before, and otherwise succeeds without doing anything; nothing changes, so that nothing is sent; and
only a node that is torn down has ever delivered something. -/
theorem refused_iff_of_history (hstart : start = .fresh ∨ start = .attached)
    (h : History (backend host settings library) (World.fresh files start) past w)
    (hphase : w.backend.phase.isReady = false) :
    let refusal := Failure.invalidState "ready" w.backend.phase.name
    (∀ file line code,
        (backend host settings library).evaluate file line code w = .error refusal w) ∧
      (∀ provides url,
        finalState ((backend host settings library).load provides url) w = w ∧
        ((backend host settings library).load provides url w = .error refusal w ↔
          ∃ primary rest, provides = primary :: rest ∧ primary ∉ loadedBy past)) ∧
      (w.backend.phase ≠ .tornDown → loadedBy past = []) := by
  intro refusal
  have hnone : start.delivered = [] := by
    rcases hstart with rfl | rfl <;> rfl
  have hdelivered := delivered_of_history hnone h
  refine ⟨fun _ _ code => roundTrip_of_not_ready host code hphase, fun provides url => ?_, ?_⟩
  · refine ⟨load_unchanged host provides hphase, ?_⟩
    change load host provides w = _ ↔ _
    rw [load_of_not_ready host provides hphase, ← hdelivered]
    cases provides with
    | nil => simp
    | cons primary rest =>
      by_cases hknown : primary ∈ w.backend.delivered <;> simp [hknown, refusal]
  · intro hopen
    rw [← hdelivered]
    exact unloaded_of_history hnone h hphase hopen

end History

/-! ## A node that was torn down -/

theorem roundTrip_of_response {host : Host} {code : String} {w : World Node}
    {connection : Connection} {deliveries : List Delivery} {flushed : List String}
    {payload : String} {incoming : Incoming} {result : Result}
    (hphase : w.backend.phase = .ready connection)
    (hsent : host.transmit w.backend.sent code = .ok deliveries)
    (hreceived : (connection.incoming.extend deliveries).receive =
      ⟨flushed, .ok payload, incoming⟩)
    (hresult : decodeResponse payload = .ok result) :
    roundTrip host code w = .ok result ⟨w.files, w.shown ++ flushed.map .flushed,
      ((w.backend.did (.sent code)).enter (.ready { connection with incoming := incoming })).did
        (.answered result)⟩ := by
  unfold roundTrip
  simp only [hphase, hsent, hreceived, hresult]

theorem load_of_success {host : Host} {primary value : String} {rest : List String}
    {w w' : World Node} (hnew : w.backend.delivered.contains primary = false)
    (hsuccess : roundTrip host ("goog.require('" ++ primary ++ "');") w =
      .ok (.success value) w') :
    load host (primary :: rest) w = .ok () { w' with
      backend := { w'.backend with delivered := w'.backend.delivered ++ primary :: rest } } := by
  have hget : (get : Call Node (World Node)) w = .ok w w := rfl
  unfold load
  dsimp only
  rw [bind_of_ok hget, hnew]
  exact bind_of_ok hsuccess

/-- A runtime that answers every request with success. -/
def obliging : Host :=
  let reply := "\x7b\"status\":\"success\"\x7d\x00".toList.map fun c => c.toNat.toUInt8
  { Machine.host ⟨[], fun _ _ => true, []⟩ (.fresh []) with
    transmit := fun _ _ => .ok [.bytes reply] }

/-- An attached node that has delivered a unit. -/
def loadedSample : World Node :=
  ⟨.fresh [], [], ⟨.ready ⟨false, ⟨[], []⟩⟩, ["a", "b"],
    [.sent "goog.require('a');", .answered (.success "nil")]⟩⟩

theorem load_loadedSample :
    load obliging ["a", "b"] (World.fresh (.fresh []) .attached) = .ok () loadedSample := by
  have hcode : "goog.require('" ++ "a" ++ "');" = "goog.require('a');" := by decide
  have hreceived : (Incoming.extend ⟨[], []⟩ [.bytes
        ("\x7b\"status\":\"success\"\x7d\x00".toList.map fun c => c.toNat.toUInt8)]).receive =
      ⟨[], .ok "\x7b\"status\":\"success\"\x7d", ⟨[], []⟩⟩ := rfl
  have hfields : responseFields? "\x7b\"status\":\"success\"\x7d" = some ("success", "nil") := by
    decide +kernel
  have hresult : decodeResponse "\x7b\"status\":\"success\"\x7d" = .ok (.success "nil") := by
    simp only [decodeResponse, hfields]
  have hreply : roundTrip obliging "goog.require('a');" (World.fresh (.fresh []) .attached) =
      .ok (.success "nil") _ :=
    roundTrip_of_response rfl rfl hreceived hresult
  rw [← hcode] at hreply
  rw [load_of_success rfl hreply, hcode]
  rfl

/-- The same node after it was torn down. -/
def tornDownSample : World Node :=
  { loadedSample with backend := (loadedSample.backend.enter .tornDown).did .closed }

theorem history_tornDownSample :
    History (backend obliging .standard (.empty ⟨"lib"⟩)) (World.fresh (.fresh []) .attached)
      [⟨.load ["a", "b"] ⟨"a.js"⟩, .ok none⟩, ⟨.tearDown, .ok none⟩] tornDownSample := by
  have htearDown : tearDown obliging loadedSample = .ok () tornDownSample := rfl
  have hload' := bind_of_ok (k := fun _ => pure (none : Option Result)) load_loadedSample
  have htearDown' := bind_of_ok (k := fun _ => pure (none : Option Result)) htearDown
  have hfirst := History.nil.call_of_ok (b := backend obliging .standard (.empty ⟨"lib"⟩))
    (.load ["a", "b"] ⟨"a.js"⟩) hload'
  exact hfirst.call_of_ok .tearDown htearDown'

/-- After the unit of `a` and `b` was loaded and the node torn down, a unit of `c` is refused. -/
theorem refused_tornDownSample :
    tornDownSample.backend.phase.isReady = false ∧
      load obliging ["c"] tornDownSample =
        .error (.invalidState "ready" "torn down") tornDownSample := by
  have hrefused := refused_iff_of_history (.inr rfl) history_tornDownSample rfl
  exact ⟨rfl, ((hrefused.2.1 ["c"] ⟨"c.js"⟩).2).mpr ⟨"c", [], rfl, by decide⟩⟩

/-- A node that is torn down takes a unit that it had delivered, and one without namespaces, for
loaded. -/
theorem delivered_unit_not_refused :
    let b := backend obliging .standard (.empty ⟨"lib"⟩)
    History b (World.fresh (.fresh []) .attached)
        [⟨.load ["a", "b"] ⟨"a.js"⟩, .ok none⟩, ⟨.tearDown, .ok none⟩] tornDownSample ∧
      tornDownSample.backend.phase = .tornDown ∧
      b.load ["a"] ⟨"a.js"⟩ tornDownSample = .ok () tornDownSample ∧
      b.load [] ⟨"c.js"⟩ tornDownSample = .ok () tornDownSample := by
  have hknown : ∀ primary ∈ ["a"].head?, primary ∈ tornDownSample.backend.delivered := by decide
  exact ⟨history_tornDownSample, rfl, load_of_passed obliging hknown, rfl⟩

end Node

end LiveLisp.Backend
