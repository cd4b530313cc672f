import LiveLisp.Backend.Address
import LiveLisp.Backend.Basic
import LiveLisp.Backend.Bootstrap
import LiveLisp.Backend.Frame
import LiveLisp.Backend.Response
/-!
# The process backend

This backend starts an interpreter that runs a small server, connects to it, and evaluates
fragments over the connection. It goes through phases:

    unstarted --setup--> starting --connected--> ready --tear down--> torn down
                             |                     |
                             +------> failed <-----+

A request is sent only in the ready phase, and what a set-up has acquired is released when it fails
or when the backend is torn down; only a process whose connection was accepted and could not be
duplicated is left to itself. What is done to the world outside is kept in a log.
-/

namespace LiveLisp.Backend

open Files (Pathname Tree)

/-- The world outside: how commands are found and started, what a port answers, what the runtime
sends back, and whether a process and a connection can be closed. Attempts to connect are counted
from one; the exit of a started process shows at some of them. A connection that was accepted is
set to send without delay, and its handle is duplicated for the two directions. -/
structure Host where
  interpreter? : Tree → String → Option Pathname
  launch : Tree → Pathname → Except String Unit
  accepts : (host : String) → (port attempt : Nat) → Except String Unit
  exited? : Pathname → Nat → Except String (Option String)
  undelayed : Except String Unit
  duplicated : Except String Unit
  transmit : (earlier : List String) → (code : String) → Except String (List Delivery)
  stopProcess : Except String Unit
  closeConnection : Except String Unit

/-- What a backend is told about its runtime. The interval between attempts to connect is in
milliseconds. -/
structure NodeSettings where
  host : String
  port : Nat
  command : String
  outputDir : Pathname
  attempts : Nat
  interval : Nat
  deriving DecidableEq, Repr, Inhabited

/-- The settings that are used if nothing else is asked for. -/
def NodeSettings.standard : NodeSettings :=
  ⟨"localhost", 5001, "node", ⟨".cljs_node_repl"⟩, 40, 250⟩

/-- An open connection, to a process of our own or to one that was there before. -/
structure Connection where
  ownsProcess : Bool
  incoming : Incoming
  deriving DecidableEq, Repr, Inhabited

/-- Where a backend is in its life. -/
inductive Phase where
  | unstarted
  | starting
  | ready (connection : Connection)
  | tornDown
  | failed
  deriving DecidableEq, Repr, Inhabited

/-- The word for a phase. -/
def Phase.name : Phase → String
  | .unstarted => "unstarted"
  | .starting => "starting"
  | .ready _ => "ready"
  | .tornDown => "torn down"
  | .failed => "failed"

/-- Something that was done to the world outside. -/
inductive Act where
  | started
  | connected
  | sent (code : String)
  | answered (result : Result)
  | stopped
  | closed
  deriving DecidableEq, Repr, Inhabited

/-- The fragment, if the act sent one. -/
def Act.code? : Act → Option String
  | .sent code => some code
  | _ => none

/-- The state of a process backend. `delivered` holds the namespaces of loaded units. -/
structure Node where
  phase : Phase
  delivered : List String
  acts : List Act
  deriving DecidableEq, Repr, Inhabited

namespace Node

/-- Before the set-up. -/
def fresh : Node := ⟨.unstarted, [], []⟩

/-- Connected to a runtime that was there before. -/
def attached : Node := ⟨.ready ⟨false, ⟨[], []⟩⟩, [], []⟩

/-- The node after one more act. -/
def did (n : Node) (act : Act) : Node := { n with acts := n.acts ++ [act] }

/-- The node in another phase. -/
def enter (n : Node) (phase : Phase) : Node := { n with phase := phase }

/-- The fragments sent so far. -/
def sent (n : Node) : List String := n.acts.filterMap Act.code?

/-- Changes the node in the world. -/
def change (f : Node → Node) : Call Node Unit :=
  modify fun w => { w with backend := f w.backend }

/-- Sends a fragment and waits for its result. -/
def roundTrip (host : Host) (code : String) : Call Node Result := fun w =>
  match w.backend.phase with
  | .ready connection =>
    let node := w.backend.did (.sent code)
    match host.transmit w.backend.sent code with
    | .error reason => .error (.transfer reason) { w with backend := node }
    | .ok deliveries =>
      let r := (connection.incoming.extend deliveries).receive
      let connection := { connection with incoming := r.incoming }
      let w : World Node :=
        ⟨w.files, w.shown ++ r.flushed.map .flushed, node.enter (.ready connection)⟩
      match r.payload with
      | .error f => .error f w
      | .ok payload =>
        match decodeResponse payload with
        | .ok result => .ok result { w with backend := w.backend.did (.answered result) }
        | .error f => .error f w
  | phase => .error (.invalidState "ready" phase.name) w

/-- Stops the process, if it is ours, and closes the connection, each whatever becomes of the
other; the first failure counts. -/
def close (host : Host) (connection : Connection) (n : Node) : Except Failure Unit × Node :=
  let stopped : Except String Unit × Node :=
    if connection.ownsProcess then (host.stopProcess, n.did .stopped) else (.ok (), n)
  let node := stopped.2.did .closed
  match stopped.1, host.closeConnection with
  | .error reason, _ => (.error (.transfer reason), node)
  | .ok _, .error reason => (.error (.transfer reason), node)
  | .ok _, .ok _ => (.ok (), node)

/-- Writes the server below the output directory. -/
def writeServer (outputDir : Pathname) (port : Nat) : Call Node Unit := fun w =>
  match w.files.makeDirectories outputDir with
  | .error e => .error (.transfer e.message) w
  | .ok files =>
    match files.writeText (outputDir.join serverFile) (serverScript port) with
    | .error e => .error (.transfer e.message) { w with files := files }
    | .ok files => .ok () { w with files := files }

/-- One attempt to connect: nothing if the port answers, else the reason why it does not. An exit
of the process ends all attempts. -/
def dialOnce (host : Host) (settings : NodeSettings) (process : Option Pathname) (attempt : Nat) :
    Except Failure (Option String) :=
  match host.accepts settings.host settings.port attempt with
  | .ok _ =>
    match host.undelayed with
    | .ok _ => .ok none
    | .error reason => .error (.transfer reason)
  | .error reason =>
    match process.map (host.exited? · attempt) with
    | none | some (.ok none) => .ok (some reason)
    | some (.ok (some status)) => .error (.processExited status)
    | some (.error reason) => .error (.transfer reason)

/-- Tries to connect until the port answers, the process has exited, or no attempts are left after
the one that is counted by `attempt`. -/
def dialFrom (host : Host) (settings : NodeSettings) (process : Option Pathname) :
    (attempt left : Nat) → Except Failure Unit
  | attempt, 0 =>
    match dialOnce host settings process attempt with
    | .error f => .error f
    | .ok none => .ok ()
    | .ok (some reason) =>
      .error (.connect (addressText settings.host settings.port) attempt reason)
  | attempt, left + 1 =>
    match dialOnce host settings process attempt with
    | .error f => .error f
    | .ok none => .ok ()
    | .ok (some _) => dialFrom host settings process (attempt + 1) left

/-- Connects to the runtime; there is at least one attempt. -/
def dial (host : Host) (settings : NodeSettings) (process : Option Pathname) :
    Except Failure Unit :=
  dialFrom host settings process 1 (settings.attempts - 1)

/-- Finds and starts the interpreter. -/
def launch (host : Host) (settings : NodeSettings) (outputDir : Pathname) : Call Node Pathname := do
  match host.interpreter? (← get).files settings.command with
  | none => throw (.interpreterNotFound settings.command)
  | some interpreter =>
    writeServer outputDir settings.port
    match host.launch (← get).files interpreter with
    | .error reason => throw (.spawn interpreter.text reason)
    | .ok _ =>
      change (·.did .started)
      return interpreter

/-- Connects to the started process, which is stopped if the port does not answer. -/
def connect (host : Host) (settings : NodeSettings) (process : Pathname) : Call Node Unit := do
  match dial host settings (some process) with
  | .error f =>
    change (·.did .stopped)
    throw f
  | .ok _ =>
    match host.duplicated with
    | .error reason => throw (.transfer reason)
    | .ok _ => change fun n => (n.did .connected).enter (.ready ⟨true, ⟨[], []⟩⟩)

/-- Starts the runtime and prepares it. -/
def start (host : Host) (settings : NodeSettings) (library : Library) (outputDir : Pathname) :
    Call Node Unit := do
  let process ← launch host settings outputDir
  connect host settings process
  onFiles (library.compileRuntime outputDir)
  let manifest ← onFiles (library.writeManifest outputDir)
  runSteps (roundTrip host) (bootstrapSteps outputDir manifest)

/-- The node after a failed start: what was acquired is released. -/
def abandon (host : Host) (n : Node) : Node :=
  match n.phase with
  | .ready connection => (close host connection (n.enter .failed)).2
  | _ => n.enter .failed

/-- Where a set-up puts its files. A path that has no absolute form is used as it is. -/
def targetDir (settings : NodeSettings) (options : Options) (files : Tree) : Pathname :=
  let asked := options.outputDir.getD settings.outputDir
  (asked.absolute? files.cwdText).getD asked

/-- Sets an unstarted node up. -/
def setup (host : Host) (settings : NodeSettings) (library : Library) (options : Options) :
    Call Node Unit := fun w =>
  match w.backend.phase with
  | .unstarted =>
    match start host settings library (targetDir settings options w.files)
        { w with backend := w.backend.enter .starting } with
    | .ok _ w => .ok () w
    | .error f w => .error f { w with backend := abandon host w.backend }
  | phase => .error (.invalidState "unstarted" phase.name) w

/-- Loads a unit by its first namespace, once. A unit without namespaces needs nothing. -/
def load (host : Host) (provides : List String) : Call Node Unit := do
  match provides with
  | [] => return
  | primary :: _ =>
    if (← get).backend.delivered.contains primary then return
    let result ← roundTrip host ("goog.require('" ++ primary ++ "');")
    if result.isSuccess then
      change fun n => { n with delivered := n.delivered ++ provides }
    else throw (.loadFailed primary result.value)

/-- Releases what is held. Only a node that is torn down already refuses. -/
def tearDown (host : Host) : Call Node Unit := fun w =>
  match w.backend.phase with
  | .ready connection =>
    let (outcome, node) := close host connection (w.backend.enter .tornDown)
    match outcome with
    | .ok _ => .ok () { w with backend := node }
    | .error f => .error f { w with backend := node }
  | .tornDown => .error (.invalidState "set up" (Phase.name .tornDown)) w
  | _ => .ok () { w with backend := w.backend.enter .tornDown }

/-- The process backend over a library. It suggests its own output directory and no source maps,
and leaves stack traces as they are. -/
def backend (host : Host) (settings : NodeSettings) (library : Library) : Backend Node where
  setup := setup host settings library
  evaluate := fun _ _ code => roundTrip host code
  load := fun provides _ => load host provides
  tearDown := tearDown host
  suggested :=
    some { Options.none with outputDir := some settings.outputDir, sourceMap := some false }
  traceParser := none

end Node

end LiveLisp.Backend
