import LiveLisp.Backend.Node
/-!
# Prepared answers

Backends whose answers are known beforehand. One gives prepared results straight to the session;
the other is a machine for the process backend, with commands that do nothing but exit and a
runtime that sends prepared replies.
-/

namespace LiveLisp.Backend

open Files (Pathname Tree)

/-- Prepared answers for a session. A fragment that contains the text of a rule gets the rule's
answer; any other takes the next of `replies`, and `nil` when they are used up. -/
structure Script where
  rules : List (String × Except Failure Result)
  replies : List (Except Failure Result)
  unloadable : List (String × String)
  setup : Except Failure Unit
  tearDown : Except Failure Unit

namespace Script

/-- Every answer is a success. -/
def silent : Script := ⟨[], [], [], .ok (), .ok ()⟩

/-- An answer as a call that does nothing else. -/
def answer {α β : Type} : Except Failure α → Call β α
  | .ok a => return a
  | .error f => throw f

/-- Whether `part` occurs in `text`. -/
def occursIn (part : List Char) : List Char → Bool
  | [] => part.isEmpty
  | c :: rest => part.isPrefixOf (c :: rest) || occursIn part rest

/-- The answer to a fragment, and the replies that are left. -/
def reply (s : Script) (replies : List (Except Failure Result)) (code : String) :
    Except Failure Result × List (Except Failure Result) :=
  match s.rules.find? (fun rule => occursIn rule.1.toList code.toList) with
  | some rule => (rule.2, replies)
  | none =>
    match replies with
    | [] => (.ok (.success "nil"), [])
    | r :: rest => (r, rest)

/-- The answer to a unit: it fails if one of its namespaces is listed. -/
def loadAnswer (s : Script) (provides : List String) : Except Failure Unit :=
  match provides.findSome? (fun ns => s.unloadable.lookup ns) with
  | some message => .error (.loadFailed (provides.head?.getD "") message)
  | none => .ok ()

/-- The backend that gives these answers; its state are the replies that are left. -/
def backend (s : Script) (suggested : Option Options) (traceParser : Option TraceParser) :
    Backend (List (Except Failure Result)) where
  setup := fun _ => answer s.setup
  evaluate := fun _ _ code => do
    let (r, rest) := s.reply (← get).backend code
    modify fun w => { w with backend := rest }
    answer r
  load := fun provides _ => answer (s.loadAnswer provides)
  tearDown := answer s.tearDown
  suggested := suggested
  traceParser := traceParser

end Script

/-- A machine with commands on its search path, each with the status it exits with, and a runtime
that listens or not and answers each request with the next reply. -/
structure Machine where
  commands : List (String × Nat)
  listening : String → Nat → Bool
  replies : List (List UInt8)

namespace Machine

/-- The requests in the fragments that were sent: a fragment is cut at every terminator. -/
def requests (sent : List String) : List String := sent.flatMap fun code => code.splitOn "\x00"

/-- Whether a reply leaves the connection open: it must be a whole number of responses. -/
def keepsOpen (reply : List UInt8) : Bool := reply.getLast? == some terminator

/-- What the runtime sends for request number `i`. After a reply that is cut short, or without
one, it sends no more. -/
def deliveries (m : Machine) (i : Nat) : List Delivery :=
  if (m.replies.take i).all keepsOpen then
    match m.replies[i]? with
    | some [] => []
    | some reply => [.bytes reply]
    | none => []
  else []

/-- Blanks between the words of a line. -/
def isWordGap (c : Char) : Bool := c == ' ' || c == '\t'

/-- The program of a file: the first word after `#!` at the start of the file. -/
def programOf? (content : List UInt8) : Option String :=
  match Text.Utf8.decode? content with
  | none => none
  | some text =>
    match text.toList with
    | '#' :: '!' :: rest =>
      let line := rest.takeWhile (· ≠ '\n')
      some (String.ofList ((line.dropWhile isWordGap).takeWhile (!isWordGap ·)))
    | _ => none

/-- The status that an interpreter exits with, if it can be started. -/
def status? (m : Machine) (files : Tree) (p : Pathname) : Option Nat :=
  match files.find? p with
  | some (.file content _) => (programOf? content).bind (m.commands.lookup ·)
  | _ => m.commands.lookup p.text

/-- A command with a slash is a path of a file that can be run; any other is looked up. -/
def interpreter? (m : Machine) (files : Tree) (command : String) : Option Pathname :=
  match files.find? ⟨command⟩, command.toList.contains '/' with
  | some (.file _ true), true => some ⟨command⟩
  | _, _ => (m.commands.lookup command).map fun _ => ⟨command⟩

/-- The host that this machine is, for the given files. -/
def host (m : Machine) (files : Tree) : Host where
  interpreter? := m.interpreter?
  launch := fun files p =>
    match m.status? files p with
    | some _ => .ok ()
    | none => .error "No such file or directory (os error 2)"
  accepts := fun host port _ =>
    if m.listening host port then .ok () else .error "Connection refused (os error 111)"
  exited? := fun p _ => .ok ((m.status? files p).map fun n => "exit status: " ++ toString n)
  undelayed := .ok ()
  duplicated := .ok ()
  transmit := fun earlier code =>
    let before := (requests earlier).length
    .ok ((List.range (requests [code]).length).flatMap fun i => m.deliveries (before + i))
  stopProcess := .ok ()
  closeConnection := .ok ()

end Machine

end LiveLisp.Backend
