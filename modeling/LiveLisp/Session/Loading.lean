import LiveLisp.Session.Basic
/-!
# Loading namespaces

A namespace is loaded by delivering the units of its closure, dependencies first, each unit at
most once in a session. With an output directory a unit is laid out there and made known to the
runtime; without one it goes through the backend.
-/

namespace LiveLisp.Session

open Backend (Result)
open Library (Record)

variable {β : Type}

/-- Whether a record needs no delivery: it is no unit, or the core namespace, which the runtime
starts with, or everything it provides has been delivered. -/
def isSettled (loaded : List String) (r : Record) : Bool :=
  r.kind == .seed || r.providesOnly Analysis.coreNs || r.provides.all loaded.contains

/-- Hands one unit to the runtime. -/
def deliverUnit (c : Setting β) (r : Record) : Run β Unit := do
  match c.options.outputDir with
  | some dir =>
    let _ ← onFiles (Library.materialize r dir)
    let result ← send c r.relPath 1 (Library.dependencyLine r)
    if !result.isSuccess then throw (.loadFailed (r.provides.head?.getD "") result.value)
  | none => deliver c r.provides r.url

/-- Delivers the units among records that need it, in order; how many did. -/
def deliverAll (c : Setting β) : List Record → Run β Nat
  | [] => return 0
  | r :: rest => do
    if isSettled (← get).loaded r then deliverAll c rest
    else
      deliverUnit c r
      modify fun s => { s with loaded := s.loaded ++ r.provides }
      return (← deliverAll c rest) + 1

/-- Delivers a namespace and what it needs; the number of units delivered. -/
def loadNamespace (c : Setting β) (ns : String) : Run β Nat :=
  match c.library.closure ns with
  | .error e => throw (.build e)
  | .ok records => deliverAll c records

/-- Delivers namespaces one after the other. -/
def loadEach (c : Setting β) : List String → Run β Nat
  | [] => return 0
  | ns :: rest => do
    let n ← loadNamespace c ns
    return n + (← loadEach c rest)

/-- Delivers namespaces, each once; the number of units delivered. -/
def loadDependencies (c : Setting β) (namespaces : List String) : Run β Nat :=
  loadEach c (distinct namespaces)

end LiveLisp.Session
