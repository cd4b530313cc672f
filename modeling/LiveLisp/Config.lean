import LiveLisp.Backend.Node
import LiveLisp.Bounds
import LiveLisp.Toml.Document
/-!
# User configuration

Settings that a user keeps in a file. They go under what the command line asks for and over what
a backend suggests. Anything may be left open, and what the file says beyond these settings is
ignored.
-/

namespace LiveLisp

open Files (Pathname Tree)
open Toml (Value)

/-- What a user has settled about the runtime. -/
structure NodeConfig where
  host : Option String
  port : Option Nat
  command : Option String
  libDir : Option Pathname
  attempts : Option Nat
  interval : Option Nat
  deriving DecidableEq, Repr, Inhabited

/-- What a user has settled. -/
structure Config where
  options : Options
  node : NodeConfig
  deriving DecidableEq, Repr, Inhabited

/-- Why a configuration could not be used. -/
inductive ConfigError where
  | unreadable (cause : Files.FileError)
  | malformed
  deriving DecidableEq, Repr, Inhabited

namespace NodeConfig

/-- Nothing is settled. -/
def none : NodeConfig :=
  ⟨Option.none, Option.none, Option.none, Option.none, Option.none, Option.none⟩

end NodeConfig

namespace Config

/-- Nothing is settled. -/
def none : Config := ⟨.none, .none⟩

/-- A field that may be missing. -/
def optional? {α : Type} (read : Value → Option α) : Option Value → Option (Option α)
  | some v => (read v).map some
  | Option.none => some Option.none

/-- A path. -/
def path? (v : Value) : Option Pathname := v.text?.map Pathname.mk

/-- The options of a record. -/
def options? (v : Value) : Option Options := do
  match ← v.record? ["colors", "verbose", "source_map", "output_dir"] with
  | [colors, verbose, sourceMap, outputDir] =>
    let colors ← optional? Value.bool? colors
    let verbose ← optional? Value.bool? verbose
    let sourceMap ← optional? Value.bool? sourceMap
    let outputDir ← optional? path? outputDir
    return ⟨outputDir, sourceMap, verbose, colors⟩
  | _ => Option.none

/-- What a record says about the runtime. -/
def node? (v : Value) : Option NodeConfig := do
  match ← v.record?
      ["host", "port", "command", "lib_dir", "connect_attempts", "connect_interval_ms"] with
  | [host, port, command, libDir, attempts, interval] =>
    let host ← optional? Value.text? host
    let port ← optional? (Value.nat? bound16) port
    let command ← optional? Value.text? command
    let libDir ← optional? path? libDir
    let attempts ← optional? (Value.nat? bound32) attempts
    let interval ← optional? (Value.nat? bound64) interval
    return ⟨host, port, command, libDir, attempts, interval⟩
  | _ => Option.none

/-- The configuration that a document holds. -/
def ofDocument? (v : Value) : Option Config := do
  match ← v.record? ["repl", "node"] with
  | [options, node] =>
    let options ← optional? options? options
    let node ← optional? node? node
    return ⟨options.getD .none, node.getD .none⟩
  | _ => Option.none

/-- The configuration in a text. -/
def ofText (text : String) : Except ConfigError Config :=
  match (Toml.parse? text).bind ofDocument? with
  | some config => .ok config
  | Option.none => .error .malformed

/-- The configuration in a file, which must be there. -/
def load (files : Tree) (file : Pathname) : Except ConfigError Config :=
  match files.readText file with
  | .error e => .error (.unreadable e)
  | .ok text => ofText text

/-- The names in the environment that lead to the directory of configurations, the first one that
is set counting. -/
structure Places where
  xdgConfigHome : Option String
  home : Option String
  appData : Option String
  deriving DecidableEq, Repr, Inhabited

/-- The directory of the user's configuration. -/
def directory? (places : Places) : Option Pathname :=
  match places.xdgConfigHome, places.home, places.appData with
  | some dir, _, _ => some ((Pathname.mk dir).join "cljsrepl")
  | _, some dir, _ => some (((Pathname.mk dir).join ".config").join "cljsrepl")
  | _, _, some dir => some ((Pathname.mk dir).join "cljsrepl")
  | _, _, _ => Option.none

/-- The file of the user's configuration. -/
def file? (places : Places) : Option Pathname := (directory? places).map (·.join "config.toml")

/-- The user's configuration; without a file nothing is settled. -/
def loadUser (files : Tree) (places : Places) : Except ConfigError Config :=
  match file? places with
  | Option.none => .ok .none
  | some file => if (files.find? file).isSome then load files file else .ok .none

end Config

/-- The settings of the process backend: what is settled, and else the standard. -/
def Backend.NodeSettings.ofConfig (c : NodeConfig) : Backend.NodeSettings where
  host := c.host.getD standard.host
  port := c.port.getD standard.port
  command := c.command.getD standard.command
  outputDir := standard.outputDir
  attempts := c.attempts.getD standard.attempts
  interval := c.interval.getD standard.interval

end LiveLisp
