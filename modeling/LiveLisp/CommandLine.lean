import LiveLisp.Bounds
import LiveLisp.Config
import LiveLisp.Session.Process
import LiveLisp.Text.Digits
/-!
# Command line

What the arguments of the program mean, and what the program does. Arguments are taken from left
to right, and the first that cannot be understood, or that asks for help or the version, decides.
-/

namespace LiveLisp.CommandLine

open Backend (Host Node NodeSettings Shown World)
open Files (Pathname Tree)

/-- The name of the program. -/
def programName : String := "cljsrepl"

/-- The version of the program. -/
def version : String := "0.1.0"

/-- What the arguments ask for. -/
structure Arguments where
  host : Option String
  port : Option Nat
  command : Option String
  outputDir : Option Pathname
  libDir : Option Pathname
  sourceMap : Bool
  verbose : Bool
  noColor : Bool
  deriving DecidableEq, Repr, Inhabited

/-- Nothing is asked for. -/
def Arguments.none : Arguments :=
  ⟨Option.none, Option.none, Option.none, Option.none, Option.none, false, false, false⟩

/-- What the program is to do. -/
inductive Request where
  | run (arguments : Arguments)
  | help
  | version
  deriving DecidableEq, Repr, Inhabited

/-- Why arguments cannot be understood. -/
inductive UsageError where
  | unexpected (argument : String)
  | missingValue (option : String)
  | unneededValue (option : String)
  | repeated (option : String)
  | invalidValue (option value : String)
  deriving DecidableEq, Repr, Inhabited

/-- The text shown for arguments that cannot be understood. -/
def UsageError.message : UsageError → String
  | .unexpected argument => "unexpected argument '" ++ argument ++ "' found"
  | .missingValue option => "a value is required for '" ++ option ++ "' but none was supplied"
  | .unneededValue option => "a value was supplied for '" ++ option ++ "' but none is needed"
  | .repeated option => "the argument '" ++ option ++ "' cannot be used multiple times"
  | .invalidValue option value => "invalid value '" ++ value ++ "' for '" ++ option ++ "'"

/-- Arguments so far, or a request that is settled. -/
inductive Progress where
  | more (arguments : Arguments)
  | done (request : Request)

/-- A port: a number below 65536, with or without a plus sign. -/
def port? (text : String) : Option Nat :=
  let number := match text.toList with
    | '+' :: digits => Text.number? 10 digits
    | '-' :: digits => if Text.number? 10 digits = some 0 then some 0 else Option.none
    | digits => Text.number? 10 digits
  number.filter (· < bound16)

/-- A path, which may not be empty. -/
def path? (text : String) : Option Pathname := if text.isEmpty then Option.none else some ⟨text⟩

/-- The options that take a value. -/
def valueOptions : List String := ["--host", "--port", "--node", "--output-dir", "--lib-dir"]

/-- Sets an option that is not set yet. -/
def setOnce {α : Type} (option value : String) (old : Option α) (new : Option α)
    (set : α → Arguments) : Except UsageError Arguments :=
  match old, new with
  | some _, _ => .error (.repeated option)
  | Option.none, Option.none => .error (.invalidValue option value)
  | Option.none, some x => .ok (set x)

/-- Sets an option to a value. -/
def setOption (a : Arguments) (option value : String) : Except UsageError Arguments :=
  match option with
  | "--host" => setOnce option value a.host (some value) fun x => { a with host := some x }
  | "--port" => setOnce option value a.port (port? value) fun x => { a with port := some x }
  | "--node" => setOnce option value a.command (some value) fun x => { a with command := some x }
  | "--output-dir" =>
    setOnce option value a.outputDir (path? value) fun x => { a with outputDir := some x }
  | "--lib-dir" =>
    setOnce option value a.libDir (path? value) fun x => { a with libDir := some x }
  | _ => .error (.unexpected option)

/-- Sets a flag that is not set yet. -/
def setFlag (flag : String) (old : Bool) (set : Arguments) : Except UsageError Progress :=
  if old then .error (.repeated flag) else .ok (.more set)

/-- What a flag means. -/
def takeFlag (a : Arguments) (flag : String) : Except UsageError Progress :=
  match flag with
  | "--source-map" => setFlag flag a.sourceMap { a with sourceMap := true }
  | "--verbose" => setFlag flag a.verbose { a with verbose := true }
  | "--no-color" => setFlag flag a.noColor { a with noColor := true }
  | "--help" => .ok (.done .help)
  | "--version" => .ok (.done .version)
  | _ => .error (.unexpected flag)

/-- The long form of a flag of one letter. -/
def longFlag? : Char → Option String
  | 'v' => some "--verbose"
  | 'h' => some "--help"
  | 'V' => some "--version"
  | _ => Option.none

/-- Flags of one letter each, one after the other. -/
def takeLetters (a : Arguments) : List Char → Except UsageError Progress
  | [] => .ok (.more a)
  | c :: rest =>
    match longFlag? c with
    | Option.none => .error (.unexpected ("-" ++ c.toString))
    | some flag =>
      match takeFlag a flag with
      | .ok (.more a) => takeLetters a rest
      | other => other

/-- An option with its value after an equals sign. -/
def takeAttached (a : Arguments) (option value : String) : Except UsageError Progress :=
  if valueOptions.contains option then (setOption a option value).map .more
  else
    match takeFlag a option with
    | .error (.unexpected flag) => .error (.unexpected flag)
    | _ => .error (.unneededValue option)

/-- Whether an argument is an option or a flag; a lone dash is neither. -/
def isOption (argument : String) : Bool :=
  argument.toList.head? == some '-' && argument ≠ "-"

/-- The meaning of arguments that follow others. -/
def parseFrom (a : Arguments) : List String → Except UsageError Request
  | [] => .ok (.run a)
  | argument :: rest =>
    if argument = "--" then
      match rest with
      | [] => .ok (.run a)
      | extra :: _ => .error (.unexpected extra)
    else if !isOption argument then .error (.unexpected argument)
    else if valueOptions.contains argument then
      match rest with
      | [] => .error (.missingValue argument)
      | value :: rest =>
        if isOption value then .error (.missingValue argument)
        else
          match setOption a argument value with
          | .ok a => parseFrom a rest
          | .error e => .error e
    else
      let progress :=
        match argument.toList with
        | '-' :: '-' :: _ =>
          match argument.toList.span (· ≠ '=') with
          | (option, '=' :: value) =>
            takeAttached a (String.ofList option) (String.ofList value)
          | _ => takeFlag a argument
        | letters => takeLetters a letters.tail
      match progress with
      | .ok (.more a) => parseFrom a rest
      | .ok (.done request) => .ok request
      | .error e => .error e

/-- The meaning of the arguments of the program. -/
def parse (arguments : List String) : Except UsageError Request := parseFrom .none arguments

/-- What the program can be asked to do. -/
def helpText : String :=
  "\n".intercalate
    ["Interactive REPL evaluating in a Node.js process",
      "",
      "Usage: " ++ programName ++ " [OPTIONS]",
      "",
      "Options:",
      "      --host <HOST>       Host the runtime listens on",
      "      --port <PORT>       Port the runtime listens on",
      "      --node <COMMAND>    JavaScript interpreter command",
      "      --output-dir <DIR>  Directory for compiled output and generated scripts",
      "      --lib-dir <DIR>     Directory of precompiled units (defaults to the output directory)",
      "      --source-map        Attach inline source maps to evaluated code",
      "  -v, --verbose           Print generated JavaScript and debug logs",
      "      --no-color          Disable colored error output",
      "  -h, --help              Print help",
      "  -V, --version           Print version",
      ""]

namespace Arguments

/-- The layer of options that arguments ask for. -/
def options (a : Arguments) : Options :=
  ⟨a.outputDir, if a.sourceMap then some true else Option.none,
    if a.verbose then some true else Option.none, if a.noColor then some false else Option.none⟩

/-- The options of a session: what the arguments ask for, over what the user has settled. -/
def optionsOver (a : Arguments) (config : Config) : Options := a.options.withDefaults config.options

/-- The settings of the process backend: what the arguments ask for, over what the user has
settled. -/
def settingsOver (a : Arguments) (config : Config) : NodeSettings :=
  let settled := NodeSettings.ofConfig config.node
  { settled with
    host := a.host.getD settled.host
    port := a.port.getD settled.port
    command := a.command.getD settled.command
    outputDir := (a.optionsOver config).outputDir.getD settled.outputDir }

/-- The directory of the library; by default the output directory. -/
def libDirOver (a : Arguments) (config : Config) : Pathname :=
  (a.libDir <|> config.node.libDir).getD (a.settingsOver config).outputDir

end Arguments

/-- What a run of the program comes to: its exit code, a complaint about what went wrong, and the
world afterwards. -/
structure Outcome where
  code : Nat
  complaint : Option String
  world : World Node

/-- The world after printing a text. -/
def printed (text : String) (w : World Node) : World Node :=
  { w with shown := w.shown ++ [Shown.printed text] }

/-- Runs a session as the arguments and the configuration say. An input that ends without being
told to quit is followed by a newline. -/
def runSession (host : Host) (clock : Nat → Nat) (lines : List Reading.Line) (files : Tree)
    (a : Arguments) (config : Config) : Outcome :=
  match Session.runProcess host (a.settingsOver config) (a.optionsOver config)
      (a.libDirOver config) clock lines files with
  | (.ok .quit, w) => ⟨0, Option.none, w⟩
  | (.ok .endOfInput, w) => ⟨0, Option.none, printed "\n" w⟩
  | (.error e, w) => ⟨1, some (e.message ++ ": " ++ e.cause), w⟩

/-- Runs the program. -/
def run (host : Host) (places : Config.Places) (clock : Nat → Nat) (arguments : List String)
    (lines : List Reading.Line) (files : Tree) : Outcome :=
  let start : World Node := .fresh files .fresh
  match parse arguments with
  | .error e => ⟨2, some e.message, start⟩
  | .ok .help => ⟨0, Option.none, printed helpText start⟩
  | .ok .version => ⟨0, Option.none, printed (programName ++ " " ++ version ++ "\n") start⟩
  | .ok (.run a) =>
    match Config.loadUser files places with
    | .error _ => ⟨1, some "Failed to load user config", start⟩
    | .ok config => runSession host clock lines files a config

end LiveLisp.CommandLine
