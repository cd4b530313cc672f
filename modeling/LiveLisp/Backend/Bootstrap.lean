import LiveLisp.Analysis.Env
import LiveLisp.Backend.Result
import LiveLisp.Files.Pathname
import LiveLisp.Json.Basic
/-!
# Starting the runtime

The interpreter runs a server that evaluates what it is sent. Once it is connected, a few scripts
point its loader at the output directory and change how it requires modules. The steps run in
order and stop at the first that fails.
-/

namespace LiveLisp.Backend

open Files (Pathname Component)
open Json (Datum)

/-- Lines, each with its newline. -/
def scriptText (lines : List String) : String := String.join (lines.map (· ++ "\n"))

/-- The script expression for a path, made of the path's components. -/
def pathExpr (p : Pathname) : String :=
  "path.join.apply(null, " ++
    (Datum.array (p.components.map fun c => .str c.render)).render ++ ")"

/-- The server that the interpreter runs: it evaluates terminated fragments and answers each with
a terminated payload; printed text goes ahead, each chunk with a flush mark. -/
def serverScript (port : Nat) : String :=
  scriptText
    ["// REPL server: evaluates NUL-terminated fragments received on a socket and",
      "// answers with a JSON payload followed by NUL. Anything the evaluated code",
      "// prints is sent ahead of the payload, each chunk followed by \\u0001.",
      "process.env.NODE_DISABLE_COLORS = true;",
      "",
      "var net = require(\"net\");",
      "var vm = require(\"vm\");",
      "",
      "var PORT = " ++ toString port ++ ";",
      "",
      "global.require = require;",
      "",
      "net.createServer(function (socket) \x7b",
      "  var buffer = \"\";",
      "",
      "  socket.setEncoding(\"utf8\");",
      "",
      "  process.stdout.write = function (chunk) \x7b",
      "    socket.write(String(chunk) + \"\\u0001\");",
      "    return true;",
      "  \x7d;",
      "",
      "  socket.on(\"data\", function (data) \x7b",
      "    buffer += data;",
      "    var end = buffer.indexOf(\"\\0\");",
      "    while (end !== -1) \x7b",
      "      var code = buffer.substring(0, end);",
      "      buffer = buffer.substring(end + 1);",
      "      socket.write(evaluate(code) + \"\\0\");",
      "      end = buffer.indexOf(\"\\0\");",
      "    \x7d",
      "  \x7d);",
      "\x7d).listen(PORT);",
      "",
      "function evaluate(code) \x7b",
      "  try \x7b",
      "    var ret = vm.runInThisContext(code, \"repl\");",
      "    var value = (ret === undefined || ret === null) ? null : ret.toString();",
      "    return JSON.stringify(\x7bstatus: \"success\", value: value\x7d);",
      "  \x7d catch (e) \x7b",
      "    var text = (e && e.stack) ? e.stack : String(e);",
      "    return JSON.stringify(\x7bstatus: \"exception\", value: text\x7d);",
      "  \x7d",
      "\x7d"]

/-- The name of the file that holds the server. -/
def serverFile : String := "node_repl.js"

/-- Stands in the initializer for the path of the base script. -/
def basePlaceholder : String := "path.resolve(__dirname, '..', 'base.js')"

/-- Loads the base script of the module loader, before its path is filled in. -/
def initTemplate (outputDir : Pathname) : String :=
  scriptText
    ["// Loads the Closure base loader into the global context.",
      "var path = require(\"path\");",
      "var fs = require(\"fs\");",
      "var vm = require(\"vm\");",
      "",
      "var CLJS_ROOT = " ++ pathExpr outputDir ++ ";",
      "",
      "var nodeGlobalRequire = function (file) \x7b",
      "  var _module = global.module, _exports = global.exports;",
      "  global.module = undefined;",
      "  global.exports = undefined;",
      "  vm.runInThisContext(fs.readFileSync(file, \"utf8\"), file);",
      "  global.exports = _exports;",
      "  global.module = _module;",
      "\x7d;",
      "",
      "nodeGlobalRequire(" ++ basePlaceholder ++ ");"]

/-- Loads the base script of the module loader from the output directory. -/
def initScript (outputDir : Pathname) : String :=
  (initTemplate outputDir).replace basePlaceholder
    (pathExpr ((outputDir.join "goog").join "base.js"))

/-- Resolves module paths against the output directory. -/
def loaderScript (outputDir : Pathname) : String :=
  scriptText
    ["// Resolves Closure module paths against the compiled output directory.",
      "goog.global = global;",
      "",
      "global.CLOSURE_IMPORT_SCRIPT = function (src) \x7b",
      "  nodeGlobalRequire(path.join(" ++ pathExpr (outputDir.join "goog") ++ ", src));",
      "  return true;",
      "\x7d;",
      "",
      "goog.global.CLOSURE_IMPORT_SCRIPT = global.CLOSURE_IMPORT_SCRIPT;"]

/-- One evaluation that prepares the runtime. -/
structure BootstrapStep where
  name : String
  code : String
  deriving DecidableEq, Repr, Inhabited

/-- No module counts as provided. -/
def providedPredicate : String :=
  "goog.isProvided_ = function(x) \x7b return false; \x7d;"

/-- Requiring a module imports its file. -/
def directRequire : String :=
  "\n".intercalate
    ["goog.require = function(name) \x7b",
      "  return CLOSURE_IMPORT_SCRIPT(goog.dependencies_.nameToPath[name]);",
      "\x7d;"]

/-- Brings the core namespace in. -/
def baseRuntime : String :=
  "goog.require(\"" ++ Analysis.coreNs ++ "\");\ncljs.core.enable_console_print_BANG_();"

/-- Requiring a module imports its file only once. -/
def loadedTracking : String :=
  "\n".intercalate
    ["goog.cljsReloadAll_ = false;",
      "goog.loadedLibs_ = \x7b\"" ++ Analysis.coreNs ++ "\": true\x7d;",
      "goog.require = function(name, reload) \x7b",
      "  if (!goog.loadedLibs_[name] || reload || goog.cljsReloadAll_) \x7b",
      "    goog.loadedLibs_[name] = true;",
      "    return CLOSURE_IMPORT_SCRIPT(goog.dependencies_.nameToPath[name]);",
      "  \x7d",
      "\x7d;"]

/-- Every step, in order. -/
def bootstrapSteps (outputDir manifest : Pathname) : List BootstrapStep :=
  [⟨"initializer", initScript outputDir⟩,
    ⟨"runtime loader", loaderScript outputDir⟩,
    ⟨"dependency manifest", "require(" ++ pathExpr manifest ++ ");"⟩,
    ⟨"provided predicate", providedPredicate⟩,
    ⟨"direct require", directRequire⟩,
    ⟨"base runtime", baseRuntime⟩,
    ⟨"loaded-module tracking", loadedTracking⟩]

/-- Evaluates the steps in order up to the first that fails. -/
def runSteps {σ : Type} (evaluate : String → EStateM Failure σ Result) :
    List BootstrapStep → EStateM Failure σ Unit
  | [] => return
  | step :: rest => do
    let result ← evaluate step.code
    if result.isSuccess then runSteps evaluate rest
    else throw (.bootstrap step.name result.value)

end LiveLisp.Backend
