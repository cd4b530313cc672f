import LiveLisp.Analysis.Ast
import LiveLisp.Munge
import LiveLisp.Script.Literal
import LiveLisp.Script.Piece
/-!
# Scripts for analyzed forms

Every expression becomes a script expression; what needs statements is wrapped in a function that
is called at once. Every expression begins with a mark.
-/

namespace LiveLisp.Script

open Text (Position)
open Analysis (Ast NsDecl coreNs)
open Munge (mungePath definitionPath)

/-- The statements of a namespace declaration. -/
def declarationPieces (pos : Position) (decl : NsDecl) : List Piece :=
  let require := fun ns => Piece.text ("\ngoog.require('" ++ ns ++ "');")
  [.mark pos none, .text ("goog.provide('" ++ mungePath decl.name ++ "');")] ++
    (if decl.name ≠ coreNs then [require coreNs] else []) ++
    (decl.runtimeDeps.filter (· ≠ coreNs)).map (fun ns => require (mungePath ns))

/-- The text that binds the rest parameter of a function. -/
def restText (rest : Option String) (params : List String) : String :=
  match rest with
  | some name =>
    "var " ++ name ++ " = cljs.core.array_seq(Array.prototype.slice.call(arguments, " ++
      toString params.length ++ "));\n"
  | none => ""

mutual

/-- The pieces of an expression. -/
def pieces : Ast → List Piece
  | .const pos value => [.mark pos none, .text (datum value)]
  | .quote pos form => [.mark pos none, .text (datum form)]
  | .var pos ns name => [.mark pos (some name), .text (definitionPath ns name)]
  | .local pos name => [.mark pos (some name), .text name]
  | .global pos name => [.mark pos (some name), .text name]
  | .vector pos items =>
    [.mark pos none, .text "cljs.core.PersistentVector.fromArray(["] ++ piecesList items ++
      [.text "], true)"]
  | .set pos items =>
    [.mark pos none, .text "cljs.core.PersistentHashSet.fromArray(["] ++ piecesList items ++
      [.text "], true)"]
  | .map pos entries =>
    [.mark pos none, .text "cljs.core.PersistentArrayMap.fromArray(["] ++
      piecesEntries entries ++ [.text "], true, false)"]
  | .ns pos decl =>
    [.mark pos none, .text "(function ()\x7b\n"] ++ declarationPieces pos decl ++
      [.text "\nreturn null;\n\x7d)()"]
  | .define pos ns name init =>
    [.mark pos none, .text ("(" ++ definitionPath ns name ++ " = ")] ++ piecesOption init ++
      [.text ")"]
  | .block pos [] => [.mark pos none, .text "null"]
  | .block pos [only] => .mark pos none :: pieces only
  | .block pos (first :: second :: rest) =>
    [.mark pos none, .text "("] ++ piecesList (first :: second :: rest) ++ [.text ")"]
  | .cond pos test thenBranch elseBranch =>
    [.mark pos none, .text "(cljs.core.truth_("] ++ pieces test ++ [.text ") ? "] ++
      pieces thenBranch ++ [.text " : "] ++ piecesOption elseBranch ++ [.text ")"]
  | .bind pos bindings body =>
    [.mark pos none, .text "(function ()\x7b\n"] ++ piecesBindings bindings ++
      piecesBody body ++ [.text "\n\x7d)()"]
  | .func pos name params rest body =>
    [.mark pos none,
      .text ("(function " ++ name.getD "" ++ "(" ++ ", ".intercalate params ++ ")\x7b\n" ++
        restText rest params)] ++ piecesBody body ++ [.text "\n\x7d)"]
  | .assign pos target value =>
    [.mark pos none, .text "("] ++ pieces target ++ [.text " = "] ++ pieces value ++
      [.text ")"]
  | .throw pos value =>
    [.mark pos none, .text "(function ()\x7bthrow "] ++ pieces value ++ [.text "\x7d)()"]
  | .guard pos body handler cleanup =>
    [.mark pos none, .text "(function ()\x7btry\x7b\n"] ++ piecesBody body ++
      [.text "\n\x7d"] ++ piecesHandler handler ++
      (if cleanup.isEmpty && handler.isSome then []
        else [.text "finally \x7b\n"] ++ piecesStatements cleanup ++ [.text "\x7d"]) ++
      [.text "\x7d)()"]
  | .new pos ctor args =>
    [.mark pos none, .text "(new "] ++ pieces ctor ++ [.text "("] ++ piecesList args ++
      [.text "))"]
  | .method pos target name args =>
    .mark pos none :: pieces target ++ [.text ("." ++ name ++ "(")] ++ piecesList args ++
      [.text ")"]
  | .field pos target name => .mark pos none :: pieces target ++ [.text ("." ++ name)]
  | .invoke pos callee args =>
    .mark pos none :: pieces callee ++ [.text ".call(null"] ++ piecesArgs args ++ [.text ")"]

/-- Expressions with commas between them. -/
def piecesList : List Ast → List Piece
  | [] => []
  | [x] => pieces x
  | x :: y :: rest => pieces x ++ [.text ", "] ++ piecesList (y :: rest)

/-- Expressions each after a comma. -/
def piecesArgs : List Ast → List Piece
  | [] => []
  | x :: rest => [.text ", "] ++ pieces x ++ piecesArgs rest

/-- Keys and values with commas between them. -/
def piecesEntries : List (Ast × Ast) → List Piece
  | [] => []
  | [(k, v)] => pieces k ++ [.text ", "] ++ pieces v
  | (k, v) :: e :: rest =>
    pieces k ++ [.text ", "] ++ pieces v ++ [.text ", "] ++ piecesEntries (e :: rest)

/-- An expression that may be missing. -/
def piecesOption : Option Ast → List Piece
  | none => [.text "null"]
  | some x => pieces x

/-- Variables with their values, one to a line. -/
def piecesBindings : List (String × Ast) → List Piece
  | [] => []
  | (name, init) :: rest =>
    [.text ("var " ++ name ++ " = ")] ++ pieces init ++ [.text ";\n"] ++ piecesBindings rest

/-- Expressions as statements, one to a line. -/
def piecesStatements : List Ast → List Piece
  | [] => []
  | x :: rest => pieces x ++ [.text ";\n"] ++ piecesStatements rest

/-- Statements that return the last expression. -/
def piecesBody : List Ast → List Piece
  | [] => [.text "return null;"]
  | [x] => [.text "return "] ++ pieces x ++ [.text ";"]
  | x :: y :: rest => pieces x ++ [.text ";\n"] ++ piecesBody (y :: rest)

/-- The clause of a handler. -/
def piecesHandler : Option (String × List Ast) → List Piece
  | none => []
  | some (name, body) =>
    [.text ("catch (" ++ name ++ ")\x7b\n")] ++ piecesBody body ++ [.text "\n\x7d"]

end

/-- The pieces of a top-level form. -/
def topPieces : Ast → List Piece
  | .ns pos decl => declarationPieces pos decl
  | ast => pieces ast ++ [.text ";"]

/-- The script of a top-level form. -/
def emit (sourceMap : Bool) (ast : Ast) : Emitted := .ofPieces sourceMap (topPieces ast)

end LiveLisp.Script
