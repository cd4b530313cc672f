import LiveLisp.Proofs.Analysis.Ast
import LiveLisp.Script.Emit
/-!
# Scripts with their locals

The script of an analyzed form as a tree in which every place that binds or uses a local is a node
of its own.  Locals stand in the tree under their names in the source, and in the text of the tree
under their identifiers.  The text of the tree is the text that is emitted.
-/

namespace LiveLisp.Locals

open Analysis (Ast)
open Munge (munge definitionPath)
open Script (Piece pieces piecesList piecesArgs piecesEntries piecesOption piecesBindings
  piecesStatements piecesBody piecesHandler topPieces restText declarationPieces datum scriptText
  scriptText_nil scriptText_text scriptText_mark scriptText_append)

/-! ## Trees -/

mutual

/-- A stretch of script. -/
inductive Code where
  | text (text : String)
  /-- A use of a local. -/
  | name (name : String)
  | seq (first second : Code)
  /-- A function that is called at once. -/
  | called (opening : String) (block : Block) (closing : String)
  /-- A function that is called later, if at all. -/
  | func (name : Option String) (params : List String) (rest : Option String) (body : Code)
  /-- The clause that handles an exception. -/
  | handler (name : String) (body : Code)

/-- What a function does: variables with their values one after the other, then the rest. -/
inductive Block where
  | body (code : Code)
  | var (name : String) (init : Code) (rest : Block)

end

mutual

/-- The text of a stretch of script. -/
def Code.render : Code → String
  | .text text => text
  | .name name => munge name
  | .seq first second => first.render ++ second.render
  | .called opening block closing => opening ++ block.render ++ closing
  | .func name params rest body =>
    "(function " ++ (name.map munge).getD "" ++ "(" ++ ", ".intercalate (params.map munge) ++
      ")\x7b\n" ++ restText (rest.map munge) (params.map munge) ++ body.render ++ "\n\x7d)"
  | .handler name body => "catch (" ++ munge name ++ ")\x7b\n" ++ body.render ++ "\n\x7d"

def Block.render : Block → String
  | .body code => code.render
  | .var name init rest => "var " ++ munge name ++ " = " ++ init.render ++ ";\n" ++ rest.render

end

namespace Code

/-- Script between two texts. -/
def within (opening : String) (code : Code) (closing : String) : Code :=
  .seq (.text opening) (.seq code (.text closing))

/-- Expressions with commas between them. -/
def commaSeparated : List Code → Code
  | [] => .text ""
  | [x] => x
  | x :: y :: rest => .seq x (.seq (.text ", ") (commaSeparated (y :: rest)))

/-- Expressions each after a comma. -/
def afterCommas : List Code → Code
  | [] => .text ""
  | x :: rest => .seq (.text ", ") (.seq x (afterCommas rest))

/-- Expressions as statements, one to a line. -/
def statements : List Code → Code
  | [] => .text ""
  | x :: rest => .seq x (.seq (.text ";\n") (statements rest))

/-- Statements that return the last expression. -/
def returning : List Code → Code
  | [] => .text "return null;"
  | [x] => within "return " x ";"
  | x :: y :: rest => .seq x (.seq (.text ";\n") (returning (y :: rest)))

/-- Expressions evaluated one after the other. -/
def block : List Code → Code
  | [] => .text "null"
  | [x] => x
  | x :: y :: rest => within "(" (commaSeparated (x :: y :: rest)) ")"

/-- The clause of a cleanup, which may be left out after a handler. -/
def cleanup (handled : Bool) (items : List Code) : Code :=
  if items.isEmpty && handled then .text ""
  else within "finally \x7b\n" (statements items) "\x7d"

end Code

/-! ## Trees of analyzed forms -/

mutual

/-- The tree of an analyzed form whose locals have their names in the source. -/
def code : Ast → Code
  | .const _ value => .text (datum value)
  | .quote _ form => .text (datum form)
  | .var _ ns name => .text (definitionPath ns name)
  | .local _ name => .name name
  | .global _ name => .text name
  | .vector _ items =>
    .within "cljs.core.PersistentVector.fromArray([" (.commaSeparated (codes items)) "], true)"
  | .set _ items =>
    .within "cljs.core.PersistentHashSet.fromArray([" (.commaSeparated (codes items)) "], true)"
  | .map _ entries =>
    .within "cljs.core.PersistentArrayMap.fromArray([" (.commaSeparated (codesEntries entries))
      "], true, false)"
  | .ns pos decl =>
    .text ("(function ()\x7b\n" ++ scriptText (declarationPieces pos decl) ++
      "\nreturn null;\n\x7d)()")
  | .define _ ns name init => .within ("(" ++ definitionPath ns name ++ " = ") (codeOption init) ")"
  | .block _ body => .block (codes body)
  | .cond _ test thenBranch elseBranch =>
    .seq (.within "(cljs.core.truth_(" (code test) ") ? ")
      (.seq (code thenBranch) (.within " : " (codeOption elseBranch) ")"))
  | .bind _ bindings body =>
    .called "(function ()\x7b\n" (codeBindings (.body (.returning (codes body))) bindings)
      "\n\x7d)()"
  | .func _ name params rest body => .func name params rest (.returning (codes body))
  | .assign _ target value =>
    .seq (.within "(" (code target) " = ") (.seq (code value) (.text ")"))
  | .throw _ value => .called "(function ()\x7bthrow " (.body (code value)) "\x7d)()"
  | .guard _ body handler cleanup =>
    .called "(function ()\x7btry\x7b\n"
      (.body (.seq (.returning (codes body)) (.seq (.text "\n\x7d")
        (.seq (codeHandler handler) (.cleanup handler.isSome (codes cleanup))))))
      "\x7d)()"
  | .new _ ctor args =>
    .seq (.within "(new " (code ctor) "(") (.seq (.commaSeparated (codes args)) (.text "))"))
  | .method _ target name args =>
    .seq (code target) (.within ("." ++ name ++ "(") (.commaSeparated (codes args)) ")")
  | .field _ target name => .seq (code target) (.text ("." ++ name))
  | .invoke _ callee args =>
    .seq (code callee) (.within ".call(null" (.afterCommas (codes args)) ")")

def codes : List Ast → List Code
  | [] => []
  | x :: rest => code x :: codes rest

/-- Keys and values one after the other. -/
def codesEntries : List (Ast × Ast) → List Code
  | [] => []
  | (k, v) :: rest => code k :: code v :: codesEntries rest

def codeOption : Option Ast → Code
  | none => .text "null"
  | some x => code x

/-- Variables with their values before a block. -/
def codeBindings (last : Block) : List (String × Ast) → Block
  | [] => last
  | (name, init) :: rest => .var name (code init) (codeBindings last rest)

def codeHandler : Option (String × List Ast) → Code
  | none => .text ""
  | some (name, body) => .handler name (.returning (codes body))

end

/-- The tree of a top-level form. -/
def topCode : Ast → Code
  | .ns pos decl => .text (scriptText (declarationPieces pos decl))
  | ast => .seq (code ast) (.text ";")

/-! ## The text of a tree -/

/-- The emitted text of a form is the text of its tree. -/
def Rendered (a : Ast) : Prop := scriptText (pieces (a.spelled munge)) = (code a).render

theorem scriptText_piecesList (xs : List Ast) (h : ∀ x ∈ xs, Rendered x) :
    scriptText (piecesList (Ast.spelledAll munge xs)) =
      (Code.commaSeparated (codes xs)).render := by
  induction xs with
  | nil => rfl
  | cons x xs ih =>
    have hx : scriptText (pieces (x.spelled munge)) = (code x).render := h x (by simp)
    have hxs := ih fun y hy => h y (by simp [hy])
    cases xs with
    | nil => exact hx
    | cons y xs =>
      simp only [Ast.spelledAll, codes, piecesList, Code.commaSeparated, Code.render,
        scriptText_append, scriptText_text, scriptText_nil, String.append_empty,
        String.append_assoc] at hxs ⊢
      rw [hx, hxs]

theorem scriptText_piecesArgs (xs : List Ast) (h : ∀ x ∈ xs, Rendered x) :
    scriptText (piecesArgs (Ast.spelledAll munge xs)) = (Code.afterCommas (codes xs)).render := by
  induction xs with
  | nil => rfl
  | cons x xs ih =>
    have hx : scriptText (pieces (x.spelled munge)) = (code x).render := h x (by simp)
    have hxs := ih fun y hy => h y (by simp [hy])
    simp only [Ast.spelledAll, codes, piecesArgs, Code.afterCommas, Code.render,
      scriptText_append, scriptText_text, scriptText_nil, String.append_empty,
      String.append_assoc] at hxs ⊢
    rw [hx, hxs]

theorem scriptText_piecesStatements (xs : List Ast) (h : ∀ x ∈ xs, Rendered x) :
    scriptText (piecesStatements (Ast.spelledAll munge xs)) =
      (Code.statements (codes xs)).render := by
  induction xs with
  | nil => rfl
  | cons x xs ih =>
    have hx : scriptText (pieces (x.spelled munge)) = (code x).render := h x (by simp)
    have hxs := ih fun y hy => h y (by simp [hy])
    simp only [Ast.spelledAll, codes, piecesStatements, Code.statements, Code.render,
      scriptText_append, scriptText_text, scriptText_nil, String.append_empty,
      String.append_assoc] at hxs ⊢
    rw [hx, hxs]

theorem scriptText_piecesBody (xs : List Ast) (h : ∀ x ∈ xs, Rendered x) :
    scriptText (piecesBody (Ast.spelledAll munge xs)) = (Code.returning (codes xs)).render := by
  induction xs with
  | nil => rfl
  | cons x xs ih =>
    have hx : scriptText (pieces (x.spelled munge)) = (code x).render := h x (by simp)
    have hxs := ih fun y hy => h y (by simp [hy])
    cases xs with
    | nil =>
      simp only [Ast.spelledAll, codes, piecesBody, Code.returning, Code.within, Code.render,
        scriptText_append, scriptText_text, scriptText_nil, String.append_empty]
      rw [hx, String.append_assoc]
    | cons y xs =>
      simp only [Ast.spelledAll, codes, piecesBody, Code.returning, Code.render,
        scriptText_append, scriptText_text, scriptText_nil, String.append_empty,
        String.append_assoc] at hxs ⊢
      rw [hx, hxs]

theorem scriptText_piecesOption (x : Option Ast) (h : ∀ a ∈ x, Rendered a) :
    scriptText (piecesOption (Ast.spelledOption munge x)) = (codeOption x).render := by
  cases x with
  | none => rfl
  | some a => exact h a rfl

theorem scriptText_piecesEntries (entries : List (Ast × Ast))
    (h : ∀ e ∈ entries, Rendered e.1 ∧ Rendered e.2) :
    scriptText (piecesEntries (Ast.spelledEntries munge entries)) =
      (Code.commaSeparated (codesEntries entries)).render := by
  induction entries with
  | nil => rfl
  | cons e entries ih =>
    obtain ⟨k, v⟩ := e
    have hk : scriptText (pieces (k.spelled munge)) = (code k).render := (h (k, v) (by simp)).1
    have hv : scriptText (pieces (v.spelled munge)) = (code v).render := (h (k, v) (by simp)).2
    have hrest := ih fun e he => h e (by simp [he])
    cases entries with
    | nil =>
      simp only [Ast.spelledEntries, codesEntries, piecesEntries, Code.commaSeparated, Code.render,
        scriptText_append, scriptText_text, scriptText_nil, String.append_empty]
      rw [hk, hv, String.append_assoc]
    | cons e entries =>
      obtain ⟨k', v'⟩ := e
      simp only [Ast.spelledEntries, codesEntries, piecesEntries, Code.commaSeparated,
        Code.render, scriptText_append, scriptText_text, scriptText_nil, String.append_empty,
        String.append_assoc] at hrest ⊢
      rw [hk, hv, hrest]

theorem scriptText_piecesBindings (last : Block) (bindings : List (String × Ast))
    (h : ∀ b ∈ bindings, Rendered b.2) :
    scriptText (piecesBindings (Ast.spelledBindings munge bindings)) ++ last.render =
      (codeBindings last bindings).render := by
  induction bindings with
  | nil => simp [Ast.spelledBindings, piecesBindings, codeBindings]
  | cons b bindings ih =>
    obtain ⟨name, init⟩ := b
    have hinit : scriptText (pieces (init.spelled munge)) = (code init).render :=
      h (name, init) (by simp)
    have hrest := ih fun b hb => h b (by simp [hb])
    simp only [Ast.spelledBindings, codeBindings, piecesBindings, Block.render,
      scriptText_append, scriptText_text, scriptText_nil, String.append_empty,
      String.append_assoc]
    rw [hinit, hrest]

theorem scriptText_piecesHandler (handler : Option (String × List Ast))
    (h : ∀ x ∈ (handler.map Prod.snd).getD [], Rendered x) :
    scriptText (piecesHandler (Ast.spelledHandler munge handler)) =
      (codeHandler handler).render := by
  cases handler with
  | none => rfl
  | some handler =>
    obtain ⟨name, body⟩ := handler
    have hbody := scriptText_piecesBody body h
    simp only [Ast.spelledHandler, piecesHandler, codeHandler, Code.render, scriptText_append,
      scriptText_text, scriptText_nil, String.append_empty, hbody]

theorem scriptText_block (pos : Text.Position) (xs : List Ast) (h : ∀ x ∈ xs, Rendered x) :
    scriptText (pieces (.block pos (Ast.spelledAll munge xs))) =
      (Code.block (codes xs)).render := by
  cases xs with
  | nil => rfl
  | cons x xs =>
    cases xs with
    | nil =>
      have hx : scriptText (pieces (x.spelled munge)) = (code x).render := h x (by simp)
      simp only [Ast.spelledAll, pieces, scriptText_mark, hx, codes, Code.block]
    | cons y xs =>
      have hlist := scriptText_piecesList _ h
      simp only [Ast.spelledAll, codes] at hlist
      simp only [Ast.spelledAll, pieces, codes, Code.block, Code.within, Code.render,
        scriptText_append, scriptText_mark, scriptText_text, scriptText_nil, String.append_empty,
        hlist, String.append_assoc]

theorem isEmpty_codes (xs : List Ast) : (codes xs).isEmpty = xs.isEmpty := by
  cases xs <;> rfl

theorem isEmpty_spelledAll (spell : String → String) (xs : List Ast) :
    (Ast.spelledAll spell xs).isEmpty = xs.isEmpty := by
  cases xs <;> rfl

theorem isSome_spelledHandler (spell : String → String) (handler : Option (String × List Ast)) :
    (Ast.spelledHandler spell handler).isSome = handler.isSome := by
  cases handler <;> rfl

theorem scriptText_cleanup (handled : Bool) (xs : List Ast) (h : ∀ x ∈ xs, Rendered x) :
    scriptText (if (Ast.spelledAll munge xs).isEmpty && handled then []
      else [.text "finally \x7b\n"] ++ piecesStatements (Ast.spelledAll munge xs) ++
        [.text "\x7d"]) = (Code.cleanup handled (codes xs)).render := by
  have hstatements := scriptText_piecesStatements xs h
  unfold Code.cleanup
  rw [isEmpty_codes, isEmpty_spelledAll]
  split
  · rfl
  · simp only [scriptText_append, scriptText_text, scriptText_nil, String.append_empty,
      hstatements, Code.within, Code.render, String.append_assoc]

/-- Every emitted text is the text of a tree. -/
theorem rendered (a : Ast) : Rendered a := by
  induction a using Ast.induct with
  | step a ih =>
    have hpart : ∀ b ∈ a.parts, scriptText (pieces (b.spelled munge)) = (code b).render := ih
    unfold Rendered
    cases a with
    | const | quote | var | «local» | global =>
      simp only [Ast.spelled, pieces, code, Code.render, scriptText_mark, scriptText_text,
        scriptText_nil, String.append_empty]
    | ns pos decl =>
      simp only [Ast.spelled, pieces, code, Code.render, scriptText_mark, scriptText_append,
        scriptText_text, scriptText_nil, String.append_empty, List.cons_append, List.nil_append,
        String.append_assoc]
    | vector pos items | set pos items =>
      have hitems := scriptText_piecesList items ih
      simp only [Ast.spelled, pieces, code, Code.within, Code.render, scriptText_mark,
        scriptText_append, scriptText_text, scriptText_nil, String.append_empty, hitems,
        String.append_assoc]
    | map pos entries =>
      have hentries := scriptText_piecesEntries entries fun e he =>
        ⟨ih e.1 (List.mem_flatMap.mpr ⟨e, he, by simp⟩),
          ih e.2 (List.mem_flatMap.mpr ⟨e, he, by simp⟩)⟩
      simp only [Ast.spelled, pieces, code, Code.within, Code.render, scriptText_mark,
        scriptText_append, scriptText_text, scriptText_nil, String.append_empty, hentries,
        String.append_assoc]
    | define pos ns name init =>
      have hinit := scriptText_piecesOption init fun a ha => ih a (by simpa [Ast.parts] using ha)
      simp only [Ast.spelled, pieces, code, Code.within, Code.render, scriptText_mark,
        scriptText_append, scriptText_text, scriptText_nil, String.append_empty, hinit,
        String.append_assoc]
    | block pos body => exact scriptText_block pos body ih
    | cond pos test thenBranch elseBranch =>
      have htest := hpart test (by simp [Ast.parts])
      have hthen := hpart thenBranch (by simp [Ast.parts])
      have helse := scriptText_piecesOption elseBranch fun a ha =>
        ih a (by simpa [Ast.parts] using .inr (.inr ha))
      simp only [Ast.spelled, pieces, code, Code.within, Code.render, scriptText_mark,
        scriptText_append, scriptText_text, scriptText_nil, String.append_empty, htest, hthen,
        helse, String.append_assoc]
    | bind pos bindings body =>
      have hbody := scriptText_piecesBody body fun x hx => ih x (by simp [Ast.parts, hx])
      have hbindings := scriptText_piecesBindings (.body (.returning (codes body))) bindings
        fun b hb => ih b.2 (List.mem_append_left _ (List.mem_map.mpr ⟨b, hb, rfl⟩))
      simp only [Block.render] at hbindings
      simp only [Ast.spelled, pieces, code, Code.render, scriptText_mark, scriptText_append,
        scriptText_text, scriptText_nil, String.append_empty, hbody, ← hbindings,
        String.append_assoc]
    | func pos name params rest body =>
      have hbody := scriptText_piecesBody body ih
      simp only [Ast.spelled, pieces, code, Code.render, scriptText_mark, scriptText_append,
        scriptText_text, scriptText_nil, String.append_empty, hbody, String.append_assoc]
    | assign pos target value =>
      have htarget := hpart target (by simp [Ast.parts])
      have hvalue := hpart value (by simp [Ast.parts])
      simp only [Ast.spelled, pieces, code, Code.within, Code.render, scriptText_mark,
        scriptText_append, scriptText_text, scriptText_nil, String.append_empty, htarget, hvalue,
        String.append_assoc]
    | throw pos value =>
      have hvalue := hpart value (by simp [Ast.parts])
      simp only [Ast.spelled, pieces, code, Code.render, Block.render, scriptText_mark,
        scriptText_append, scriptText_text, scriptText_nil, String.append_empty, hvalue,
        String.append_assoc]
    | guard pos body handler cleanup =>
      have hbody := scriptText_piecesBody body fun x hx => ih x (by simp [Ast.parts, hx])
      have hhandler := scriptText_piecesHandler handler fun x hx => ih x (by simp [Ast.parts, hx])
      have hcleanup := scriptText_cleanup handler.isSome cleanup fun x hx =>
        ih x (by simp [Ast.parts, hx])
      simp only [Ast.spelled, pieces, code, Code.render, Block.render, scriptText_mark,
        scriptText_append, scriptText_text, scriptText_nil, String.append_empty,
        isSome_spelledHandler, hbody, hhandler, hcleanup, String.append_assoc]
    | new pos ctor args =>
      have hctor := hpart ctor (by simp [Ast.parts])
      have hargs := scriptText_piecesList args fun x hx => ih x (by simp [Ast.parts, hx])
      simp only [Ast.spelled, pieces, code, Code.within, Code.render, scriptText_mark,
        scriptText_append, scriptText_text, scriptText_nil, String.append_empty, hctor, hargs,
        String.append_assoc]
    | method pos target name args =>
      have htarget := hpart target (by simp [Ast.parts])
      have hargs := scriptText_piecesList args fun x hx => ih x (by simp [Ast.parts, hx])
      simp only [Ast.spelled, pieces, code, Code.within, Code.render, scriptText_mark,
        List.cons_append, scriptText_append, scriptText_text, scriptText_nil, String.append_empty,
        htarget, hargs, String.append_assoc]
    | field pos target name =>
      have htarget := hpart target (by simp [Ast.parts])
      simp only [Ast.spelled, pieces, code, Code.render, List.cons_append, scriptText_mark,
        scriptText_append, scriptText_text, scriptText_nil, String.append_empty, htarget]
    | invoke pos callee args =>
      have hcallee := hpart callee (by simp [Ast.parts])
      have hargs := scriptText_piecesArgs args fun x hx => ih x (by simp [Ast.parts, hx])
      simp only [Ast.spelled, pieces, code, Code.within, Code.render, List.cons_append,
        scriptText_mark, scriptText_append, scriptText_text, scriptText_nil, String.append_empty,
        hcallee, hargs, String.append_assoc]

/-- The script of a top-level form is the text of its tree. -/
theorem render_topCode (sourceMap : Bool) (a : Ast) :
    (topCode a).render = (Script.emit sourceMap (a.spelled munge)).js := by
  have htext : ∀ b : Ast, (Code.seq (code b) (.text ";")).render =
      scriptText (pieces (b.spelled munge) ++ [.text ";"]) := by
    intro b
    rw [scriptText_append, rendered b]
    simp [Code.render]
  cases a with
  | ns pos decl => rfl
  | _ => exact htext _

end LiveLisp.Locals
