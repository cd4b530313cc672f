import LiveLisp.Proofs.Script.Data
import LiveLisp.Proofs.Script.Requires
import LiveLisp.Proofs.Script.Words
/-!
# Control characters in a script

What a node writes itself holds no control character but the ends of lines: data is escaped, and
the other texts are fixed.  Names are written as they are.  So a control character stands in a
script exactly if it stands in a name of one of its nodes.
-/

namespace LiveLisp.Script

open Analysis (Ast NsDecl coreNs)
open Munge (definitionPath mungePath)

/-- A control character that is no end of a line. -/
def isControl (c : Char) : Bool := c.toNat < 32 && c != '\n'

/-! ## Data -/

theorem isControl_of_le {c : Char} (h : 32 ≤ c.toNat) : isControl c = false := by
  have hlt : ¬c.toNat < 32 := by omega
  simp [isControl, hlt]

instance : Outside isControl where
  word := by decide
  digit c hc := by
    have hlow : 48 ≤ c.toNat := (Char.isDigit_iff_toNat.mp hc).1
    exact isControl_of_le (by omega)

theorem controls_unicodeEscape (n : Nat) : (unicodeEscape n).filter isControl = [] := by
  have hdigit : ∀ m, isControl (hexDigit m) = false := by
    intro m
    have hall : ∀ k < 16, isControl (Nat.digitChar k) = false := by decide
    exact hall (m % 16) (Nat.mod_lt m (by omega))
  have hmarks : isControl '\\' = false ∧ isControl 'u' = false := by decide
  simp [unicodeEscape, hdigit, hmarks]

theorem controls_scriptEscape (c : Char) : (scriptEscape c).filter isControl = [] := by
  unfold scriptEscape jsonEscape
  split
  · exact controls_unicodeEscape _
  · repeat' split
    · rfl
    · rfl
    · rfl
    · rfl
    · rfl
    · rfl
    · rfl
    · exact controls_unicodeEscape _
    · next hlow =>
      have hself : isControl c = false := isControl_of_le (by omega)
      simp [hself]

theorem controls_stringLiteral (text : String) :
    (stringLiteral text).toList.filter isControl = [] := by
  have hbody : (stringBody text).filter isControl = [] := by
    rw [stringBody, List.filter_flatMap]
    simp [controls_scriptEscape]
  simp [toList_stringLiteral, hbody, isControl]

theorem controls_nameCall {constructor : String} (h : constructor.toList.filter isControl = [])
    (s : Symbol) : (nameCall constructor s).toList.filter isControl = [] := by
  unfold nameCall
  cases s.ns with
  | none => simp [h, controls_stringLiteral, isControl]
  | some ns => simp [h, controls_stringLiteral, isControl]

theorem controls_atomLiteral (a : Atom) : (atomLiteral a).toList.filter isControl = [] := by
  cases a with
  | nil => rfl
  | bool b => cases b <;> rfl
  | int n => exact filter_int n
  | float x =>
    cases x with
    | infinite negative => cases negative <;> rfl
    | finite negative m e => exact filter_finite negative m e
  | str s => exact controls_stringLiteral s
  | char c => exact controls_stringLiteral _
  | keyword k => exact controls_nameCall (by decide) k
  | symbol s => exact controls_nameCall (by decide) s

theorem controls_dataItems {xs : List Form} (h : ∀ x ∈ xs, (datum x).toList.filter isControl = []) :
    (dataItems xs).toList.filter isControl = [] := by
  induction xs with
  | nil => rfl
  | cons x xs ih =>
    cases xs with
    | nil => exact h x (by simp)
    | cons y rest =>
      have hrest := ih fun z hz => h z (by simp [hz])
      have hcomma : ", ".toList.filter isControl = [] := by decide
      rw [dataItems, String.toList_append, String.toList_append, List.filter_append,
        List.filter_append, h x (by simp), hcomma, hrest]
      rfl

theorem controls_between {front text back : String} (hfront : front.toList.filter isControl = [])
    (htext : text.toList.filter isControl = []) (hback : back.toList.filter isControl = []) :
    (front ++ text ++ back).toList.filter isControl = [] :=
  (filter_around hfront hback text).trans htext

theorem controls_datum (f : Form) : (datum f).toList.filter isControl = [] := by
  induction f using Form.induct with
  | step f ih =>
    cases f with
    | atom pos a => exact controls_atomLiteral a
    | list pos items =>
      cases items with
      | nil =>
        change "cljs.core.List.EMPTY".toList.filter isControl = []
        decide
      | cons x xs => exact controls_between (by decide) (controls_dataItems ih) (by decide)
    | vector pos items =>
      exact controls_between (by decide) (controls_dataItems ih) (by decide)
    | set pos items => exact controls_between (by decide) (controls_dataItems ih) (by decide)
    | map pos entries =>
      have hitems : (dataEntries entries).toList.filter isControl = [] := by
        rw [dataEntries_eq]
        exact controls_dataItems ih
      exact controls_between (by decide) hitems (by decide)

/-! ## Nodes -/

theorem ownControls_finishing (handled : Bool) (cleanup : List Ast) :
    own isControl (finishing handled cleanup) = [] := by
  unfold finishing
  split
  · rfl
  · rw [List.cons_append, own_of_filter (by decide), own_append, own_statements]
    rfl

theorem ownControls_catching (handler : Option (String × List Ast)) :
    own isControl (catching handler) = inNames isControl (handler.map Prod.fst).toList := by
  cases handler with
  | none => rfl
  | some handler =>
    obtain ⟨name, body⟩ := handler
    have hopening : ("catch (" ++ name ++ ")\x7b\n").toList.filter isControl =
        name.toList.filter isControl :=
      filter_around (by decide) (by decide) name
    rw [catching, List.cons_append, own_text, hopening, own_append, own_returning,
      own_of_filter (by decide)]
    simp [inNames]

theorem controls_restText (rest : Option String) (params : List String) :
    (restText rest params).toList.filter isControl = inNames isControl rest.toList := by
  cases rest with
  | none => rfl
  | some name =>
    have hcall : " = cljs.core.array_seq(Array.prototype.slice.call(arguments, ".toList.filter
        isControl = [] := by decide +kernel
    have hvar : "var ".toList.filter isControl = [] := by decide
    have hend : "));\n".toList.filter isControl = [] := by decide
    simp only [restText, String.toList_append, List.filter_append, hcall, hvar, hend,
      filter_toString_nat, List.append_nil, List.nil_append]
    simp [inNames]

theorem nameControls_required (decl : NsDecl) :
    inNames isControl (required decl) = inNames isControl (decl.runtimeDeps.map mungePath) := by
  have hcore : coreNs.toList.filter isControl = [] := by decide
  have hmunged : (mungePath coreNs).toList.filter isControl = [] := by decide
  have hfirst : inNames isControl (if decl.name ≠ coreNs then [coreNs] else []) = [] := by
    split
    · rw [inNames, List.flatMap_singleton, hcore]
    · rfl
  have hrest : ∀ deps : List String,
      inNames isControl ((deps.filter (· ≠ coreNs)).map mungePath) =
        inNames isControl (deps.map mungePath) := by
    intro deps
    induction deps with
    | nil => rfl
    | cons dep deps ih =>
      by_cases hdep : dep = coreNs
      · rw [List.filter_cons_of_neg (by simp [hdep]), ih, hdep]
        simp [inNames, hmunged]
      · rw [List.filter_cons_of_pos (by simp [hdep])]
        simpa [inNames] using ih
  rw [required, inNames, List.flatMap_append]
  exact (congrArg₂ (· ++ ·) hfirst (hrest decl.runtimeDeps)).trans (List.nil_append _)

theorem controls_declaration (pos : Text.Position) (decl : NsDecl) :
    (scriptText (declarationPieces pos decl)).toList.filter isControl =
      inNames isControl (ownNames (.ns pos decl)) := by
  have hprovide : ("goog.provide('" ++ mungePath decl.name ++ "');").toList.filter isControl =
      (mungePath decl.name).toList.filter isControl :=
    filter_around (by decide) (by decide) _
  have hrequire : ∀ names : List String,
      (scriptText (names.map fun ns =>
        Piece.text ("\ngoog.require('" ++ ns ++ "');"))).toList.filter isControl =
        inNames isControl names := by
    intro names
    induction names with
    | nil => rfl
    | cons ns rest ih =>
      have hcall : ("\ngoog.require('" ++ ns ++ "');").toList.filter isControl =
          ns.toList.filter isControl :=
        filter_around (by decide) (by decide) ns
      rw [List.map_cons, scriptText_text, String.toList_append, List.filter_append, hcall, ih]
      rfl
  rw [declarationPieces_eq, List.cons_append, scriptText_mark, List.cons_append, scriptText_text,
    String.toList_append, List.filter_append, hprovide, List.nil_append, hrequire,
    nameControls_required]
  rfl

/-- The control characters that a node writes itself are those of its names. -/
theorem ownControls_template (a : Ast) :
    own isControl (template a) = inNames isControl (ownNames a) := by
  cases a with
  | const pos value => simp [template, own_text, controls_datum, ownNames, inNames]
  | quote pos form => simp [template, own_text, controls_datum, ownNames, inNames]
  | var | «local» | global => simp [template, own_text, ownNames, inNames]
  | vector | set | map =>
    rw [template, List.cons_append, own_of_filter (by decide), own_append, own_commaSeparated]
    rfl
  | ns pos decl =>
    rw [template, own_of_filter (by decide), own_text, controls_declaration,
      own_of_filter (by decide)]
    simp
  | define pos ns name init =>
    have hopening : ("(" ++ definitionPath ns name ++ " = ").toList.filter isControl =
        (definitionPath ns name).toList.filter isControl := filter_around (by decide) (by decide) _
    rw [template, List.cons_append, own_text, hopening, own_append, own_orNull,
      own_of_filter (by decide)]
    simp [ownNames, inNames]
  | block pos body =>
    rcases body with _ | ⟨first, _ | ⟨second, rest⟩⟩
    · rfl
    · rfl
    · rw [template, List.cons_append, own_of_filter (by decide), own_append, own_commaSeparated]
      rfl
  | cond pos test thenBranch elseBranch =>
    rw [template, own_append, own_append, own_orNull]
    rfl
  | bind pos bindings body =>
    rw [template, List.cons_append, List.cons_append, own_of_filter (by decide),
      own_append, own_append, own_varLines, own_returning,
      own_of_filter (by decide)]
    simp [ownNames]
  | func pos name params rest body =>
    have hname : (name.getD "").toList.filter isControl = inNames isControl name.toList := by
      cases name <;> simp [inNames]
    have hword : "(function ".toList.filter isControl = [] := by decide
    have hopen : "(".toList.filter isControl = [] := by decide
    have hclose : ")\x7b\n".toList.filter isControl = [] := by decide
    have hopening : ("(function " ++ name.getD "" ++ "(" ++ ", ".intercalate params ++
        ")\x7b\n" ++ restText rest params).toList.filter isControl =
        inNames isControl name.toList ++ inNames isControl params ++
          inNames isControl rest.toList := by
      simp only [String.toList_append, List.filter_append, hword, hname, hopen, hclose,
        filter_intercalate, controls_restText, List.nil_append, List.append_nil]
    rw [template, List.cons_append, own_text, hopening, own_append,
      own_returning, own_of_filter (by decide)]
    simp [ownNames, inNames]
  | assign pos target value => rfl
  | throw pos value => rfl
  | guard pos body handler cleanup =>
    simp only [template, List.cons_append, List.append_assoc]
    rw [own_of_filter (by decide), own_append, own_returning,
      List.nil_append, List.nil_append, own_of_filter (by decide), own_append,
      ownControls_catching, own_append, ownControls_finishing,
      own_of_filter (by decide)]
    simp [ownNames]
  | new pos ctor args =>
    rw [template, own_append, own_append, own_commaSeparated]
    rfl
  | method pos target name args =>
    have haccess : ("." ++ name ++ "(").toList.filter isControl = name.toList.filter isControl :=
      filter_around (by decide) (by decide) name
    rw [template, own_append, own_append, own_part, own_text, haccess, own_commaSeparated,
      own_of_filter (by decide)]
    simp [ownNames, inNames]
  | field pos target name =>
    have hpoint : ".".toList.filter isControl = [] := by decide
    rw [template, own_part, own_text, String.toList_append, List.filter_append, hpoint]
    simp [ownNames, inNames]
  | invoke pos callee args =>
    rw [template, own_append, own_append, own_afterCommas]
    rfl

/-! ## Scripts -/

/-- A node writes the character in none of its names. -/
def NamesAvoid (c : Char) (a : Ast) : Prop := ∀ name ∈ ownNames a, c ∉ name.toList

section Scripts

variable {c : Char}

/-- A control character stands nowhere in the text of a node exactly if it stands in no name of
the node or of a node below it. -/
theorem not_mem_chars_iff (h : isControl c = true) (a : Ast) :
    c ∉ chars a ↔ Everywhere (NamesAvoid c) a := by
  induction a using Ast.induct with
  | step a ih =>
    have hown : c ∈ own isControl (template a) ↔ ¬NamesAvoid c a := by
      rw [ownControls_template, mem_inNames_iff h]
      simp [NamesAvoid]
    have hparts : (∃ b ∈ a.parts, c ∈ (chars b).filter isControl) ↔
        ¬∀ b ∈ a.parts, Everywhere (NamesAvoid c) b := by
      simp only [not_forall]
      refine exists_congr fun b => ?_
      rw [exists_prop]
      refine and_congr_right fun hb => ?_
      rw [mem_filter_iff_mem h, ← ih b hb, not_not]
    rw [← mem_filter_iff_mem h, chars_eq, mem_filter_segments, filterMap_template, hown, hparts,
      everywhere_iff]
    tauto

theorem not_mem_emit_iff (h : isControl c = true) (sourceMap : Bool) (a : Ast) :
    c ∉ (emit sourceMap a).js.toList ↔ Everywhere (NamesAvoid c) a := by
  rcases eq_ns_or a with ⟨pos, decl, rfl⟩ | hexpression
  · have hjs : (emit sourceMap (.ns pos decl)).js = scriptText (declarationPieces pos decl) := rfl
    rw [hjs, ← mem_filter_iff_mem h, controls_declaration, mem_inNames_iff h, everywhere_iff]
    simp [NamesAvoid, Ast.parts]
  · have hend : c ∉ [';'] := not_mem_of_filter h (by decide)
    rw [← not_mem_chars_iff h, toList_emit sourceMap hexpression, List.mem_append]
    exact not_congr (or_iff_left hend)

end Scripts

end LiveLisp.Script
