import LiveLisp.Proofs.Script.Delimiters
import LiveLisp.Proofs.Session.Requests
import LiveLisp.Proofs.Session.Wrapping
/-!
# Forms stay where they are put

No symbol that is read has a bracket or a quote in it, so neither has any name in a script that
comes from forms that were read.  The brackets of such a script are nested, and a form that stands
in a wrapper closes none of the brackets of the wrapper.
-/

namespace LiveLisp.Session

open Analysis (Ast Env analyze analyzeExpression)
open Munge (isSpelling munge)
open Reading (IsRead delimiters)
open Script

/-! ## Typed forms -/

/-- A form that was read, as it is or wrapped. -/
def IsTyped (form : Form) : Prop :=
  ∃ (wrap : Wrap) (inner : Form), IsRead inner ∧ form = wrap.apply inner

/-- The namespace is named by a symbol that was read. -/
def IsNamed (ns : String) : Prop :=
  ∃ name symbol, IsRead name ∧ Form.symbol? name = some symbol ∧ ns = symbol.render

theorem not_spelling_of_delimiter {c : Char} (h : c ∈ delimiters) : isSpelling c = false := by
  have hall : ∀ d ∈ delimiters, (!isSpelling d) = true := List.all_eq_true.mp (by decide)
  exact Bool.not_eq_true' _ |>.mp (hall c h)

theorem IsTyped.avoids {form : Form} (h : IsTyped form) {c : Char} (hc : c ∈ delimiters) :
    form.Avoids c := by
  have hwords : ∀ word ∈ wrapperWords, word.toList.all (· ∉ delimiters) = true := by decide
  obtain ⟨wrap, inner, hread, rfl⟩ := h
  have hword : ∀ word ∈ wrapperWords, c ∉ word.toList := fun word hword =>
    Reading.not_mem_of_mem_delimiters (hwords word hword) hc
  exact avoids_apply hword wrap (hread.avoids hc)

theorem IsNamed.not_mem {ns : String} (h : IsNamed ns) {c : Char} (hc : c ∈ delimiters) :
    c ∉ ns.toList := by
  obtain ⟨name, symbol, hread, hsymbol, rfl⟩ := h
  exact Analysis.not_mem_render (not_spelling_of_delimiter hc)
    (Form.Symbols.symbol? (hread.avoids hc) hsymbol)

/-- Names that come from forms that were read have no brackets and no quotes. -/
theorem unfenced_of_analyze {history : List (String × Form)}
    (hhistory : ∀ entry ∈ history, IsTyped entry.2) {ns : String} (hns : IsNamed ns) {form : Form}
    (hform : IsTyped form) {ast : Ast} {env' : Env}
    (h : analyze ns form (Env.initial.after history) = .ok ast env') :
    Everywhere NamesUnfenced ast := by
  have hclear : ∀ c ∈ delimiters, Everywhere (NamesAvoid c) ast := by
    intro c hc
    have hspelling := not_spelling_of_delimiter hc
    have henv : (Env.initial.after history).Avoids c ns :=
      Env.avoids_after hspelling (fun entry hentry => (hhistory entry hentry).avoids hc)
        (hns.not_mem hc)
    exact Analysis.namesAvoid_of_analyze hspelling henv (hform.avoids hc) h
  intro a ha name hname
  rw [filter_isFence_eq_nil_iff]
  intro c hmem hc
  exact hclear c hc a ha name hname hmem

/-! ## Wrappers -/

/-- Behind `front` brackets are open, and no part of the text from its beginning on closes one of
them. -/
def Enclosed (front text : List Char) : Prop :=
  ∃ closers ≠ [], walk Nesting.pass ⟨.code, []⟩ front = some ⟨.code, closers⟩ ∧
    ∀ part, part <+: text → ∃ mode inner,
      walk Nesting.pass ⟨.code, []⟩ (front ++ part) = some ⟨mode, inner ++ closers⟩

theorem enclosed_of_nested {front text : List Char} (closers : List Char) (hclosers : closers ≠ [])
    (hfront : walk Nesting.pass ⟨.code, []⟩ front = some ⟨.code, closers⟩) (htext : Nested text) :
    Enclosed front text := by
  refine ⟨closers, hclosers, hfront, fun part hpart => ?_⟩
  rw [walk_append, hfront, Option.bind_some]
  exact htext.walk_prefix hpart closers

theorem chars_bind_single (pos : Text.Position) (name : String) (init : Ast) (body : List Ast) :
    ∃ back, chars (.bind pos [(name, init)] body) =
      "(function ()\x7b\n".toList ++ ("var ".toList ++ name.toList ++ " = ".toList) ++
        chars init ++ back := by
  refine ⟨";\n".toList ++ (returning body ++ [Segment.text "\n\x7d)()"]).flatMap Segment.chars, ?_⟩
  rw [chars_eq, template, varLines, List.flatMap_singleton]
  simp only [List.cons_append, List.nil_append, List.flatMap_cons, Segment.chars,
    String.toList_append, List.append_assoc]

theorem chars_guard_single (pos : Text.Position) (only : Ast) (handler : Option (String × List Ast))
    (cleanup : List Ast) :
    ∃ back, chars (.guard pos [only] handler cleanup) =
      "(function ()\x7btry\x7b\n".toList ++ "return ".toList ++ chars only ++ back := by
  refine ⟨";".toList ++ (Segment.text "\n\x7d" :: (catching handler ++
    (finishing handler.isSome cleanup ++ [.text "\x7d)()"]))).flatMap Segment.chars, ?_⟩
  rw [chars_eq, template, returning]
  simp only [List.cons_append, List.nil_append, List.flatMap_cons, Segment.chars,
    List.append_assoc]

/-- Where a wrapper puts a form, brackets of the wrapper are open, and they stay so. -/
theorem enclosed_analyzed {wrap : Wrap} (hwrap : wrap ≠ .identity) (ns : String)
    (p : Text.Position) (env : Env) {ast : Ast}
    (hnames : Everywhere NamesUnfenced (Wrap.analyzed ns p env wrap ast))
    (hast : Nested (chars ast)) :
    ∃ front back, chars (Wrap.analyzed ns p env wrap ast) = front ++ chars ast ++ back ∧
      Enclosed front (chars ast) := by
  cases wrap with
  | identity => contradiction
  | printOnly =>
    obtain ⟨-, hparts⟩ := (everywhere_iff _ _).mp hnames
    have hprinter := nested_chars (hparts (Wrap.reference env ns p "pr-str") List.mem_cons_self)
    have hcall : walk Nesting.pass ⟨.code, []⟩ ".call(null, ".toList = some ⟨.code, [')']⟩ := by
      decide
    refine ⟨chars (Wrap.reference env ns p "pr-str") ++ ".call(null, ".toList, [')'], ?_,
      enclosed_of_nested [')'] (by simp) ?_ hast⟩
    · rw [Wrap.analyzed, chars_invoke]
      simp [called, afterCommas, Segment.chars]
    · rw [walk_append, hprinter.walk_eq, Option.bind_some, hcall]
  | record =>
    obtain ⟨inner, hbind⟩ := chars_bind_single p (munge "ret__auto__") ast (Wrap.kept ns p env)
    obtain ⟨outer, hguard⟩ := chars_guard_single p
      (.bind p [(munge "ret__auto__", ast)] (Wrap.kept ns p env))
      (some (munge "e__auto__", Wrap.thrown ns p env)) []
    have hfront : walk Nesting.pass ⟨.code, []⟩ ("(function ()\x7btry\x7b\n".toList ++
        "return ".toList ++ ("(function ()\x7b\n".toList ++
          ("var ".toList ++ (munge "ret__auto__").toList ++ " = ".toList))) =
        some ⟨.code, ['\x7d', ')', '\x7d', '\x7d', ')']⟩ := by decide +kernel
    refine ⟨_, inner ++ outer, ?_, enclosed_of_nested _ (by simp) hfront hast⟩
    rw [Wrap.analyzed, hguard, hbind]
    simp only [List.append_assoc]

/-! ## Scripts of typed forms -/

/-- However forms that were read have been analyzed before, the brackets of the script of a form
that was read are nested.  Wrapped, the form compiles as it does alone, the brackets of the whole
script are nested too, and the text of the form closes no bracket of the wrapper around it. -/
theorem typed_script_nested {history : List (String × Form)}
    (hhistory : ∀ entry ∈ history, IsTyped entry.2) {ns : String} (hns : IsNamed ns) {form : Form}
    (hform : IsRead form) {ast : Ast} {env' : Env}
    (h : analyze ns form (Env.initial.after history) = .ok ast env') (sourceMap : Bool) :
    Nested (emit sourceMap ast).js.toList ∧
      (form.isHeadedBy "ns" = false → ∀ wrap : Wrap, wrap ≠ .identity →
        ∃ wrapped front back,
          analyze ns (wrap.apply form) (Env.initial.after history) = .ok wrapped env' ∧
            Nested (emit sourceMap wrapped).js.toList ∧
            (emit sourceMap wrapped).js.toList = front ++ chars ast ++ back ∧
            Enclosed front (chars ast)) := by
  have hunfenced := unfenced_of_analyze hhistory hns ⟨.identity, form, hform, rfl⟩ h
  refine ⟨nested_emit sourceMap hunfenced, fun hheaded wrap hwrap => ?_⟩
  have hexpression := (Analysis.analyze_of_not_headed hheaded _).symm.trans h
  have hwrapped : analyze ns (wrap.apply form) (Env.initial.after history) = _ :=
    (Analysis.analyze_of_not_headed (isHeadedBy_apply hwrap form) _).trans
      (wrap.analyzeExpression_apply_of_ok hexpression)
  have hwhole := unfenced_of_analyze hhistory hns ⟨wrap, form, hform, rfl⟩ hwrapped
  obtain ⟨front, back, hchars, henclosed⟩ :=
    enclosed_analyzed hwrap ns form.pos _ hwhole (nested_chars hunfenced)
  refine ⟨_, front, back ++ [';'], hwrapped, nested_emit sourceMap hwhole, ?_, henclosed⟩
  have hplain : (Wrap.analyzed ns form.pos (wrap.resolvedIn
      ((Env.initial.after history).register ns) env') wrap ast).nsDecl? = none := by
    cases wrap with
    | identity => contradiction
    | printOnly | record => rfl
  rw [toList_emit sourceMap hplain, hchars, List.append_assoc]

/-- `(ns a (:use b))`, as it is read. -/
def useDeclaration : Form :=
  .list ⟨1, 1⟩ [.symbol "ns" ⟨1, 2⟩, .symbol "a" ⟨1, 5⟩,
    .list ⟨1, 7⟩ [.keyword (.plain "use") ⟨1, 8⟩, .symbol "b" ⟨1, 13⟩]]

theorem readAll_useDeclaration : Reading.readAll "(ns a (:use b))" = .ok [useDeclaration] := by
  cbv

/-- `(b/f "\x7d)" [x])`, as it is read. -/
def bracketString : Form :=
  .list ⟨1, 1⟩ [.symbol "b/f" ⟨1, 2⟩, .str "\x7d)" ⟨1, 6⟩,
    .vector ⟨1, 11⟩ [.symbol "x" ⟨1, 12⟩]]

theorem readAll_bracketString : Reading.readAll "(b/f \"\x7d)\" [x])" = .ok [bracketString] := by
  cbv

theorem readAll_name : Reading.readAll "a" = .ok [.symbol "a" ⟨1, 1⟩] := by
  cbv

/-- A string with closing brackets in it closes none. -/
theorem bracketString_nested :
    Reading.readAll "(ns a (:use b))" = .ok [useDeclaration] ∧
      Reading.readAll "(b/f \"\x7d)\" [x])" = .ok [bracketString] ∧
      ∃ ast env', analyze "a" bracketString
          (Env.initial.after [(Analysis.userNs, useDeclaration)]) = .ok ast env' ∧
        Nested (emit true ast).js.toList ∧
        ∃ wrapped front back, analyze "a" (Wrap.record.apply bracketString)
            (Env.initial.after [(Analysis.userNs, useDeclaration)]) = .ok wrapped env' ∧
          Nested (emit true wrapped).js.toList ∧
          (emit true wrapped).js.toList = front ++ chars ast ++ back ∧
          Enclosed front (chars ast) := by
  have hread : ∀ {text : String} {form : Form}, Reading.readAll text = .ok [form] → IsRead form :=
    fun h => Reading.isRead_of_readAll h _ (List.mem_singleton_self _)
  have hhistory : ∀ entry ∈ [(Analysis.userNs, useDeclaration)], IsTyped entry.2 :=
    List.forall_mem_singleton.mpr ⟨.identity, _, hread readAll_useDeclaration, rfl⟩
  have hns : IsNamed "a" := ⟨_, .plain "a", hread readAll_name, by decide, rfl⟩
  have hrun : analyze "a" bracketString
      (Env.initial.after [(Analysis.userNs, useDeclaration)]) = .ok _ _ :=
    Analysis.analyze_of_spelled rfl
  obtain ⟨hnested, hwrapped⟩ :=
    typed_script_nested hhistory hns (hread readAll_bracketString) hrun true
  exact ⟨readAll_useDeclaration, readAll_bracketString, _, _, hrun, hnested,
    hwrapped (by decide) .record (by decide)⟩

end LiveLisp.Session
