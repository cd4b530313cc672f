import LiveLisp.Proofs.Reading.Symbols
import LiveLisp.Proofs.Script.Data
import LiveLisp.Proofs.Script.Requires
import LiveLisp.Proofs.Script.Words
/-!
# Brackets outside string literals

Whoever skips the double-quoted literals of a script and looks at nothing but brackets finds them
nested and closed, as long as no name in it has a bracket or a quote.  What such a text stands in is
then out of its reach: it closes no bracket that it has not opened.
-/

namespace LiveLisp.Script

open Analysis (Ast NsDecl coreNs)
open Munge (mungePath definitionPath)
open Reading (delimiters)

/-! ## Skipping string literals -/

/-- Past one character, with an eye on brackets and double quotes alone. -/
def Nesting.pass (n : Nesting) (c : Char) : Option Nesting :=
  match n.mode with
  | .code =>
    if c = '(' then some ⟨.code, ')' :: n.closers⟩
    else if c = '[' then some ⟨.code, ']' :: n.closers⟩
    else if c = '\x7b' then some ⟨.code, '\x7d' :: n.closers⟩
    else if c = ')' ∨ c = ']' ∨ c = '\x7d' then
      match n.closers with
      | [] => none
      | closer :: closers => if closer = c then some ⟨.code, closers⟩ else none
    else if c = '"' then some ⟨.quoted c, n.closers⟩
    else some n
  | .quoted mark =>
    if c = mark then some ⟨.code, n.closers⟩
    else if c = '\\' then some ⟨.escaped mark, n.closers⟩
    else some n
  | .escaped mark => some ⟨.quoted mark, n.closers⟩

/-- The brackets outside string literals are nested, and everything is closed at the end. -/
abbrev Nested (text : List Char) : Prop := Closed Nesting.pass text

instance : Inward Nesting.pass where
  step_append {m _ closers _ _} h outer := by
    cases m with
    | code =>
      cases closers with
      | nil => grind [Nesting.pass]
      | cons closer closers => grind [Nesting.pass]
    | quoted mark => grind [Nesting.pass]
    | escaped mark => grind [Nesting.pass]

/-! ## Delimiters -/

/-- Brackets and double quotes. -/
def isFence (c : Char) : Bool := c ∈ delimiters

instance : Outside isFence where
  word := by decide
  digit c hc := by
    have hall : ∀ d ∈ delimiters, (!d.isDigit) = true := List.all_eq_true.mp (by decide)
    rw [isFence, decide_eq_false_iff_not]
    intro hdelimiter
    have hnone := hall c hdelimiter
    rw [hc] at hnone
    exact Bool.false_ne_true hnone

theorem filter_isFence_eq_nil_iff {text : List Char} :
    text.filter isFence = [] ↔ ∀ c ∈ text, c ∉ delimiters := by
  simp [isFence, List.filter_eq_nil_iff]

theorem pass_of_not_delimiter {c : Char} (h : c ∉ delimiters) (closers : List Char) :
    (Nesting.mk .code closers).pass c = some ⟨.code, closers⟩ := by
  simp only [delimiters, List.mem_cons, not_or, List.not_mem_nil] at h
  simp [Nesting.pass, h]

/-- In code nothing but brackets and quotes counts. -/
theorem pass_fences {text : List Char} (h : '"' ∉ text.filter isFence) (closers : List Char) :
    walk Nesting.pass ⟨.code, closers⟩ text =
        walk Nesting.pass ⟨.code, closers⟩ (text.filter isFence) ∧
      ∀ n, walk Nesting.pass ⟨.code, closers⟩ text = some n → n.mode = .code := by
  induction text generalizing closers with
  | nil => exact ⟨rfl, by rintro n ⟨⟩; rfl⟩
  | cons c text ih =>
    by_cases hc : c ∈ delimiters
    · have hfences : (c :: text).filter isFence = c :: text.filter isFence :=
        List.filter_cons_of_pos (by simpa [isFence] using hc)
      rw [hfences, List.mem_cons, not_or] at h
      rw [hfences, walk_cons, walk_cons]
      cases hpass : (Nesting.mk .code closers).pass c with
      | none => simp
      | some n =>
        -- only a quote leaves code
        have hcode : n.mode = .code := by
          have hquote := h.1
          unfold Nesting.pass at hpass
          grind
        obtain ⟨mode, closers'⟩ := n
        obtain rfl : mode = .code := hcode
        exact ih h.2 closers'
    · have hfences : (c :: text).filter isFence = text.filter isFence :=
        List.filter_cons_of_neg (by simpa [isFence] using hc)
      rw [hfences] at h ⊢
      rw [walk_cons, pass_of_not_delimiter hc]
      exact ih h closers

theorem nested_of_fences {text : List Char} (h : '"' ∉ text.filter isFence)
    (hfences : Nested (text.filter isFence)) : Nested text :=
  (pass_fences h []).1.trans hfences

theorem nested_of_fences_eq_nil {text : List Char} (h : text.filter isFence = []) : Nested text :=
  nested_of_fences (by simp [h]) (by rw [h]; rfl)

/-! ## Data -/

theorem pass_quoted_scriptEscape (c : Char) (closers : List Char) :
    walk Nesting.pass ⟨.quoted '"', closers⟩ (scriptEscape c) = some ⟨.quoted '"', closers⟩ := by
  have hplain : ∀ d : Char, d ≠ '"' → d ≠ '\\' →
      (Nesting.mk (.quoted '"') closers).pass d = some ⟨.quoted '"', closers⟩ := by
    intro d hquote hescape
    simp [Nesting.pass, hquote, hescape]
  have hdigit : ∀ n, (Nesting.mk (.quoted '"') closers).pass (hexDigit n) =
      some ⟨.quoted '"', closers⟩ := by
    have hall : ∀ m < 16, Nat.digitChar m ≠ '"' ∧ Nat.digitChar m ≠ '\\' := by decide
    intro n
    obtain ⟨hquote, hescape⟩ := hall (n % 16) (Nat.mod_lt n (by omega))
    exact hplain _ hquote hescape
  have hescaped : ∀ d, walk Nesting.pass ⟨.quoted '"', closers⟩ ['\\', d] =
      some ⟨.quoted '"', closers⟩ := fun _ => rfl
  have hc := escaping_scriptEscape c
  generalize scriptEscape c = xs at hc
  cases hc with
  | raw hquote hescape =>
    rw [walk_cons, hplain c hquote hescape]
    rfl
  | short => exact hescaped _
  | code =>
    change walk Nesting.pass _ (['\\', 'u'] ++ _) = _
    rw [walk_append, hescaped, Option.bind_some]
    simp only [walk_cons, hdigit, Option.bind_some]
    rfl

theorem nested_stringLiteral (text : String) : Nested (stringLiteral text).toList := by
  have hbody : ∀ cs : List Char,
      walk Nesting.pass ⟨.quoted '"', []⟩ (cs.flatMap scriptEscape) = some ⟨.quoted '"', []⟩ := by
    intro cs
    induction cs with
    | nil => rfl
    | cons c cs ih =>
      rw [List.flatMap_cons, walk_append, pass_quoted_scriptEscape, Option.bind_some, ih]
  have hopening : (Nesting.mk .code []).pass '"' = some ⟨.quoted '"', []⟩ := by decide
  rw [toList_stringLiteral, Nested, Closed, List.cons_append, walk_cons, hopening, Option.bind_some,
    walk_append, stringBody, hbody]
  decide

theorem nested_around {front text back : String} (closers : List Char) (htext : Nested text.toList)
    (hfront : walk Nesting.pass ⟨.code, []⟩ front.toList = some ⟨.code, closers⟩)
    (hback : walk Nesting.pass ⟨.code, closers⟩ back.toList = some ⟨.code, []⟩) :
    Nested (front ++ text ++ back).toList := by
  rw [String.toList_append, String.toList_append]
  exact htext.between closers hfront hback

theorem nested_nameCall {constructor : String} (h : Nested constructor.toList) (s : Symbol) :
    Nested (nameCall constructor s).toList := by
  have harguments : Nested (nameParts s) := by
    unfold nameParts
    split
    · have hcomma : Nested [',', ' '] := by decide
      exact (nested_stringLiteral _).append (hcomma.append (nested_stringLiteral _))
    · exact nested_stringLiteral _
  have hgroup : Nested (['('] ++ nameParts s ++ [')']) := harguments.between [')'] rfl rfl
  rw [toList_nameCall, called, List.append_cons]
  simpa using h.append hgroup

theorem nested_atomLiteral (a : Atom) : Nested (atomLiteral a).toList := by
  cases a with
  | nil => decide
  | bool b => cases b <;> decide
  | int n => exact nested_of_fences_eq_nil (filter_int n)
  | float x =>
    cases x with
    | infinite negative => cases negative <;> decide
    | finite negative m e => exact nested_of_fences_eq_nil (filter_finite negative m e)
  | str s => exact nested_stringLiteral s
  | char c => exact nested_stringLiteral _
  | keyword k => exact nested_nameCall (by decide) k
  | symbol s => exact nested_nameCall (by decide) s

theorem nested_dataItems {xs : List Form} (h : ∀ x ∈ xs, Nested (datum x).toList) :
    Nested (dataItems xs).toList := by
  induction xs with
  | nil => decide
  | cons x xs ih =>
    obtain ⟨hx, hxs⟩ := List.forall_mem_cons.mp h
    rw [toList_dataItems]
    cases xs with
    | nil => exact hx.append rfl
    | cons y rest =>
      have hcomma : Nested [',', ' '] := by decide
      exact hx.append (hcomma.append (ih hxs))

theorem nested_datum (f : Form) : Nested (datum f).toList := by
  induction f using Form.induct with
  | step f ih =>
    cases f with
    | atom pos a => exact nested_atomLiteral a
    | list pos items =>
      cases items with
      | nil =>
        change Nested "cljs.core.List.EMPTY".toList
        decide
      | cons x xs =>
        exact nested_around [')'] (nested_dataItems ih) (by decide +kernel) (by decide)
    | vector pos items | set pos items =>
      exact nested_around [']', ')'] (nested_dataItems ih) (by decide +kernel) (by decide)
    | map pos entries =>
      have hitems : Nested (dataEntries entries).toList := by
        rw [dataEntries_eq]
        exact nested_dataItems ih
      exact nested_around [']', ')'] hitems (by decide +kernel) (by decide)

/-! ## Nodes -/

/-- No name that the node writes has a bracket or a quote. -/
def NamesUnfenced (a : Ast) : Prop := ∀ name ∈ ownNames a, name.toList.filter isFence = []

/-- Parts that are nested may be passed over. -/
theorem pass_segments {segments : List Segment}
    (hparts : ∀ a, .part a ∈ segments → Nested (chars a)) (h : '"' ∉ own isFence segments)
    (closers : List Char) :
    walk Nesting.pass ⟨.code, closers⟩ (segments.flatMap Segment.chars) =
      walk Nesting.pass ⟨.code, closers⟩ (own isFence segments) := by
  induction segments generalizing closers with
  | nil => rfl
  | cons s segments ih =>
    have hrest := fun a ha => hparts a (List.mem_cons_of_mem s ha)
    rw [List.flatMap_cons, walk_append]
    cases s with
    | part a =>
      rw [Segment.chars, (hparts a List.mem_cons_self).walk_eq, Option.bind_some]
      exact ih hrest h closers
    | text t =>
      rw [own_text, List.mem_append, not_or] at h
      obtain ⟨hpassed, hcode⟩ := pass_fences h.1 closers
      rw [own_text, walk_append, Segment.chars, ← hpassed]
      cases htext : walk Nesting.pass ⟨.code, closers⟩ t.toList with
      | none => rfl
      | some n =>
        obtain ⟨mode, closers'⟩ := n
        obtain rfl : mode = .code := hcode _ htext
        exact ih hrest h.2 closers'

theorem ownFences_finishing (handled : Bool) (cleanup : List Ast) :
    own isFence (finishing handled cleanup) = [] ∨
      own isFence (finishing handled cleanup) = ['\x7b', '\x7d'] := by
  have hopen : "finally \x7b\n".toList.filter isFence = ['\x7b'] := by decide
  have hclose : "\x7d".toList.filter isFence = ['\x7d'] := by decide
  unfold finishing
  split
  · exact .inl rfl
  · refine .inr ?_
    simp only [List.cons_append, own_text, own_append, own_statements, hopen,
      hclose]
    rfl

theorem ownFences_catching {handler : Option (String × List Ast)}
    (h : ∀ e ∈ handler, e.1.toList.filter isFence = []) :
    own isFence (catching handler) = [] ∨
      own isFence (catching handler) = ['(', ')', '\x7b', '\x7d'] := by
  cases handler with
  | none => exact .inl rfl
  | some handler =>
    obtain ⟨name, body⟩ := handler
    have hname : name.toList.filter isFence = [] := h _ rfl
    have hopen : "catch (".toList.filter isFence = ['('] := by decide
    have hbody : ")\x7b\n".toList.filter isFence = [')', '\x7b'] := by decide
    have hclose : "\n\x7d".toList.filter isFence = ['\x7d'] := by decide
    refine .inr ?_
    simp only [catching, List.cons_append, own_text, own_append, own_returning,
      String.toList_append, List.filter_append, hopen, hname, hbody, hclose]
    rfl

theorem inNames_eq_nil {names : List String}
    (h : ∀ name ∈ names, name.toList.filter isFence = []) : inNames isFence names = [] := by
  rw [inNames, List.flatMap_eq_nil_iff]
  exact h

theorem fences_restText {rest : Option String} (h : ∀ name ∈ rest, name.toList.filter isFence = [])
    (params : List String) :
    (restText rest params).toList.filter isFence = [] ∨
      (restText rest params).toList.filter isFence = ['(', '(', ')', ')'] := by
  cases rest with
  | none => exact .inl rfl
  | some name =>
    have hname : name.toList.filter isFence = [] := h name rfl
    have hcount : (toString params.length).toList.filter isFence = [] :=
      filter_toString_nat params.length
    have hvar : "var ".toList.filter isFence = [] := by decide
    have hcall : " = cljs.core.array_seq(Array.prototype.slice.call(arguments, ".toList.filter
        isFence = ['(', '('] := by decide +kernel
    have hend : "));\n".toList.filter isFence = [')', ')'] := by decide
    refine .inr ?_
    simp only [restText, String.toList_append, List.filter_append, hvar, hname, hcall, hcount, hend]
    rfl

/-- Every statement of a declaration is a call with a name in single quotes. -/
theorem nested_fences_declaration {pos : Text.Position} {decl : NsDecl}
    (h : NamesUnfenced (.ns pos decl)) :
    Nested ((scriptText (declarationPieces pos decl)).toList.filter isFence) ∧
      '"' ∉ (scriptText (declarationPieces pos decl)).toList.filter isFence := by
  have hcall : ∀ front name : String, front.toList.filter isFence = ['('] →
      name.toList.filter isFence = [] →
      (front ++ name ++ "\x27);").toList.filter isFence = ['(', ')'] := by
    intro front name hfront hname
    have hback : "\x27);".toList.filter isFence = [')'] := by decide
    simp only [String.toList_append, List.filter_append, hfront, hname, hback]
    rfl
  have hrequires : ∀ names : List String, (∀ name ∈ names, name.toList.filter isFence = []) →
      Nested ((scriptText (names.map fun ns =>
        Piece.text ("\ngoog.require('" ++ ns ++ "');"))).toList.filter isFence) ∧
      '"' ∉ (scriptText (names.map fun ns =>
        Piece.text ("\ngoog.require('" ++ ns ++ "');"))).toList.filter isFence := by
    intro names hnames
    induction names with
    | nil => exact ⟨rfl, by simp [scriptText]⟩
    | cons name names ih =>
      obtain ⟨hname, hrest⟩ := List.forall_mem_cons.mp hnames
      have hfirst := hcall "\ngoog.require('" name (by decide) hname
      obtain ⟨hnested, hquote⟩ := ih hrest
      rw [List.map_cons, scriptText_text, String.toList_append, List.filter_append, hfirst]
      have hpair : Nested ['(', ')'] := by decide
      exact ⟨hpair.append hnested, by simp [hquote]⟩
  have hprovide := hcall "goog.provide('" (mungePath decl.name) (by decide)
    (h (mungePath decl.name) (by simp [ownNames]))
  have hnames : ∀ name ∈ required decl, name.toList.filter isFence = [] := by
    intro name hname
    have hcore : coreNs.toList.filter isFence = [] := by decide
    rcases List.mem_append.mp hname with hfirst | hdep
    · split at hfirst
      · rwa [List.mem_singleton.mp hfirst]
      · exact absurd hfirst List.not_mem_nil
    · obtain ⟨dep, hmem, rfl⟩ := List.mem_map.mp hdep
      exact h _ (List.mem_cons_of_mem _ (List.mem_map_of_mem (List.mem_of_mem_filter hmem)))
  obtain ⟨hnested, hquote⟩ := hrequires _ hnames
  rw [declarationPieces_eq, List.cons_append, scriptText_mark, List.cons_append, scriptText_text,
    String.toList_append, List.filter_append, hprovide, List.nil_append]
  have hpair : Nested ['(', ')'] := by decide
  exact ⟨hpair.append hnested, by simp [hquote]⟩

/-- What a node writes besides its parts and data is nested, and no string literal is in it. -/
theorem nested_ownFences {a : Ast} (h : NamesUnfenced a)
    (hconst : ∀ pos value, a ≠ .const pos value) (hquote : ∀ pos form, a ≠ .quote pos form) :
    Nested (own isFence (template a)) ∧ '"' ∉ own isFence (template a) := by
  have hword : ∀ word : List Char, own isFence (template a) = word → Nested word → '"' ∉ word →
      Nested (own isFence (template a)) ∧ '"' ∉ own isFence (template a) := by
    rintro word heq hnested hquote
    rw [heq]
    exact ⟨hnested, hquote⟩
  cases a with
  | const pos value => exact absurd rfl (hconst pos value)
  | quote pos form => exact absurd rfl (hquote pos form)
  | var pos ns name =>
    refine hword [] ?_ (by decide) (by decide)
    simpa [template] using h (definitionPath ns name) (by simp [ownNames])
  | «local» pos name | global pos name =>
    refine hword [] ?_ (by decide) (by decide)
    simpa [template] using h name (by simp [ownNames])
  | vector | set | map =>
    refine hword ['(', '[', ']', ')'] ?_ (by decide) (by decide)
    rw [template, List.cons_append, own_text, own_append, own_commaSeparated]
    decide +kernel
  | ns pos decl =>
    obtain ⟨hnested, hfree⟩ := nested_fences_declaration h
    have hopen : "(function ()\x7b\n".toList.filter isFence = ['(', '(', ')', '\x7b'] := by decide
    have hclose : "\nreturn null;\n\x7d)()".toList.filter isFence = ['\x7d', ')', '(', ')'] := by
      decide
    have hfences : own isFence (template (.ns pos decl)) = ['(', '(', ')', '\x7b'] ++
        (scriptText (declarationPieces pos decl)).toList.filter isFence ++
          ['\x7d', ')', '(', ')'] := by
      rw [template, own_text, own_text, own_text, hopen, hclose, List.append_assoc]
      rfl
    refine hword _ hfences (hnested.between ['\x7d', ')'] (by decide) (by decide)) ?_
    simp [hfree]
  | define pos ns name init =>
    have hname := h (definitionPath ns name) (by simp [ownNames])
    have hopen : "(".toList.filter isFence = ['('] := by decide
    have heq : " = ".toList.filter isFence = [] := by decide
    have hclose : ")".toList.filter isFence = [')'] := by decide
    refine hword ['(', ')'] ?_ (by decide) (by decide)
    simp only [template, List.cons_append, own_text, own_append, own_orNull,
      String.toList_append, List.filter_append, hopen, hname, heq, hclose]
    rfl
  | block pos body =>
    rcases body with _ | ⟨first, _ | ⟨second, rest⟩⟩
    · exact hword [] rfl (by decide) (by decide)
    · exact hword [] rfl (by decide) (by decide)
    · refine hword ['(', ')'] ?_ (by decide) (by decide)
      rw [template, List.cons_append, own_text, own_append, own_commaSeparated]
      decide
  | cond pos test thenBranch elseBranch =>
    refine hword ['(', '(', ')', ')'] ?_ (by decide) (by decide)
    rw [template, own_append, own_append, own_orNull, own_text,
      own_part, own_text, own_part]
    decide
  | bind pos bindings body =>
    have hbindings : inNames isFence (bindings.map Prod.fst) = [] := inNames_eq_nil h
    refine hword ['(', '(', ')', '\x7b', '\x7d', ')', '(', ')'] ?_ (by decide) (by decide)
    rw [template, List.cons_append, List.cons_append, own_text, own_append,
      own_append, own_varLines, hbindings, own_returning]
    decide
  | func pos name params rest body =>
    have hname : (name.getD "").toList.filter isFence = [] := by
      cases name with
      | none => rfl
      | some name => exact h name (by simp [ownNames])
    have hparams : (", ".intercalate params).toList.filter isFence = [] := by
      rw [filter_intercalate]
      exact inNames_eq_nil fun p hp => h p (by simp [ownNames, hp])
    have hfunction : "(function ".toList.filter isFence = ['('] := by decide
    have hopen : "(".toList.filter isFence = ['('] := by decide
    have hbody : ")\x7b\n".toList.filter isFence = [')', '\x7b'] := by decide
    have hclose : "\n\x7d)".toList.filter isFence = ['\x7d', ')'] := by decide
    have hfences : own isFence (template (.func pos name params rest body)) =
        ['(', '(', ')', '\x7b'] ++ (restText rest params).toList.filter isFence ++
          ['\x7d', ')'] := by
      simp only [template, List.cons_append, own_text, own_append, own_returning,
        String.toList_append, List.filter_append, hfunction, hname, hopen, hparams, hbody, hclose]
      rfl
    have hrest : ∀ r ∈ rest, r.toList.filter isFence = [] :=
      fun r hr => h r (List.mem_append_right _ (Option.mem_toList.mpr hr))
    rcases fences_restText hrest params with hrest | hrest
    · rw [hrest] at hfences
      exact hword _ hfences (by decide) (by decide)
    · rw [hrest] at hfences
      exact hword _ hfences (by decide) (by decide)
  | assign pos target value => exact hword ['(', ')'] (by rfl) (by decide) (by decide)
  | throw pos value =>
    exact hword ['(', '(', ')', '\x7b', '\x7d', ')', '(', ')'] (by rfl) (by decide) (by decide)
  | guard pos body handler cleanup =>
    have hopen : "(function ()\x7btry\x7b\n".toList.filter isFence =
        ['(', '(', ')', '\x7b', '\x7b'] := by decide
    have hend : "\n\x7d".toList.filter isFence = ['\x7d'] := by decide
    have hclose : "\x7d)()".toList.filter isFence = ['\x7d', ')', '(', ')'] := by decide
    have hfences : own isFence (template (.guard pos body handler cleanup)) =
        ['(', '(', ')', '\x7b', '\x7b'] ++ (['\x7d'] ++ (own isFence (catching handler) ++
          (own isFence (finishing handler.isSome cleanup) ++ ['\x7d', ')', '(', ')']))) := by
      simp only [template, List.cons_append, List.append_assoc, own_text, own_append,
        own_returning, hopen, hend, hclose]
      rfl
    have hhandler : ∀ e ∈ handler, e.1.toList.filter isFence = [] := by
      rintro e rfl
      exact h e.1 (by simp [ownNames])
    rcases ownFences_catching hhandler with hcatch | hcatch <;>
      rcases ownFences_finishing handler.isSome cleanup with hfinal | hfinal <;>
      rw [hcatch, hfinal] at hfences <;>
      exact hword _ hfences (by decide) (by decide)
  | new pos ctor args =>
    refine hword ['(', '(', ')', ')'] ?_ (by decide) (by decide)
    rw [template, own_append, own_append, own_commaSeparated, own_text,
      own_part]
    decide
  | method pos target name args =>
    have hname := h name (by simp [ownNames])
    have hpoint : ".".toList.filter isFence = [] := by decide
    have hopen : "(".toList.filter isFence = ['('] := by decide
    have hclose : ")".toList.filter isFence = [')'] := by decide
    refine hword ['(', ')'] ?_ (by decide) (by decide)
    simp only [template, List.cons_append, List.nil_append, own_text, own_part,
      own_append, own_commaSeparated, String.toList_append, List.filter_append, hpoint,
      hname, hopen, hclose]
    rfl
  | field pos target name =>
    have hname := h name (by simp [ownNames])
    have hpoint : ".".toList.filter isFence = [] := by decide
    refine hword [] ?_ (by decide) (by decide)
    simp only [template, own_text, own_part, String.toList_append, List.filter_append,
      hpoint, hname]
    rfl
  | invoke pos callee args =>
    refine hword ['(', ')'] ?_ (by decide) (by decide)
    rw [template, own_append, own_append, own_afterCommas, own_part]
    decide

/-! ## Scripts -/

theorem nested_chars {a : Ast} (h : Everywhere NamesUnfenced a) : Nested (chars a) := by
  induction a using Ast.induct with
  | step a ih =>
    obtain ⟨hnames, hparts⟩ := (everywhere_iff _ a).mp h
    rw [chars_eq]
    by_cases hdata : (∃ pos value, a = .const pos value) ∨ ∃ pos form, a = .quote pos form
    · obtain ⟨pos, f, rfl⟩ | ⟨pos, f, rfl⟩ := hdata
      · simpa [template, Segment.chars] using nested_datum f
      · simpa [template, Segment.chars] using nested_datum f
    · push Not at hdata
      obtain ⟨hnested, hquote⟩ := nested_ownFences hnames hdata.1 hdata.2
      have hinner : ∀ b, .part b ∈ template a → Nested (chars b) := by
        intro b hb
        have hpart := mem_parts_of_mem_template hb
        exact ih b hpart (hparts b hpart)
      exact (pass_segments hinner hquote []).trans hnested

/-- Where no name has a bracket or a quote, the brackets of the script are nested. -/
theorem nested_emit (sourceMap : Bool) {a : Ast} (h : Everywhere NamesUnfenced a) :
    Nested (emit sourceMap a).js.toList := by
  rcases eq_ns_or a with ⟨pos, decl, rfl⟩ | hexpression
  · obtain ⟨hnested, hquote⟩ := nested_fences_declaration ((everywhere_iff _ _).mp h).1
    exact nested_of_fences hquote hnested
  · have hend : Nested [';'] := by decide
    rw [toList_emit sourceMap hexpression]
    exact (nested_chars h).append hend

end LiveLisp.Script
