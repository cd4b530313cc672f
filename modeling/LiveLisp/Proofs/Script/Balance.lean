import LiveLisp.Proofs.Script.Brackets
import LiveLisp.Proofs.Script.Emission
/-!
# Scripts are balanced

The text of every node closes the brackets that it opens, provided its names hold no character that
means something to brackets and quotes.  A template is followed from text to text; its parts may be
passed over, being balanced themselves.  On the way it comes out what a node looks like from
outside: a name, data, text in brackets, a call, or an access to a part.
-/

namespace LiveLisp.Script

open Analysis (Ast NsDecl)
open Munge (mungePath definitionPath)

/-! ## Templates -/

/-- The brackets that are open behind segments whose parts are balanced. -/
def openBehind (closers : List Char) : List Segment → Option (List Char)
  | [] => some closers
  | .part _ :: rest => openBehind closers rest
  | .text t :: rest =>
    match walk Nesting.step ⟨.code, closers⟩ t.toList with
    | some ⟨.code, closers'⟩ => openBehind closers' rest
    | _ => none

theorem openBehind_text {closers : List Char} (closers' : List Char) {t : String}
    (h : walk Nesting.step ⟨.code, closers⟩ t.toList = some ⟨.code, closers'⟩)
    (rest : List Segment) :
    openBehind closers (.text t :: rest) = openBehind closers' rest := by
  rw [openBehind, h]

theorem openBehind_balanced {t : String} (h : Balanced t.toList) (closers : List Char)
    (rest : List Segment) : openBehind closers (.text t :: rest) = openBehind closers rest :=
  openBehind_text closers (h.walk_eq closers) rest

theorem openBehind_append {closers closers' : List Char} {segments : List Segment}
    (h : openBehind closers segments = some closers') (rest : List Segment) :
    openBehind closers (segments ++ rest) = openBehind closers' rest := by
  induction segments generalizing closers with
  | nil =>
    obtain rfl := Option.some.inj h
    rfl
  | cons s segments ih =>
    cases s with
    | part a => exact ih h
    | text t =>
      rw [openBehind] at h
      split at h
      · next hscan =>
        rw [List.cons_append, openBehind_text _ hscan]
        exact ih h
      · simp at h

theorem scan_segments {segments : List Segment} {closers closers' : List Char}
    (hparts : ∀ a, .part a ∈ segments → Balanced (chars a))
    (h : openBehind closers segments = some closers') :
    walk Nesting.step ⟨.code, closers⟩ (segments.flatMap Segment.chars) =
      some ⟨.code, closers'⟩ := by
  induction segments generalizing closers with
  | nil =>
    obtain rfl := Option.some.inj h
    rfl
  | cons s segments ih =>
    have hrest := fun a ha => hparts a (List.mem_cons_of_mem s ha)
    rw [List.flatMap_cons, walk_append]
    cases s with
    | part a =>
      rw [Segment.chars, (hparts a (by simp)).walk_eq, Option.bind_some]
      exact ih hrest h
    | text t =>
      rw [openBehind] at h
      split at h
      · next hscan =>
        rw [Segment.chars, hscan, Option.bind_some]
        exact ih hrest h
      · simp at h

theorem balanced_segments {segments : List Segment}
    (hparts : ∀ a, .part a ∈ segments → Balanced (chars a))
    (h : openBehind [] segments = some []) : Balanced (segments.flatMap Segment.chars) :=
  scan_segments hparts h

section Lists

variable (closers : List Char)

theorem openBehind_flatMap {α : Type} {f : α → List Segment} {xs : List α}
    (h : ∀ x ∈ xs, openBehind closers (f x) = some closers) :
    openBehind closers (xs.flatMap f) = some closers := by
  induction xs with
  | nil => rfl
  | cons x xs ih =>
    rw [List.flatMap_cons, openBehind_append (h x (by simp))]
    exact ih fun y hy => h y (by simp [hy])

theorem openBehind_commaSeparated (xs : List Ast) :
    openBehind closers (commaSeparated xs) = some closers := by
  fun_induction commaSeparated xs with
  | case1 => rfl
  | case2 x => rfl
  | case3 x y rest ih =>
    rw [openBehind, openBehind_balanced (by decide)]
    exact ih

theorem openBehind_afterCommas (xs : List Ast) :
    openBehind closers (afterCommas xs) = some closers := by
  apply openBehind_flatMap
  intro x _
  rw [openBehind_balanced (by decide)]
  rfl

theorem openBehind_orNull (x : Option Ast) : openBehind closers (orNull x) = some closers := by
  cases x with
  | none => exact openBehind_balanced (by decide) closers []
  | some x => rfl

theorem openBehind_statements (xs : List Ast) :
    openBehind closers (statements xs) = some closers := by
  apply openBehind_flatMap
  intro x _
  rw [openBehind, openBehind_balanced (by decide)]
  rfl

theorem openBehind_returning (xs : List Ast) :
    openBehind closers (returning xs) = some closers := by
  fun_induction returning xs with
  | case1 => exact openBehind_balanced (by decide) closers []
  | case2 x =>
    rw [openBehind_balanced (by decide), openBehind, openBehind_balanced (by decide)]
    rfl
  | case3 x y rest ih =>
    rw [openBehind, openBehind_balanced (by decide)]
    exact ih

end Lists

/-! ## Nodes -/

/-- The names that a node writes into its own text. -/
def ownNames : Ast → List String
  | .var _ ns name | .define _ ns name _ => [definitionPath ns name]
  | .local _ name | .global _ name | .method _ _ name _ | .field _ _ name => [name]
  | .ns _ decl => mungePath decl.name :: decl.runtimeDeps.map mungePath
  | .bind _ bindings _ => bindings.map Prod.fst
  | .func _ name params rest _ => name.toList ++ params ++ rest.toList
  | .guard _ _ handler _ => (handler.map Prod.fst).toList
  | _ => []

/-- No name of a node means anything to brackets and quotes. -/
def PlainNames (a : Ast) : Prop := ∀ name ∈ ownNames a, ∀ c ∈ name.toList, isPlain c = true

theorem openBehind_varLines {bindings : List (String × Ast)}
    (h : ∀ b ∈ bindings, Balanced b.1.toList) (closers : List Char) :
    openBehind closers (varLines bindings) = some closers := by
  apply openBehind_flatMap
  intro b hb
  have htext : Balanced ("var " ++ b.1 ++ " = ").toList := by
    rw [String.toList_append, String.toList_append]
    exact ((by decide : Balanced "var ".toList).append (h b hb)).append (by decide)
  rw [openBehind_balanced htext, openBehind, openBehind_balanced (by decide)]
  rfl

theorem openBehind_catching {handler : Option (String × List Ast)}
    (h : ∀ e ∈ handler, Balanced e.1.toList) (closers : List Char) :
    openBehind closers (catching handler) = some closers := by
  cases handler with
  | none => rfl
  | some handler =>
    obtain ⟨name, body⟩ := handler
    have hopening : walk Nesting.step ⟨.code, closers⟩ ("catch (" ++ name ++ ")\x7b\n").toList =
        some ⟨.code, '\x7d' :: closers⟩ := by
      have hfront : walk Nesting.step ⟨.code, closers⟩ "catch (".toList =
          some ⟨.code, ')' :: closers⟩ :=
        walk_append_closers [] [')'] (by decide) closers
      have hback : walk Nesting.step ⟨.code, ')' :: closers⟩ ")\x7b\n".toList =
          some ⟨.code, '\x7d' :: closers⟩ :=
        walk_append_closers [')'] ['\x7d'] (by decide) closers
      have hname := (h (name, body) rfl).walk_eq (')' :: closers)
      rw [String.toList_append, String.toList_append, walk_append, walk_append, hfront,
        Option.bind_some, hname, Option.bind_some, hback]
    have hclosing : walk Nesting.step ⟨.code, '\x7d' :: closers⟩ "\n\x7d".toList =
        some ⟨.code, closers⟩ :=
      walk_append_closers ['\x7d'] [] (by decide) closers
    rw [catching, List.cons_append, openBehind_text _ hopening,
      openBehind_append (openBehind_returning _ body), openBehind_text _ hclosing]
    rfl

theorem openBehind_finishing (handled : Bool) (cleanup : List Ast) (closers : List Char) :
    openBehind closers (finishing handled cleanup) = some closers := by
  unfold finishing
  split
  · rfl
  · have hopening : walk Nesting.step ⟨.code, closers⟩ "finally \x7b\n".toList =
        some ⟨.code, '\x7d' :: closers⟩ :=
      walk_append_closers [] ['\x7d'] (by decide) closers
    have hclosing : walk Nesting.step ⟨.code, '\x7d' :: closers⟩ "\x7d".toList =
        some ⟨.code, closers⟩ :=
      walk_append_closers ['\x7d'] [] (by decide) closers
    rw [List.cons_append, openBehind_text _ hopening, openBehind_append (openBehind_statements _ _),
      openBehind_text _ hclosing]
    rfl

theorem balanced_restText {rest : Option String} (h : ∀ name ∈ rest, Balanced name.toList)
    (params : List String) : Balanced (restText rest params).toList := by
  cases rest with
  | none => exact closed_nil
  | some name =>
    have hcount : Balanced (toString params.length).toList := by
      apply balanced_of_isPlain
      intro c hc
      rw [Nat.toString_eq_repr, Nat.toList_repr] at hc
      exact isPlain_of_isDigit (Text.isDigit_of_mem_toDigits_ten hc)
    have hfront : Balanced ("var ".toList ++ name.toList) :=
      (by decide : Balanced "var ".toList).append (h name rfl)
    have hopening : walk Nesting.step ⟨.code, []⟩
        " = cljs.core.array_seq(Array.prototype.slice.call(arguments, ".toList =
        some ⟨.code, [')', ')']⟩ := by decide +kernel
    have hclosing : walk Nesting.step ⟨.code, [')', ')']⟩ "));\n".toList = some ⟨.code, []⟩ := by
      decide
    have hcall := hcount.between _ hopening hclosing
    have happend := hfront.append hcall
    simpa only [restText, String.toList_append, List.append_assoc] using happend

theorem balanced_intercalate {params : List String} (h : ∀ p ∈ params, Balanced p.toList) :
    Balanced (", ".intercalate params).toList := by
  induction params with
  | nil => exact closed_nil
  | cons p params ih =>
    cases params with
    | nil =>
      rw [String.intercalate_singleton]
      exact h p (by simp)
    | cons q rest =>
      have hrest := ih fun r hr => h r (by simp [hr])
      rw [String.intercalate_cons_cons, String.toList_append, String.toList_append]
      exact ((h p (by simp)).append (by decide)).append hrest

theorem balanced_quotedName {name : String} (h : ∀ c ∈ name.toList, isPlain c = true)
    {front : String}
    (hfront : walk Nesting.step ⟨.code, []⟩ front.toList = some ⟨.quoted '\x27', [')']⟩) :
    Balanced (front ++ name ++ "\x27);").toList := by
  have hname : walk Nesting.step ⟨.quoted '\x27', [')']⟩ name.toList =
      some ⟨.quoted '\x27', [')']⟩ := by
    apply scan_quoted_plain
    intro c hc
    exact ⟨ne_of_isPlain (h c hc) (by decide), ne_of_isPlain (h c hc) (by decide),
      isLineEnd_of_isPlain (h c hc)⟩
  rw [Balanced, Closed, String.toList_append, String.toList_append, walk_append, walk_append,
    hfront, Option.bind_some, hname, Option.bind_some]
  decide

theorem balanced_scriptText {ps : List Piece} (h : ∀ t, .text t ∈ ps → Balanced t.toList) :
    Balanced (scriptText ps).toList := by
  induction ps with
  | nil => exact closed_nil
  | cons p ps ih =>
    have hrest := ih fun t ht => h t (by simp [ht])
    cases p with
    | mark pos name => exact hrest
    | text t =>
      rw [scriptText_text, String.toList_append]
      exact (h t (by simp)).append hrest

theorem balanced_declaration {pos : Text.Position} {decl : NsDecl} (h : PlainNames (.ns pos decl)) :
    Balanced (scriptText (declarationPieces pos decl)).toList := by
  have hrequire : ∀ name : String, (∀ c ∈ name.toList, isPlain c = true) →
      Balanced ("\ngoog.require('" ++ name ++ "');").toList :=
    fun name hname => balanced_quotedName hname (by decide)
  apply balanced_scriptText
  intro t ht
  simp only [declarationPieces, List.mem_append, List.mem_cons, List.not_mem_nil, or_false,
    List.mem_map, List.mem_filter, reduceCtorEq, false_or, Piece.text.injEq] at ht
  rcases ht with (rfl | ht) | ⟨dep, ⟨hdep, -⟩, rfl⟩
  · exact balanced_quotedName (h _ (by simp [ownNames])) (by decide)
  · split at ht
    · obtain rfl : t = _ := by simpa using ht
      exact hrequire _ (List.all_eq_true.mp (by decide))
    · simp at ht
  · have hmem : mungePath dep ∈ ownNames (.ns pos decl) :=
      List.mem_cons_of_mem _ (List.mem_map_of_mem hdep)
    exact hrequire _ (h _ hmem)

/-- The segments between the outer brackets of a node that is written in brackets. -/
def bracketed? : Ast → Option (List Segment)
  | .ns pos decl =>
    some [.text "function ()\x7b\n", .text (scriptText (declarationPieces pos decl)),
      .text "\nreturn null;\n\x7d"]
  | .define _ ns name init => some (.text (definitionPath ns name ++ " = ") :: orNull init)
  | .block _ (first :: second :: rest) => some (commaSeparated (first :: second :: rest))
  | .cond _ test thenBranch elseBranch =>
    some ([.text "cljs.core.truth_(", .part test, .text ") ? ", .part thenBranch, .text " : "] ++
      orNull elseBranch)
  | .bind _ bindings body =>
    some (.text "function ()\x7b\n" :: varLines bindings ++ returning body ++ [.text "\n\x7d"])
  | .func _ name params rest body =>
    some (.text ("function " ++ name.getD "" ++ "(" ++ ", ".intercalate params ++ ")\x7b\n" ++
      restText rest params) :: returning body ++ [.text "\n\x7d"])
  | .assign _ target value => some [.part target, .text " = ", .part value]
  | .throw _ value => some [.text "function ()\x7bthrow ", .part value, .text "\x7d"]
  | .guard _ body handler cleanup =>
    some (.text "function ()\x7btry\x7b\n" :: returning body ++ [.text "\n\x7d"] ++
      catching handler ++ finishing handler.isSome cleanup ++ [.text "\x7d"])
  | .new _ ctor args =>
    some ([.text "new ", .part ctor, .text "("] ++ commaSeparated args ++ [.text ")"])
  | _ => none

/-- Whether a node is a function that is called at once. -/
def isCalled : Ast → Bool
  | .ns .. | .bind .. | .throw .. | .guard .. => true
  | _ => false

/-- A node in brackets, and behind them the brackets of a call if it is called at once. -/
theorem chars_bracketed {a : Ast} {inner : List Segment} (h : bracketed? a = some inner) :
    chars a = if isCalled a then called (grouped (inner.flatMap Segment.chars)) []
      else grouped (inner.flatMap Segment.chars) := by
  rw [chars_eq]
  cases a with
  | block pos body =>
    match body with
    | [] => simp [bracketed?] at h
    | [only] => simp [bracketed?] at h
    | first :: second :: rest =>
      obtain rfl := Option.some.inj h
      simp [template, Segment.chars, isCalled, grouped, called]
  | ns | define | cond | bind | func | assign | throw | guard | new =>
    obtain rfl := Option.some.inj h
    simp [template, Segment.chars, isCalled, grouped, called]
  | _ => simp [bracketed?] at h

theorem PlainNames.balanced {a : Ast} (h : PlainNames a) {name : String}
    (hname : name ∈ ownNames a) : Balanced name.toList :=
  balanced_of_isPlain (h name hname)

theorem filterMap_bracketed {a : Ast} {inner : List Segment} (h : bracketed? a = some inner) :
    inner.filterMap Segment.part? = a.parts := by
  cases a with
  | block pos body =>
    match body with
    | [] => simp [bracketed?] at h
    | [only] => simp [bracketed?] at h
    | first :: second :: rest =>
      obtain rfl := Option.some.inj h
      simp [Ast.parts]
  | ns | define | cond | bind | func | assign | throw | guard | new =>
    obtain rfl := Option.some.inj h
    simp [Ast.parts]
  | _ => simp [bracketed?] at h

theorem openBehind_bracketed {a : Ast} {inner : List Segment} (h : bracketed? a = some inner)
    (hnames : PlainNames a) : openBehind [] inner = some [] := by
  cases a with
  | ns pos decl =>
    obtain rfl := Option.some.inj h
    rw [openBehind_text ['\x7d'] (by decide),
      openBehind_balanced (balanced_declaration hnames),
      openBehind_text [] (by decide)]
    rfl
  | define pos ns name init =>
    obtain rfl := Option.some.inj h
    have htext : Balanced (definitionPath ns name ++ " = ").toList := by
      rw [String.toList_append]
      exact (hnames.balanced (by simp [ownNames])).append (by decide)
    rw [openBehind_balanced htext]
    exact openBehind_orNull [] init
  | block pos body =>
    match body with
    | [] => simp [bracketed?] at h
    | [only] => simp [bracketed?] at h
    | first :: second :: rest =>
      obtain rfl := Option.some.inj h
      exact openBehind_commaSeparated [] _
  | cond pos test thenBranch elseBranch =>
    obtain rfl := Option.some.inj h
    simp only [List.cons_append, List.nil_append]
    rw [openBehind_text [')'] (by decide), openBehind,
      openBehind_text [] (by decide), openBehind,
      openBehind_balanced (by decide)]
    exact openBehind_orNull [] elseBranch
  | bind pos bindings body =>
    obtain rfl := Option.some.inj h
    have hbindings : ∀ b ∈ bindings, Balanced b.1.toList :=
      fun b hb => hnames.balanced (List.mem_map_of_mem hb)
    simp only [List.cons_append, List.append_assoc]
    rw [openBehind_text ['\x7d'] (by decide),
      openBehind_append (openBehind_varLines hbindings _),
      openBehind_append (openBehind_returning _ body),
      openBehind_text [] (by decide)]
    rfl
  | func pos name params rest body =>
    obtain rfl := Option.some.inj h
    have hname : Balanced (name.getD "").toList := by
      cases name with
      | none => exact closed_nil
      | some name => exact hnames.balanced (by simp [ownNames])
    have hparams : Balanced (", ".intercalate params).toList :=
      balanced_intercalate fun p hp => hnames.balanced (by simp [ownNames, hp])
    have hrest : Balanced (restText rest params).toList :=
      balanced_restText (fun r hr =>
        hnames.balanced (by simp [ownNames, Option.mem_toList.mpr hr])) params
    have hopening : walk Nesting.step ⟨.code, []⟩ ("function " ++ name.getD "" ++ "(" ++
        ", ".intercalate params ++ ")\x7b\n" ++ restText rest params).toList =
        some ⟨.code, ['\x7d']⟩ := by
      have hword : Balanced "function ".toList := by decide
      have hopen : walk Nesting.step ⟨.code, []⟩ "(".toList = some ⟨.code, [')']⟩ := by decide
      have hclose : walk Nesting.step ⟨.code, [')']⟩ ")\x7b\n".toList =
          some ⟨.code, ['\x7d']⟩ := by decide
      simp only [String.toList_append, walk_append, hword.walk_eq, hname.walk_eq, hopen,
        hparams.walk_eq, hclose, hrest.walk_eq, Option.bind_some]
    simp only [List.cons_append]
    rw [openBehind_text _ hopening, openBehind_append (openBehind_returning _ body),
      openBehind_text [] (by decide)]
    rfl
  | assign pos target value =>
    obtain rfl := Option.some.inj h
    rw [openBehind, openBehind_balanced (by decide)]
    rfl
  | throw pos value =>
    obtain rfl := Option.some.inj h
    rw [openBehind_text ['\x7d'] (by decide), openBehind,
      openBehind_text [] (by decide)]
    rfl
  | guard pos body handler cleanup =>
    obtain rfl := Option.some.inj h
    have hhandler : ∀ e ∈ handler, Balanced e.1.toList := by
      rintro e rfl
      exact hnames.balanced (by simp [ownNames])
    simp only [List.cons_append, List.append_assoc]
    rw [openBehind_text ['\x7d', '\x7d'] (by decide),
      openBehind_append (openBehind_returning _ body), List.nil_append,
      openBehind_text ['\x7d'] (by decide),
      openBehind_append (openBehind_catching hhandler _),
      openBehind_append (openBehind_finishing _ _ _),
      openBehind_text [] (by decide)]
    rfl
  | new pos ctor args =>
    obtain rfl := Option.some.inj h
    simp only [List.cons_append, List.nil_append]
    rw [openBehind_balanced (by decide), openBehind,
      openBehind_text [')'] (by decide),
      openBehind_append (openBehind_commaSeparated _ args),
      openBehind_text [] (by decide)]
    rfl
  | _ => simp [bracketed?] at h

/-- The function that builds a collection, and the segments between the brackets of its call. -/
def collection? : Ast → Option (String × List Segment)
  | .vector _ items =>
    some ("cljs.core.PersistentVector.fromArray",
      .text "[" :: commaSeparated items ++ [.text "], true"])
  | .set _ items =>
    some ("cljs.core.PersistentHashSet.fromArray",
      .text "[" :: commaSeparated items ++ [.text "], true"])
  | .map pos entries =>
    some ("cljs.core.PersistentArrayMap.fromArray",
      .text "[" :: commaSeparated (Ast.map pos entries).parts ++ [.text "], true, false"])
  | _ => none

theorem chars_collection {a : Ast} {builder : String} {inner : List Segment}
    (h : collection? a = some (builder, inner)) :
    builder ∈ builders ∧ chars a = called builder.toList (inner.flatMap Segment.chars) ∧
      openBehind [] inner = some [] := by
  rw [chars_eq]
  cases a with
  | vector | set | map =>
    obtain ⟨rfl, rfl⟩ := Prod.mk.inj (Option.some.inj h)
    refine ⟨by simp [builders], by simp [template, Segment.chars, called], ?_⟩
    simp only [List.cons_append]
    rw [openBehind_text [']'] (by decide),
      openBehind_append (openBehind_commaSeparated _ _),
      openBehind_text [] (by decide)]
    rfl
  | _ => simp [collection?] at h

theorem filterMap_collection {a : Ast} {builder : String} {inner : List Segment}
    (h : collection? a = some (builder, inner)) : inner.filterMap Segment.part? = a.parts := by
  cases a with
  | vector | set | map =>
    obtain ⟨rfl, rfl⟩ := Prod.mk.inj (Option.some.inj h)
    simp [Ast.parts]
  | _ => simp [collection?] at h

theorem chars_method (pos : Text.Position) (target : Ast) (name : String) (args : List Ast) :
    chars (.method pos target name args) =
      called (chars target ++ '.' :: name.toList)
        ((commaSeparated args).flatMap Segment.chars) := by
  rw [chars_eq]
  simp [template, Segment.chars, called]

theorem chars_field (pos : Text.Position) (target : Ast) (name : String) :
    chars (.field pos target name) = chars target ++ '.' :: name.toList := by
  rw [chars_eq]
  simp [template, Segment.chars]

theorem chars_invoke (pos : Text.Position) (callee : Ast) (args : List Ast) :
    chars (.invoke pos callee args) =
      called (chars callee ++ '.' :: "call".toList)
        ((.text "null" :: afterCommas args).flatMap Segment.chars) := by
  rw [chars_eq]
  simp [template, Segment.chars, called]

theorem chars_block_one (pos : Text.Position) (only : Ast) :
    chars (.block pos [only]) = chars only := by
  rw [chars_eq]
  simp [template, Segment.chars]

/-- Segments between brackets are balanced if the parts of the node are. -/
theorem balanced_inner {a : Ast} (hparts : ∀ b ∈ a.parts, Balanced (chars b))
    {inner : List Segment} (hinner : ∀ b ∈ inner.filterMap Segment.part?, b ∈ a.parts)
    (hopen : openBehind [] inner = some []) : Balanced (inner.flatMap Segment.chars) :=
  balanced_segments (fun b hb => hparts b (hinner b (mem_filterMap_of_part_mem hb))) hopen

theorem balanced_member {target : List Char} (htarget : Balanced target) {name : List Char}
    (hname : Balanced name) : Balanced (target ++ '.' :: name) :=
  htarget.append ((by decide : Balanced ['.']).append hname)

theorem openBehind_arguments (args : List Ast) :
    openBehind [] (.text "null" :: afterCommas args) = some [] := by
  rw [openBehind_balanced (by decide)]
  exact openBehind_afterCommas [] args

/-- The ways in which the text of a node is made. -/
inductive Writing : Ast → Prop
  | bracketed {a : Ast} {inner : List Segment} (h : bracketed? a = some inner) : Writing a
  | collection {a : Ast} {builder : String} {inner : List Segment}
    (h : collection? a = some (builder, inner)) : Writing a
  | const (pos : Text.Position) (value : Form) : Writing (.const pos value)
  | quote (pos : Text.Position) (form : Form) : Writing (.quote pos form)
  | var (pos : Text.Position) (ns name : String) : Writing (.var pos ns name)
  | «local» (pos : Text.Position) (name : String) : Writing (.local pos name)
  | global (pos : Text.Position) (name : String) : Writing (.global pos name)
  | null (pos : Text.Position) : Writing (.block pos [])
  | only (pos : Text.Position) (a : Ast) : Writing (.block pos [a])
  | method (pos : Text.Position) (target : Ast) (name : String) (args : List Ast) :
    Writing (.method pos target name args)
  | field (pos : Text.Position) (target : Ast) (name : String) : Writing (.field pos target name)
  | invoke (pos : Text.Position) (callee : Ast) (args : List Ast) :
    Writing (.invoke pos callee args)

theorem writing (a : Ast) : Writing a := by
  cases a with
  | const pos value => exact .const pos value
  | quote pos form => exact .quote pos form
  | var pos ns name => exact .var pos ns name
  | «local» pos name => exact .local pos name
  | global pos name => exact .global pos name
  | vector | set | map => exact .collection rfl
  | block pos body =>
    rcases body with _ | ⟨first, _ | ⟨second, rest⟩⟩
    · exact .null pos
    · exact .only pos first
    · exact .bracketed rfl
  | ns | define | cond | bind | func | assign | throw | guard | new => exact .bracketed rfl
  | method pos target name args => exact .method pos target name args
  | field pos target name => exact .field pos target name
  | invoke pos callee args => exact .invoke pos callee args

theorem balanced_node {a : Ast} (hnames : PlainNames a)
    (hparts : ∀ b ∈ a.parts, Balanced (chars b)) : Balanced (chars a) := by
  cases writing a with
  | bracketed h =>
    have hinner := balanced_inner hparts (fun b hb => filterMap_bracketed h ▸ hb)
      (openBehind_bracketed h hnames)
    rw [chars_bracketed h]
    split
    · exact hinner.grouped.called closed_nil
    · exact hinner.grouped
  | collection h =>
    obtain ⟨hbuilder, hchars, hopen⟩ := chars_collection h
    rw [hchars]
    exact (balanced_builder hbuilder).called
      (balanced_inner hparts (fun b hb => filterMap_collection h ▸ hb) hopen)
  | const pos datum | quote pos datum =>
    simpa [chars_eq, template, Segment.chars] using balanced_datum datum
  | var pos ns name =>
    have hname : Balanced (definitionPath ns name).toList :=
      hnames.balanced (by simp [ownNames])
    simpa [chars_eq, template, Segment.chars] using hname
  | «local» pos name | global pos name =>
    have hname : Balanced name.toList := hnames.balanced (by simp [ownNames])
    simpa [chars_eq, template, Segment.chars] using hname
  | null pos =>
    have hnull : Balanced "null".toList := by decide
    simpa [chars_eq, template, Segment.chars] using hnull
  | only pos b =>
    rw [chars_block_one]
    exact hparts b (by simp [Ast.parts])
  | method pos target name args =>
    rw [chars_method]
    refine (balanced_member (hparts target (by simp [Ast.parts]))
      (hnames.balanced (by simp [ownNames]))).called ?_
    exact balanced_inner hparts (by simp +contextual [Ast.parts])
      (openBehind_commaSeparated [] args)
  | field pos target name =>
    rw [chars_field]
    exact balanced_member (hparts target (by simp [Ast.parts]))
      (hnames.balanced (by simp [ownNames]))
  | invoke pos callee args =>
    rw [chars_invoke]
    refine (balanced_member (hparts callee (by simp [Ast.parts])) (by decide)).called ?_
    exact balanced_inner hparts (by simp +contextual [Ast.parts]) (openBehind_arguments args)

/-- The text of a node closes the brackets that it opens. -/
theorem balanced_chars {a : Ast} (h : Everywhere PlainNames a) : Balanced (chars a) := by
  induction a using Ast.induct with
  | step a ih =>
    obtain ⟨hnode, hparts⟩ := (everywhere_iff PlainNames a).mp h
    exact balanced_node hnode fun b hb => ih b hb (hparts b hb)

end LiveLisp.Script
