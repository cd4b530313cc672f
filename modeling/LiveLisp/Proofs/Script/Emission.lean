import LiveLisp.Proofs.Analysis.Ast
import LiveLisp.Script.Emit
/-!
# Where the nodes of a script stand

The text of an analyzed form is a template of its own texts with the texts of its parts between
them.  `nodes` lists the form and all forms below it in the order in which they are emitted, each
with the text that stands before it; what is said of one template carries over to all of them.
-/

namespace LiveLisp.Script

open Text (Position)
open Analysis (Ast NsDecl)
open Munge (definitionPath)

def chars (a : Ast) : List Char := (scriptText (pieces a)).toList

/-! ## Templates -/

/-- A stretch of a template. -/
inductive Segment where
  | text (text : String)
  | part (ast : Ast)

namespace Segment

def pieces : Segment → List Piece
  | .text t => [.text t]
  | .part a => Script.pieces a

def chars : Segment → List Char
  | .text t => t.toList
  | .part a => Script.chars a

def part? : Segment → Option Ast
  | .text _ => none
  | .part a => some a

end Segment

def commaSeparated : List Ast → List Segment
  | [] => []
  | [x] => [.part x]
  | x :: y :: rest => .part x :: .text ", " :: commaSeparated (y :: rest)

def afterCommas (xs : List Ast) : List Segment := xs.flatMap fun x => [.text ", ", .part x]

def orNull : Option Ast → List Segment
  | none => [.text "null"]
  | some x => [.part x]

def varLines (bindings : List (String × Ast)) : List Segment :=
  bindings.flatMap fun b => [.text ("var " ++ b.1 ++ " = "), .part b.2, .text ";\n"]

def statements (xs : List Ast) : List Segment := xs.flatMap fun x => [.part x, .text ";\n"]

def returning : List Ast → List Segment
  | [] => [.text "return null;"]
  | [x] => [.text "return ", .part x, .text ";"]
  | x :: y :: rest => .part x :: .text ";\n" :: returning (y :: rest)

def catching : Option (String × List Ast) → List Segment
  | none => []
  | some (name, body) =>
    .text ("catch (" ++ name ++ ")\x7b\n") :: returning body ++ [.text "\n\x7d"]

def finishing (handled : Bool) (cleanup : List Ast) : List Segment :=
  if cleanup.isEmpty && handled then []
  else .text "finally \x7b\n" :: statements cleanup ++ [.text "\x7d"]

/-- The own texts of an expression, with its parts between them. -/
def template : Ast → List Segment
  | .const _ value => [.text (datum value)]
  | .quote _ form => [.text (datum form)]
  | .var _ ns name => [.text (definitionPath ns name)]
  | .local _ name => [.text name]
  | .global _ name => [.text name]
  | .vector _ items =>
    .text "cljs.core.PersistentVector.fromArray([" :: commaSeparated items ++ [.text "], true)"]
  | .set _ items =>
    .text "cljs.core.PersistentHashSet.fromArray([" :: commaSeparated items ++
      [.text "], true)"]
  | .map pos entries =>
    .text "cljs.core.PersistentArrayMap.fromArray([" ::
      commaSeparated (Ast.map pos entries).parts ++ [.text "], true, false)"]
  | .ns pos decl =>
    [.text "(function ()\x7b\n", .text (scriptText (declarationPieces pos decl)),
      .text "\nreturn null;\n\x7d)()"]
  | .define _ ns name init =>
    .text ("(" ++ definitionPath ns name ++ " = ") :: orNull init ++ [.text ")"]
  | .block _ [] => [.text "null"]
  | .block _ [only] => [.part only]
  | .block _ (first :: second :: rest) =>
    .text "(" :: commaSeparated (first :: second :: rest) ++ [.text ")"]
  | .cond _ test thenBranch elseBranch =>
    [.text "(cljs.core.truth_(", .part test, .text ") ? ", .part thenBranch, .text " : "] ++
      orNull elseBranch ++ [.text ")"]
  | .bind _ bindings body =>
    .text "(function ()\x7b\n" :: varLines bindings ++ returning body ++ [.text "\n\x7d)()"]
  | .func _ name params rest body =>
    .text ("(function " ++ name.getD "" ++ "(" ++ ", ".intercalate params ++ ")\x7b\n" ++
      restText rest params) :: returning body ++ [.text "\n\x7d)"]
  | .assign _ target value => [.text "(", .part target, .text " = ", .part value, .text ")"]
  | .throw _ value => [.text "(function ()\x7bthrow ", .part value, .text "\x7d)()"]
  | .guard _ body handler cleanup =>
    .text "(function ()\x7btry\x7b\n" :: returning body ++ [.text "\n\x7d"] ++
      catching handler ++ finishing handler.isSome cleanup ++ [.text "\x7d)()"]
  | .new _ ctor args =>
    [.text "(new ", .part ctor, .text "("] ++ commaSeparated args ++ [.text "))"]
  | .method _ target name args =>
    [.part target, .text ("." ++ name ++ "(")] ++ commaSeparated args ++ [.text ")"]
  | .field _ target name => [.part target, .text ("." ++ name)]
  | .invoke _ callee args =>
    [.part callee, .text ".call(null"] ++ afterCommas args ++ [.text ")"]

/-! ## Templates and pieces -/

/-- The name at the mark of an expression. -/
def markName : Ast → Option String
  | .var _ _ name | .local _ name | .global _ name => some name
  | _ => none

@[simp] theorem flatMap_commaSeparated (xs : List Ast) :
    (commaSeparated xs).flatMap Segment.pieces = piecesList xs := by
  fun_induction commaSeparated xs with
  | case1 => rfl
  | case2 x => simp [Segment.pieces, piecesList]
  | case3 x y rest ih => simp [Segment.pieces, piecesList, ih]

@[simp] theorem flatMap_afterCommas (xs : List Ast) :
    (afterCommas xs).flatMap Segment.pieces = piecesArgs xs := by
  induction xs with
  | nil => rfl
  | cons x rest ih =>
    rw [afterCommas, List.flatMap_cons, List.flatMap_append]
    change _ ++ (afterCommas rest).flatMap Segment.pieces = _
    simp [Segment.pieces, piecesArgs, ih]

@[simp] theorem flatMap_orNull (x : Option Ast) :
    (orNull x).flatMap Segment.pieces = piecesOption x := by
  cases x <;> simp [orNull, Segment.pieces, piecesOption]

@[simp] theorem flatMap_varLines (bindings : List (String × Ast)) :
    (varLines bindings).flatMap Segment.pieces = piecesBindings bindings := by
  induction bindings with
  | nil => rfl
  | cons b rest ih =>
    rw [varLines, List.flatMap_cons, List.flatMap_append]
    change _ ++ (varLines rest).flatMap Segment.pieces = _
    simp [Segment.pieces, piecesBindings, ih]

@[simp] theorem flatMap_statements (xs : List Ast) :
    (statements xs).flatMap Segment.pieces = piecesStatements xs := by
  induction xs with
  | nil => rfl
  | cons x rest ih =>
    rw [statements, List.flatMap_cons, List.flatMap_append]
    change _ ++ (statements rest).flatMap Segment.pieces = _
    simp [Segment.pieces, piecesStatements, ih]

@[simp] theorem flatMap_returning (xs : List Ast) :
    (returning xs).flatMap Segment.pieces = piecesBody xs := by
  fun_induction returning xs with
  | case1 => rfl
  | case2 x => simp [Segment.pieces, piecesBody]
  | case3 x y rest ih => simp [Segment.pieces, piecesBody, ih]

@[simp] theorem flatMap_catching (handler : Option (String × List Ast)) :
    (catching handler).flatMap Segment.pieces = piecesHandler handler := by
  cases handler <;> simp [catching, Segment.pieces, piecesHandler]

theorem piecesEntries_eq (pos : Position) (entries : List (Ast × Ast)) :
    piecesEntries entries = piecesList (Ast.map pos entries).parts := by
  induction entries with
  | nil => rfl
  | cons e rest ih =>
    obtain ⟨k, v⟩ := e
    cases rest with
    | nil => simp [piecesEntries, Ast.parts, piecesList]
    | cons e rest =>
      simp only [Ast.parts] at ih
      simp [piecesEntries, Ast.parts, piecesList, ih]

theorem flatMap_finishing (handled : Bool) (cleanup : List Ast) :
    (finishing handled cleanup).flatMap Segment.pieces =
      if cleanup.isEmpty && handled then []
      else [.text "finally \x7b\n"] ++ piecesStatements cleanup ++ [.text "\x7d"] := by
  unfold finishing
  split
  · rfl
  · simp [Segment.pieces]

/-- An expression is its mark with its template.  (A declaration has a second mark inside.) -/
theorem pieces_eq (a : Ast) (h : a.nsDecl? = none) :
    pieces a = .mark a.pos (markName a) :: (template a).flatMap Segment.pieces := by
  cases a with
  | ns pos decl => simp [Ast.nsDecl?] at h
  | map pos entries =>
    simp [pieces, template, Segment.pieces, Ast.pos, markName, piecesEntries_eq pos]
  | block pos body =>
    rcases body with _ | ⟨first, _ | ⟨second, rest⟩⟩ <;>
      simp [pieces, template, Segment.pieces, Ast.pos, markName]
  | guard pos body handler cleanup =>
    simp only [pieces, template, Ast.pos, markName, List.flatMap_append, List.flatMap_cons,
      flatMap_returning, flatMap_catching, flatMap_finishing]
    simp [Segment.pieces]
  | _ => simp [pieces, template, Segment.pieces, Ast.pos, markName]

theorem eq_ns_or (a : Ast) : (∃ pos decl, a = .ns pos decl) ∨ a.nsDecl? = none := by
  cases a <;> simp [Ast.nsDecl?]

theorem toList_scriptText (ps qs : List Piece) :
    (scriptText (ps ++ qs)).toList = (scriptText ps).toList ++ (scriptText qs).toList := by
  rw [scriptText_append, String.toList_append]

theorem toList_scriptText_segments (segments : List Segment) :
    (scriptText (segments.flatMap Segment.pieces)).toList = segments.flatMap Segment.chars := by
  induction segments with
  | nil => rfl
  | cons s segments ih =>
    rw [List.flatMap_cons, toList_scriptText, ih, List.flatMap_cons]
    cases s <;> simp [Segment.pieces, Segment.chars, chars]

theorem chars_eq (a : Ast) : chars a = (template a).flatMap Segment.chars := by
  rw [← toList_scriptText_segments, chars]
  rcases eq_ns_or a with ⟨pos, decl, rfl⟩ | h
  · simp [pieces, template, Segment.pieces]
  · rw [pieces_eq a h, scriptText_mark]

/-! ## Scripts -/

theorem topPieces_eq {a : Ast} (h : a.nsDecl? = none) :
    topPieces a = pieces a ++ [.text ";"] := by
  cases a with
  | ns => contradiction
  | _ => rfl

theorem toList_emit (sourceMap : Bool) {a : Ast} (h : a.nsDecl? = none) :
    (emit sourceMap a).js.toList = chars a ++ [';'] := by
  change (scriptText (topPieces a)).toList = _
  rw [topPieces_eq h, toList_scriptText]
  rfl

/-! ## Parts of a template -/

@[simp] theorem filterMap_text (t : String) (segments : List Segment) :
    (Segment.text t :: segments).filterMap Segment.part? = segments.filterMap Segment.part? :=
  rfl

@[simp] theorem filterMap_part (a : Ast) (segments : List Segment) :
    (Segment.part a :: segments).filterMap Segment.part? =
      a :: segments.filterMap Segment.part? :=
  rfl

@[simp] theorem filterMap_commaSeparated (xs : List Ast) :
    (commaSeparated xs).filterMap Segment.part? = xs := by
  fun_induction commaSeparated xs with
  | case1 => rfl
  | case2 x => rfl
  | case3 x y rest ih => simp [ih]

@[simp] theorem filterMap_afterCommas (xs : List Ast) :
    (afterCommas xs).filterMap Segment.part? = xs := by
  simp [afterCommas, List.filterMap_flatMap]

@[simp] theorem filterMap_orNull (x : Option Ast) :
    (orNull x).filterMap Segment.part? = x.toList := by
  cases x <;> rfl

@[simp] theorem filterMap_varLines (bindings : List (String × Ast)) :
    (varLines bindings).filterMap Segment.part? = bindings.map Prod.snd := by
  simp [varLines, List.filterMap_flatMap, List.map_eq_flatMap]

@[simp] theorem filterMap_statements (xs : List Ast) :
    (statements xs).filterMap Segment.part? = xs := by
  simp [statements, List.filterMap_flatMap]

@[simp] theorem filterMap_returning (xs : List Ast) :
    (returning xs).filterMap Segment.part? = xs := by
  fun_induction returning xs with
  | case1 => rfl
  | case2 x => rfl
  | case3 x y rest ih => simp [ih]

@[simp] theorem filterMap_catching (handler : Option (String × List Ast)) :
    (catching handler).filterMap Segment.part? = (handler.map Prod.snd).getD [] := by
  cases handler <;> simp [catching]

@[simp] theorem filterMap_finishing (handled : Bool) (cleanup : List Ast) :
    (finishing handled cleanup).filterMap Segment.part? = cleanup := by
  unfold finishing
  split
  · next h =>
    obtain ⟨hempty, -⟩ := Bool.and_eq_true_iff.mp h
    rw [List.isEmpty_iff.mp hempty]
    rfl
  · simp

/-- A template has every part of its form, once and in order. -/
theorem filterMap_template (a : Ast) : (template a).filterMap Segment.part? = a.parts := by
  cases a with
  | block pos body =>
    match body with
    | [] => rfl
    | [only] => rfl
    | first :: second :: rest => simp [template, Ast.parts]
  | _ => simp [template, Ast.parts]

theorem mem_filterMap_of_part_mem {b : Ast} {segments : List Segment} (h : .part b ∈ segments) :
    b ∈ segments.filterMap Segment.part? :=
  List.mem_filterMap.mpr ⟨.part b, h, rfl⟩

theorem mem_parts_of_mem_template {a b : Ast} (h : .part b ∈ template a) : b ∈ a.parts := by
  rw [← filterMap_template]
  exact mem_filterMap_of_part_mem h

/-! ## Nodes in the order of emission -/

/-- The parts among segments, each with the text before it. -/
def offsets (before : List Char) : List Segment → List (List Char × Ast)
  | [] => []
  | .text t :: rest => offsets (before ++ t.toList) rest
  | .part a :: rest => (before, a) :: offsets (before ++ chars a) rest

theorem map_snd_offsets (before : List Char) (segments : List Segment) :
    (offsets before segments).map Prod.snd = segments.filterMap Segment.part? := by
  induction segments generalizing before with
  | nil => rfl
  | cons s segments ih => cases s <;> simp [offsets, ih]

theorem mem_parts_of_mem_offsets {before : List Char} {a : Ast} {e : List Char × Ast}
    (h : e ∈ offsets before (template a)) : e.2 ∈ a.parts := by
  rw [← filterMap_template, ← map_snd_offsets before]
  exact List.mem_map_of_mem h

/-- The nodes of an expression that stands behind `before`, in the order in which they are emitted,
each with the text before it. -/
def nodesFrom (before : List Char) (a : Ast) : List (List Char × Ast) :=
  (before, a) :: (offsets before (template a)).attach.flatMap fun e =>
    have := Ast.sizeOf_lt_of_mem_parts (mem_parts_of_mem_offsets e.2)
    nodesFrom e.1.1 e.1.2
termination_by sizeOf a

theorem nodesFrom_eq (before : List Char) (a : Ast) :
    nodesFrom before a =
      (before, a) :: (offsets before (template a)).flatMap fun e => nodesFrom e.1 e.2 := by
  have hmap := List.flatMap_map Subtype.val (fun e : List Char × Ast => nodesFrom e.1 e.2)
    (l := (offsets before (template a)).attach)
  rw [List.attach_map_subtype_val] at hmap
  rw [nodesFrom, hmap]

/-- The nodes of a script, in the order in which they are emitted, each with the text of the script
before it. -/
def nodes (a : Ast) : List (List Char × Ast) := nodesFrom [] a

theorem nodesFrom_of_parts_eq_nil (before : List Char) {a : Ast} (h : a.parts = []) :
    nodesFrom before a = [(before, a)] := by
  have hmap := map_snd_offsets before (template a)
  rw [filterMap_template, h] at hmap
  rw [nodesFrom_eq, List.map_eq_nil_iff.mp hmap]
  rfl

/-- What holds of a form and of all forms below it. -/
def Everywhere (P : Ast → Prop) (a : Ast) : Prop := ∀ e ∈ nodes a, P e.2

theorem forall_nodesFrom_iff (P : Ast → Prop) (before : List Char) (a : Ast) :
    (∀ e ∈ nodesFrom before a, P e.2) ↔ Everywhere P a := by
  have hany : ∀ a before before', (∀ e ∈ nodesFrom before a, P e.2) →
      ∀ e ∈ nodesFrom before' a, P e.2 := by
    intro a
    induction a using Ast.induct with
    | step a ih =>
      intro before before' h e he
      rw [nodesFrom_eq] at h he
      rcases List.mem_cons.mp he with rfl | he
      · exact h (before, a) List.mem_cons_self
      · obtain ⟨f', hf', he⟩ := List.mem_flatMap.mp he
        -- the same part stands behind another text
        have hmap : (offsets before (template a)).map Prod.snd =
            (offsets before' (template a)).map Prod.snd := by
          rw [map_snd_offsets, map_snd_offsets]
        obtain ⟨f, hf, hsnd⟩ := List.mem_map.mp (hmap ▸ List.mem_map_of_mem hf')
        refine ih f'.2 (mem_parts_of_mem_offsets hf') f.1 f'.1 ?_ e he
        intro g hg
        rw [← hsnd] at hg
        exact h g (List.mem_cons_of_mem _ (List.mem_flatMap.mpr ⟨f, hf, hg⟩))
  exact ⟨hany a before [], hany a [] before⟩

theorem everywhere_iff (P : Ast → Prop) (a : Ast) :
    Everywhere P a ↔ P a ∧ ∀ b ∈ a.parts, Everywhere P b := by
  rw [Everywhere, nodes, nodesFrom_eq, List.forall_mem_cons, ← filterMap_template,
    ← map_snd_offsets []]
  refine and_congr_right fun _ => ⟨?_, ?_⟩
  · intro h b hb
    obtain ⟨f, hf, rfl⟩ := List.mem_map.mp hb
    exact (forall_nodesFrom_iff P f.1 f.2).mp
      fun e he => h e (List.mem_flatMap.mpr ⟨f, hf, he⟩)
  · intro h e he
    obtain ⟨f, hf, he⟩ := List.mem_flatMap.mp he
    exact (forall_nodesFrom_iff P f.1 f.2).mpr (h f.2 (List.mem_map_of_mem hf)) e he

theorem nodesFrom_induct {P : List Char × Ast → Prop} {before : List Char} {a : Ast}
    (root : P (before, a))
    (step : ∀ e, P e → ∀ f ∈ offsets e.1 (template e.2), P f) : ∀ e ∈ nodesFrom before a, P e := by
  induction a using Ast.induct generalizing before with
  | step a ih =>
    intro e he
    rw [nodesFrom_eq] at he
    rcases List.mem_cons.mp he with rfl | he
    · exact root
    · obtain ⟨f, hf, he⟩ := List.mem_flatMap.mp he
      exact ih f.2 (mem_parts_of_mem_offsets hf) (step _ root f hf) e he

theorem Everywhere.imp {P Q : Ast → Prop} (himp : ∀ a, P a → Q a) {a : Ast}
    (h : Everywhere P a) : Everywhere Q a :=
  fun e he => himp e.2 (h e he)

theorem Everywhere.of_mem_nodes {P : Ast → Prop} {a : Ast} (h : Everywhere P a)
    {e : List Char × Ast} (he : e ∈ nodes a) : Everywhere P e.2 := by
  refine nodesFrom_induct (P := fun e => Everywhere P e.2) h ?_ e he
  intro e he f hf
  exact ((everywhere_iff P e.2).mp he).2 f.2 (mem_parts_of_mem_offsets hf)

/-- A part stands in the text of the segments where `offsets` says. -/
theorem exists_of_mem_offsets {before : List Char} {segments : List Segment}
    {e : List Char × Ast} (h : e ∈ offsets before segments) :
    ∃ front back, segments = front ++ .part e.2 :: back ∧
      e.1 = before ++ front.flatMap Segment.chars := by
  induction segments generalizing before with
  | nil => simp [offsets] at h
  | cons s segments ih =>
    cases s with
    | text t =>
      obtain ⟨front, back, rfl, hbefore⟩ := ih h
      exact ⟨.text t :: front, back, rfl, by simp [hbefore, Segment.chars]⟩
    | part a =>
      rcases List.mem_cons.mp h with rfl | h
      · exact ⟨[], segments, rfl, by simp⟩
      · obtain ⟨front, back, rfl, hbefore⟩ := ih h
        exact ⟨.part a :: front, back, rfl, by simp [hbefore, Segment.chars]⟩

/-- The text of a node stands in the text of the whole behind the text before it. -/
theorem prefix_of_mem_nodesFrom {before : List Char} {a : Ast} {e : List Char × Ast}
    (h : e ∈ nodesFrom before a) : e.1 ++ chars e.2 <+: before ++ chars a := by
  refine nodesFrom_induct (P := fun e => e.1 ++ chars e.2 <+: before ++ chars a)
    (List.prefix_refl _) ?_ e h
  intro e he f hf
  obtain ⟨front, back, htemplate, hbefore⟩ := exists_of_mem_offsets hf
  have hpart : f.1 ++ chars f.2 <+: e.1 ++ chars e.2 := by
    rw [chars_eq e.2, htemplate, hbefore]
    refine ⟨back.flatMap Segment.chars, ?_⟩
    simp [Segment.chars]
  exact hpart.trans he

theorem before_prefix_of_mem_nodesFrom {before : List Char} {a : Ast} {e : List Char × Ast}
    (h : e ∈ nodesFrom before a) : before <+: e.1 := by
  refine nodesFrom_induct (P := fun e => before <+: e.1) (List.prefix_refl _) ?_ e h
  intro e he f hf
  obtain ⟨front, -, -, hbefore⟩ := exists_of_mem_offsets hf
  exact he.trans ⟨_, hbefore.symm⟩

theorem pairwise_offsets (before : List Char) (segments : List Segment) :
    (offsets before segments).Pairwise fun e f => e.1 ++ chars e.2 <+: f.1 := by
  induction segments generalizing before with
  | nil => exact List.Pairwise.nil
  | cons s segments ih =>
    cases s with
    | text t => exact ih _
    | part a =>
      refine List.pairwise_cons.mpr ⟨?_, ih _⟩
      intro f hf
      obtain ⟨front, -, -, hbefore⟩ := exists_of_mem_offsets hf
      exact ⟨_, hbefore.symm⟩

/-- A node begins where an earlier one begins or behind; if the earlier one has no parts, it begins
behind its text. -/
theorem pairwise_nodesFrom (before : List Char) (a : Ast) :
    (nodesFrom before a).Pairwise fun e f =>
      e.1 <+: f.1 ∧ (e.2.parts = [] → e.1 ++ chars e.2 <+: f.1) := by
  induction a using Ast.induct generalizing before with
  | step a ih =>
    rw [nodesFrom_eq]
    refine List.pairwise_cons.mpr ⟨?_, ?_⟩
    · intro f hf
      obtain ⟨e, he, hf⟩ := List.mem_flatMap.mp hf
      refine ⟨?_, fun hparts => ?_⟩
      · apply before_prefix_of_mem_nodesFrom (a := a)
        rw [nodesFrom_eq]
        exact List.mem_cons_of_mem _ (List.mem_flatMap.mpr ⟨e, he, hf⟩)
      · -- a node below the root is below one of its parts
        have hmem := mem_parts_of_mem_offsets he
        rw [hparts] at hmem
        simp at hmem
    · refine List.pairwise_flatMap.mpr ⟨?_, ?_⟩
      · exact fun e he => ih e.2 (mem_parts_of_mem_offsets he) e.1
      · refine (pairwise_offsets before (template a)).imp ?_
        -- all of the text of `x` stands in that of `e`, which ends where `f` begins or before
        intro e f hef x hx y hy
        have hlater := hef.trans (before_prefix_of_mem_nodesFrom hy)
        have hnode := (prefix_of_mem_nodesFrom hx).trans hlater
        exact ⟨(List.prefix_append _ _).trans hnode, fun _ => hnode⟩

/-- Inside the text of a node without parts no other node begins. -/
theorem outside_of_mem_nodesFrom {before : List Char} {a : Ast} {e f : List Char × Ast}
    (he : e ∈ nodesFrom before a) (hf : f ∈ nodesFrom before a) (hparts : f.2.parts = []) :
    e.1 <+: f.1 ∨ f.1 ++ chars f.2 <+: e.1 := by
  obtain ⟨front, back, hsplit⟩ := List.append_of_mem hf
  have horder := pairwise_nodesFrom before a
  rw [hsplit] at he horder
  obtain ⟨-, hback, hfront⟩ := List.pairwise_append.mp horder
  rcases List.mem_append.mp he with he | he
  · exact .inl (hfront e he f (by simp)).1
  · rcases List.mem_cons.mp he with rfl | he
    · exact .inl (List.prefix_refl _)
    · exact .inr ((List.pairwise_cons.mp hback).1 e he |>.2 hparts)

end LiveLisp.Script
