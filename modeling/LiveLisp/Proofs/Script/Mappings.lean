import LiveLisp.Proofs.SourceMap.Inline
import Mathlib.Data.List.Count
import Mathlib.Data.String.Basic
/-!
# Mappings point at what they describe

A script has one mapping for each node of its form, in the order in which the nodes are emitted.
The mapping stands at the line and the column where the text of the node begins, counted over the
text before it, and carries the position and the name of the node.  Without mappings the script is
the same.
-/

namespace LiveLisp.Script

open Text (Position)
open Analysis (Ast NsDecl)

/-! ## Lines and columns -/

/-- The UTF-16 units behind the last newline of a text. -/
def lastLineUnits (text : List Char) : Nat :=
  ((text.reverse.takeWhile (· ≠ '\n')).map units16).sum

/-- The place behind a text is told by its newlines and by its last line. -/
theorem placeOf_eq_count (text : List Char) :
    placeOf text = ⟨text.count '\n', lastLineUnits text⟩ := by
  induction text using List.reverseRecOn with
  | nil => rfl
  | append_singleton text c ih =>
    have hstep : placeOf (text ++ [c]) = (placeOf text).step c := by
      rw [placeOf_eq, placeOf_eq, List.foldl_append]
      rfl
    rw [hstep, ih]
    by_cases hc : c = '\n'
    · subst hc
      simp [Place.step, lastLineUnits]
    · simp [Place.step, lastLineUnits, hc, Nat.add_comm]

theorem units16_le_utf8Size (c : Char) : units16 c ≤ c.utf8Size := by
  have hval : c.toNat = c.val.toNat := rfl
  unfold units16 Char.utf8Size
  simp only [hval, UInt32.le_iff_toNat_le]
  split_ifs <;> simp_all
  omega

theorem sum_units16_le (text : List Char) : (text.map units16).sum ≤ String.utf8Len text := by
  induction text with
  | nil => simp
  | cons c text ih =>
    have hc := units16_le_utf8Size c
    rw [List.map_cons, List.sum_cons, String.utf8Len_cons]
    omega

/-- Columns stay below the number of bytes. -/
theorem lastLineUnits_le (text : List Char) : lastLineUnits text ≤ String.utf8Len text := by
  have hsum := sum_units16_le (text.reverse.takeWhile (· ≠ '\n'))
  have hline : String.utf8Len (text.reverse.takeWhile (· ≠ '\n')) ≤ String.utf8Len text := by
    rw [← String.utf8Len_reverse text]
    exact String.utf8Len_le_of_sublist (List.takeWhile_sublist _)
  exact hsum.trans hline

theorem length_le_utf8Len (text : List Char) : text.length ≤ String.utf8Len text := by
  induction text with
  | nil => simp
  | cons c text ih =>
    have hc := c.utf8Size_pos
    rw [List.length_cons, String.utf8Len_cons]
    omega

/-! ## What is marked -/

/-- A stretch of a script that a mark stands before. -/
structure Marked where
  before : List Char
  text : List Char
  node : Ast

namespace Marked

/-- The mapping that describes the stretch. -/
def mapping (m : Marked) : Mapping :=
  ⟨m.before.count '\n', lastLineUnits m.before, m.node.pos.zeroBased.1, m.node.pos.zeroBased.2,
    markName m.node⟩

/-- One stretch stands inside another. -/
def Inside (n m : Marked) : Prop :=
  m.before <+: n.before ∧ n.before ++ n.text <+: m.before ++ m.text

/-- One stretch begins where another ends or later. -/
def Behind (n m : Marked) : Prop := m.before ++ m.text <+: n.before

end Marked

/-- The statements that declare a namespace. -/
def declarationChars (pos : Position) (decl : NsDecl) : List Char :=
  (scriptText (declarationPieces pos decl)).toList

/-- What a node writes where it is marked: its text; and a declaration inside an expression once
more the statements in it. -/
def nodeWritings (a : Ast) : List (Ast × List Char) :=
  (a, chars a) :: a.nsDecl?.toList.map fun decl => (a, declarationChars a.pos decl)

/-- The marked nodes of a form with what they write, in the order of emission.  A declaration that
is the whole form writes its statements only. -/
def writings : Ast → List (Ast × List Char)
  | .ns pos decl => [(.ns pos decl, declarationChars pos decl)]
  | a => a.preorder.flatMap nodeWritings

/-- The stretches of a node that stands behind a text. -/
def markedNode (e : List Char × Ast) : List Marked :=
  ⟨e.1, chars e.2, e.2⟩ :: e.2.nsDecl?.toList.map fun decl =>
    ⟨e.1 ++ declarationOpening.toList, declarationChars e.2.pos decl, e.2⟩

theorem markedNode_of_parts {e : List Char × Ast} (h : e.2.parts ≠ []) :
    markedNode e = [⟨e.1, chars e.2, e.2⟩] := by
  rcases eq_ns_or e.2 with ⟨pos, decl, hns⟩ | hnone
  · rw [hns] at h
    exact absurd rfl h
  · simp [markedNode, hnone]

theorem map_writing_markedNode (e : List Char × Ast) :
    (markedNode e).map (fun m => (m.node, m.text)) = nodeWritings e.2 := by
  simp [markedNode, nodeWritings]

theorem map_mapping_markedNode (e : List Char × Ast) :
    (markedNode e).map Marked.mapping = (nodeMarks e).map Mark.mapping := by
  obtain ⟨before, a⟩ := e
  rcases eq_ns_or a with ⟨pos, decl, rfl⟩ | h
  · simp [markedNode, nodeMarks, Ast.nsDecl?, Marked.mapping, Mark.mapping, placeOf_eq_count,
      markName, Ast.pos]
  · rw [nodeMarks_of_nsDecl?_eq_none h]
    simp [markedNode, h, Marked.mapping, Mark.mapping, placeOf_eq_count]

/-- The stretches of a node stand in the text of the node. -/
theorem inside_of_mem_markedNode {e : List Char × Ast} {m : Marked} (h : m ∈ markedNode e) :
    m.Inside ⟨e.1, chars e.2, e.2⟩ := by
  obtain ⟨before, a⟩ := e
  rcases List.mem_cons.mp h with rfl | h
  · exact ⟨List.prefix_refl _, List.prefix_refl _⟩
  · rcases eq_ns_or a with ⟨pos, decl, rfl⟩ | hnone
    · obtain rfl := List.mem_singleton.mp h
      refine ⟨List.prefix_append _ _, ?_⟩
      have hchars : chars (.ns pos decl) = declarationOpening.toList ++
          declarationChars pos decl ++ "\nreturn null;\n\x7d)()".toList := by
        rw [chars_eq]
        simp [template, Segment.chars, declarationChars, declarationOpening]
      rw [hchars]
      exact ⟨"\nreturn null;\n\x7d)()".toList, by simp [Ast.pos]⟩
    · simp [hnone] at h

/-! ## Nodes in order -/

theorem map_snd_nodesFrom (before : List Char) (a : Ast) :
    (nodesFrom before a).map Prod.snd = a.preorder := by
  induction a using Ast.induct generalizing before with
  | step a ih =>
    have hparts : ∀ es : List (List Char × Ast), (∀ e ∈ es, e.2 ∈ a.parts) →
        (es.flatMap fun e => nodesFrom e.1 e.2).map Prod.snd =
          (es.map Prod.snd).flatMap Ast.preorder := by
      intro es
      induction es with
      | nil => intro _; rfl
      | cons e es ihs =>
        intro hmem
        have hrest := ihs fun f hf => hmem f (by simp [hf])
        rw [List.flatMap_cons, List.map_append, ih e.2 (hmem e (by simp)), hrest, List.map_cons,
          List.flatMap_cons]
    rw [nodesFrom_eq, List.map_cons, hparts _ fun e he => mem_parts_of_mem_offsets he,
      map_snd_offsets, filterMap_template, Ast.preorder_eq]

/-- Of two nodes the later one stands inside the earlier one, which has parts then, or behind it. -/
theorem pairwise_inside_nodesFrom (before : List Char) (a : Ast) :
    (nodesFrom before a).Pairwise fun e f =>
      e.1 <+: f.1 ∧ (e.2.parts ≠ [] ∧ f.1 ++ chars f.2 <+: e.1 ++ chars e.2 ∨
        e.1 ++ chars e.2 <+: f.1) := by
  refine (pairwise_nodesFrom before a).and ?_ |>.imp fun h => ⟨h.1.1, h.2⟩
  induction a using Ast.induct generalizing before with
  | step a ih =>
    rw [nodesFrom_eq]
    refine List.pairwise_cons.mpr ⟨?_, ?_⟩
    · intro f hf
      have hparts : a.parts ≠ [] := by
        obtain ⟨e, he, -⟩ := List.mem_flatMap.mp hf
        exact List.ne_nil_of_mem (mem_parts_of_mem_offsets he)
      refine .inl ⟨hparts, prefix_of_mem_nodesFrom ?_⟩
      rw [nodesFrom_eq]
      exact List.mem_cons_of_mem _ hf
    · refine List.pairwise_flatMap.mpr ⟨?_, ?_⟩
      · exact fun e he => ih e.2 (mem_parts_of_mem_offsets he) e.1
      · refine (pairwise_offsets before (template a)).imp ?_
        intro e f hef x hx y hy
        exact .inr ((prefix_of_mem_nodesFrom hx).trans
          (hef.trans (before_prefix_of_mem_nodesFrom hy)))

theorem pairwise_markedNode (e : List Char × Ast) :
    (markedNode e).Pairwise fun m n => n.Inside m ∨ n.Behind m := by
  refine List.pairwise_cons.mpr ⟨?_, ?_⟩
  · intro n hn
    exact .inl (inside_of_mem_markedNode (List.mem_cons_of_mem _ hn))
  · cases h : e.2.nsDecl? <;> simp

/-- Of two stretches the later one stands inside the earlier one or behind it. -/
theorem pairwise_marked (a : Ast) :
    ((nodes a).flatMap markedNode).Pairwise fun m n => n.Inside m ∨ n.Behind m := by
  refine List.pairwise_flatMap.mpr ⟨fun e _ => pairwise_markedNode e, ?_⟩
  refine (pairwise_inside_nodesFrom [] a).imp ?_
  rintro e f ⟨hbefore, hinside | hbehind⟩ m hm n hn
  · rw [markedNode_of_parts hinside.1] at hm
    obtain rfl := List.mem_singleton.mp hm
    have hnode := inside_of_mem_markedNode hn
    exact .inl ⟨hbefore.trans hnode.1, hnode.2.trans hinside.2⟩
  · exact .inr ((inside_of_mem_markedNode hm).2.trans
      (hbehind.trans (inside_of_mem_markedNode hn).1))

/-! ## Scripts -/

/-- A script that begins with a prefix of `js` has no more lines and columns than `js` has bytes. -/
theorem fits_of_prefix {before : List Char} {js : String} (h : before <+: js.toList)
    (hjs : js.utf8ByteSize < bound32) :
    before.count '\n' < bound32 ∧ lastLineUnits before < bound32 := by
  have hbytes : String.utf8Len before ≤ js.utf8ByteSize := by
    have hle := String.utf8Len_le_of_sublist h.sublist
    rwa [← String.utf8ByteSize_ofList js.toList, String.ofList_toList] at hle
  have hcount := (List.count_le_length (a := '\n') (l := before)).trans (length_le_utf8Len before)
  have hunits := lastLineUnits_le before
  omega

theorem lines_emit (sourceMap : Bool) (a : Ast) :
    (emit sourceMap a).lines = (emit sourceMap a).js.toList.count '\n' + 1 := by
  have hplace : ((⟨0, 0⟩ : Place).after (emit sourceMap a).js) =
      placeOf (emit sourceMap a).js.toList := by
    rw [placeOf, String.ofList_toList]
  change ((⟨0, 0⟩ : Place).after (emit sourceMap a).js).line + 1 = _
  rw [hplace, placeOf_eq_count]

/-- The stretches of a script: every marked node in order, where its text stands. -/
structure Describes (a : Ast) (marked : List Marked) : Prop where
  nodes : marked.map (fun m => (m.node, m.text)) = writings a
  mappings : (emit true a).mappings = marked.map Marked.mapping
  stands : ∀ m ∈ marked, m.before ++ m.text <+: (emit true a).js.toList
  order : marked.Pairwise fun m n => n.Inside m ∨ n.Behind m

theorem describes_declaration (pos : Position) (decl : NsDecl) :
    Describes (.ns pos decl) [⟨[], declarationChars pos decl, .ns pos decl⟩] where
  nodes := rfl
  mappings := by
    rw [mappings_emit, topPieces, marks_declarationPieces]
    rfl
  stands := by
    intro m hm
    obtain rfl := List.mem_singleton.mp hm
    exact List.prefix_refl _
  order := List.pairwise_singleton _ _

theorem describes_expression {a : Ast} (h : a.nsDecl? = none) :
    Describes a ((nodes a).flatMap markedNode) where
  nodes := by
    have hwritings : writings a = a.preorder.flatMap nodeWritings := by
      cases a with
      | ns => contradiction
      | _ => rfl
    rw [hwritings, List.map_flatMap, ← map_snd_nodesFrom [] a, List.flatMap_map]
    exact List.flatMap_congr fun e _ => map_writing_markedNode e
  mappings := by
    rw [mappings_emit, marks_topPieces a h, List.map_flatMap, List.map_flatMap]
    exact List.flatMap_congr fun e _ => (map_mapping_markedNode e).symm
  stands := by
    intro m hm
    obtain ⟨e, he, hm⟩ := List.mem_flatMap.mp hm
    have hnode : e.1 ++ chars e.2 <+: chars a := prefix_of_mem_nodesFrom he
    rw [toList_emit true h]
    exact (inside_of_mem_markedNode hm).2.trans (hnode.trans (List.prefix_append _ _))
  order := pairwise_marked a

theorem exists_describes (a : Ast) : ∃ marked, Describes a marked := by
  rcases eq_ns_or a with ⟨pos, decl, rfl⟩ | h
  · exact ⟨_, describes_declaration pos decl⟩
  · exact ⟨_, describes_expression h⟩

/-- No script is made of newlines alone. -/
theorem exists_mem_emit_ne (sourceMap : Bool) (a : Ast) :
    ∃ c ∈ (emit sourceMap a).js.toList, c ≠ '\n' := by
  rcases eq_ns_or a with ⟨pos, decl, rfl⟩ | h
  · refine ⟨'g', ?_, by decide⟩
    change 'g' ∈ (scriptText (declarationPieces pos decl)).toList
    simp [declarationPieces]
  · refine ⟨';', ?_, by decide⟩
    simp [toList_emit sourceMap h]

/-- Where the script has less than 2^32 bytes, nothing that is counted in 32 bits runs over. -/
theorem Describes.fits {a : Ast} {marked : List Marked} (h : Describes a marked)
    (hjs : (emit true a).js.utf8ByteSize < bound32) :
    (emit true a).lines < bound32 ∧
      ∀ g ∈ (emit true a).mappings, g.genLine < bound32 ∧ g.genColumn < bound32 := by
  constructor
  · have hcount := List.count_lt_length_iff.mpr (exists_mem_emit_ne true a)
    have hlength := length_le_utf8Len (emit true a).js.toList
    rw [← String.utf8ByteSize_ofList, String.ofList_toList] at hlength
    rw [lines_emit]
    omega
  · intro g hg
    rw [h.mappings] at hg
    obtain ⟨m, hm, rfl⟩ := List.mem_map.mp hg
    exact fits_of_prefix ((List.prefix_append _ _).trans (h.stands m hm)) hjs

/-- Mappings change nothing in the script, and are there only if asked for.  They are those of the
marked nodes in the order of emission: every node stands in the script with its own text, behind or
inside the nodes before it, and its mapping counts the lines and the UTF-16 units before it and
carries its position and its name.  Below 2^32 bytes the counts fit in 32 bits. -/
theorem mappings_describe_nodes (a : Ast) :
    (emit false a).js = (emit true a).js ∧ (emit false a).lines = (emit true a).lines ∧
      (emit false a).mappings = [] ∧
      (emit true a).lines = (emit true a).js.toList.count '\n' + 1 ∧
      (∃ marked : List Marked,
        marked.map (fun m => (m.node, m.text)) = writings a ∧
        (emit true a).mappings = marked.map Marked.mapping ∧
        (∀ m ∈ marked, ∃ after, (emit true a).js.toList = m.before ++ m.text ++ after) ∧
        marked.Pairwise fun m n => n.Inside m ∨ n.Behind m) ∧
      ((emit true a).js.utf8ByteSize < bound32 → (emit true a).lines < bound32 ∧
        ∀ g ∈ (emit true a).mappings, g.genLine < bound32 ∧ g.genColumn < bound32) := by
  obtain ⟨marked, h⟩ := exists_describes a
  refine ⟨rfl, rfl, rfl, lines_emit true a, ⟨marked, h.nodes, h.mappings, ?_, h.order⟩, h.fits⟩
  intro m hm
  obtain ⟨after, hafter⟩ := h.stands m hm
  exact ⟨after, hafter.symm⟩

/-- A function with its body on a line of its own. -/
theorem mappings_describe_nodes_func :
    let a : Ast := .func ⟨1, 1⟩ none ["x"] none [.local ⟨2, 3⟩ "x"]
    (emit true a).mappings = [⟨0, 0, 0, 0, none⟩, ⟨1, 7, 1, 2, some "x"⟩] ∧
      (emit true a).js.utf8ByteSize < bound32 ∧ (emit true a).lines < bound32 ∧
      ∀ g ∈ (emit true a).mappings, g.genLine < bound32 ∧ g.genColumn < bound32 := by
  intro a
  have hjs : (emit true a).js.utf8ByteSize < bound32 := by decide
  obtain ⟨-, -, -, -, -, hfits⟩ := mappings_describe_nodes a
  exact ⟨rfl, hjs, hfits hjs⟩

end LiveLisp.Script
