import LiveLisp.Proofs.Script.Emission
import LiveLisp.Proofs.SourceMap.RoundTrip
import LiveLisp.Proofs.Text.Base64
import LiveLisp.SourceMap.Inline
import Mathlib.Data.List.Induction
/-!
# Inline source maps point back to the nodes

The marks of a script stand where its nodes begin, in the order of emission.  Places grow along the
text, so two marks share a place only if they share the text before them; the map keeps the marks
of one place in their order, its text is read back, and the last of them answers.
-/

namespace LiveLisp.Script

open Text (Position)
open Analysis (Ast NsDecl)

/-! ## Places along a text -/

/-- The place behind a text that begins a script. -/
def placeOf (before : List Char) : Place := (⟨0, 0⟩ : Place).after (String.ofList before)

theorem placeOf_eq (before : List Char) : placeOf before = before.foldl Place.step ⟨0, 0⟩ := by
  rw [placeOf, Place.after, String.toList_ofList]

theorem placeOf_append (before more : List Char) :
    placeOf (before ++ more) = (placeOf before).after (String.ofList more) := by
  rw [placeOf_eq, placeOf_eq, Place.after, String.toList_ofList, List.foldl_append]

theorem units16_pos (c : Char) : 0 < units16 c := by
  unfold units16
  split <;> omega

theorem Place.foldl_step_grows (p : Place) (text : List Char) :
    p.line < (text.foldl Place.step p).line ∨
      p.line = (text.foldl Place.step p).line ∧
        p.column + text.length ≤ (text.foldl Place.step p).column := by
  induction text generalizing p with
  | nil => simp
  | cons c text ih =>
    have hgrows := ih (p.step c)
    have hunits := units16_pos c
    rw [List.foldl_cons, List.length_cons]
    by_cases hc : c = '\n'
    · have hstep : p.step c = ⟨p.line + 1, 0⟩ := if_pos hc
      simp only [hstep] at hgrows ⊢
      omega
    · have hstep : p.step c = ⟨p.line, p.column + units16 c⟩ := if_neg hc
      simp only [hstep] at hgrows ⊢
      omega

/-- Of two texts that begin one script, a place belongs to one only. -/
theorem eq_of_placeOf_eq {s t js : List Char} (hs : s <+: js) (ht : t <+: js)
    (h : placeOf s = placeOf t) : s = t := by
  have hgrows : ∀ {s t : List Char}, s <+: t → placeOf s = placeOf t → s = t := by
    rintro s _ ⟨more, rfl⟩ h
    have hmore := Place.foldl_step_grows (placeOf s) more
    rw [placeOf_append, Place.after, String.toList_ofList] at h
    rw [← h] at hmore
    have hempty : more.length = 0 := by omega
    rw [List.eq_nil_of_length_eq_zero hempty, List.append_nil]
  rcases List.prefix_or_prefix_of_prefix hs ht with hst | hts
  · exact hgrows hst h
  · exact (hgrows hts h.symm).symm

/-! ## Marks -/

/-- A mark with the text before it. -/
structure Mark where
  before : List Char
  pos : Position
  name : Option String

def Mark.mapping (m : Mark) : Mapping :=
  ⟨(placeOf m.before).line, (placeOf m.before).column, m.pos.zeroBased.1, m.pos.zeroBased.2,
    m.name⟩

/-- The marks of pieces that stand behind `before`. -/
def marks (before : List Char) : List Piece → List Mark
  | [] => []
  | .text t :: rest => marks (before ++ t.toList) rest
  | .mark pos name :: rest => ⟨before, pos, name⟩ :: marks before rest

theorem layout_eq (before : List Char) (ps : List Piece) :
    layout (placeOf before) ps = (marks before ps).map Mark.mapping := by
  induction ps generalizing before with
  | nil => rfl
  | cons p ps ih =>
    cases p with
    | text t => rw [layout, marks, ← ih, placeOf_append, String.ofList_toList]
    | mark pos name => rw [layout, marks, List.map_cons, ← ih]; rfl

theorem marks_append (before : List Char) (ps qs : List Piece) :
    marks before (ps ++ qs) =
      marks before ps ++ marks (before ++ (scriptText ps).toList) qs := by
  induction ps generalizing before with
  | nil => simp [marks]
  | cons p ps ih => cases p <;> simp [marks, ih]

/-- What a declaration inside an expression begins with. -/
def declarationOpening : String := "(function ()\x7b\n"

/-- The marks of a node: a declaration inside an expression has a second one. -/
def nodeMarks (e : List Char × Ast) : List Mark :=
  ⟨e.1, e.2.pos, markName e.2⟩ ::
    match e.2 with
    | .ns pos _ => [⟨e.1 ++ declarationOpening.toList, pos, none⟩]
    | _ => []

theorem nodeMarks_of_nsDecl?_eq_none {e : List Char × Ast} (h : e.2.nsDecl? = none) :
    nodeMarks e = [⟨e.1, e.2.pos, markName e.2⟩] := by
  obtain ⟨before, a⟩ := e
  cases a with
  | ns => simp [Ast.nsDecl?] at h
  | _ => rfl

theorem length_nodeMarks_le (e : List Char × Ast) : (nodeMarks e).length ≤ 2 := by
  unfold nodeMarks
  split <;> simp

theorem marks_declarationPieces (before : List Char) (pos : Position) (decl : NsDecl) :
    marks before (declarationPieces pos decl) = [⟨before, pos, none⟩] := by
  have hrest : ∀ (before : List Char) (names : List String) (text : String → String),
      marks before (names.map fun n => Piece.text (text n)) = [] := by
    intro before names text
    induction names generalizing before with
    | nil => rfl
    | cons n names ih => exact ih _
  unfold declarationPieces
  simp only [marks_append, hrest]
  split <;> simp [marks]

/-- The marks of an expression are those of its nodes. -/
theorem marks_pieces (before : List Char) (a : Ast) :
    marks before (pieces a) = (nodesFrom before a).flatMap nodeMarks := by
  induction a using Ast.induct generalizing before with
  | step a ih =>
    rcases eq_ns_or a with ⟨pos, decl, rfl⟩ | h
    · have hpieces : pieces (.ns pos decl) =
          [.mark pos none, .text declarationOpening] ++ declarationPieces pos decl ++
            [.text "\nreturn null;\n\x7d)()"] := by
        rw [pieces]
        rfl
      rw [hpieces, nodesFrom_of_parts_eq_nil _ rfl]
      simp [marks, marks_append, marks_declarationPieces, nodeMarks, Ast.pos, markName]
    · have hsegments : ∀ (segments : List Segment) (before : List Char),
          (∀ b, .part b ∈ segments → b ∈ a.parts) →
          marks before (segments.flatMap Segment.pieces) =
            (offsets before segments).flatMap fun e => (nodesFrom e.1 e.2).flatMap nodeMarks := by
        intro segments
        induction segments with
        | nil => intros; rfl
        | cons s segments ihs =>
          intro before hparts
          have hrest := ihs (before ++ s.chars) fun b hb => hparts b (by simp [hb])
          rw [List.flatMap_cons, marks_append]
          cases s with
          | text t => simpa [Segment.pieces, Segment.chars, marks, offsets] using hrest
          | part b =>
            have hpart := ih b (hparts b (by simp)) before
            simp only [Segment.pieces, Segment.chars, chars] at hrest ⊢
            rw [hpart, hrest, offsets, List.flatMap_cons]
            rfl
      rw [pieces_eq a h, marks, hsegments _ _ fun b => mem_parts_of_mem_template, nodesFrom_eq,
        List.flatMap_cons, nodeMarks_of_nsDecl?_eq_none h, List.flatMap_assoc]
      rfl

theorem marks_topPieces (a : Ast) (h : a.nsDecl? = none) :
    marks [] (topPieces a) = (nodes a).flatMap nodeMarks := by
  rw [topPieces_eq h, marks_append, marks_pieces]
  simp [marks, nodes]

/-- The text before a mark begins the script. -/
theorem prefix_of_mem_marks {before : List Char} {ps : List Piece} {m : Mark}
    (h : m ∈ marks before ps) : m.before <+: before ++ (scriptText ps).toList := by
  induction ps generalizing before with
  | nil => simp [marks] at h
  | cons p ps ih =>
    cases p with
    | text t => simpa using ih h
    | mark pos name =>
      rcases List.mem_cons.mp h with rfl | h
      · exact List.prefix_append _ _
      · exact ih h

theorem length_lt_length_chars_ns (pos : Position) (decl : NsDecl) :
    declarationOpening.toList.length < (chars (.ns pos decl)).length := by
  rw [chars_eq]
  simp only [template, List.flatMap_cons, Segment.chars, List.length_append]
  change 14 < 14 + _
  simp

/-- At the beginning of a node, of the marks of another node stands the first at most. -/
theorem filter_nodeMarks {a : Ast} {e f : List Char × Ast} (he : e ∈ nodes a) (hf : f ∈ nodes a) :
    ((nodeMarks f).filter fun m => m.before = e.1) =
      if f.1 = e.1 then [⟨f.1, f.2.pos, markName f.2⟩] else [] := by
  obtain ⟨before, b⟩ := f
  rcases eq_ns_or b with ⟨pos, decl, rfl⟩ | h
  · -- the second mark of a declaration stands inside its text, where no node begins
    have hopening : declarationOpening.toList ≠ [] := by decide
    have hinner : before ++ declarationOpening.toList ≠ e.1 := by
      intro heq
      have hlength := congrArg List.length heq
      have hlong := length_lt_length_chars_ns pos decl
      have hpos : 0 < declarationOpening.toList.length := List.length_pos_iff.mpr hopening
      rw [List.length_append] at hlength
      rcases outside_of_mem_nodesFrom he hf rfl with hprefix | hprefix
      · have hle : e.1.length ≤ before.length := hprefix.length_le
        omega
      · have hle := hprefix.length_le
        simp only [List.length_append] at hle
        omega
    by_cases heq : before = e.1 <;> simp [nodeMarks, hinner, heq, hopening]
  · rw [nodeMarks_of_nsDecl?_eq_none h]
    by_cases heq : before = e.1 <;> simp [heq]

/-- At the beginning of a node stand the marks of the nodes that begin there, in their order. -/
theorem filter_marks {a : Ast} {e : List Char × Ast} (he : e ∈ nodes a) :
    (((nodes a).flatMap nodeMarks).filter fun m => m.before = e.1) =
      ((nodes a).filter fun f => f.1 = e.1).map fun f => ⟨f.1, f.2.pos, markName f.2⟩ := by
  have hsome : ∀ fs : List (List Char × Ast), (∀ f ∈ fs, f ∈ nodes a) →
      ((fs.flatMap nodeMarks).filter fun m => m.before = e.1) =
        (fs.filter fun f => f.1 = e.1).map fun f => ⟨f.1, f.2.pos, markName f.2⟩ := by
    intro fs
    induction fs with
    | nil => intro _; rfl
    | cons f fs ih =>
      intro hmem
      have hrest := ih fun g hg => hmem g (by simp [hg])
      rw [List.flatMap_cons, List.filter_append, hrest, filter_nodeMarks he (hmem f (by simp))]
      by_cases heq : f.1 = e.1 <;> simp [heq]
  exact hsome _ fun f hf => hf

/-! ## The last node at a place -/

/-- The last node, in the order of emission, that begins at a place of the script. -/
def lastAt (a : Ast) (place : Place) : Option Ast :=
  (((nodes a).filter fun e => placeOf e.1 = place).getLast?).map Prod.snd

theorem exists_lastAt {a : Ast} {e : List Char × Ast} (he : e ∈ nodes a) :
    ∃ last, lastAt a (placeOf e.1) = some last ∧ ∃ before, (before, last) ∈ nodes a := by
  have hne : ((nodes a).filter fun f => placeOf f.1 = placeOf e.1) ≠ [] :=
    List.ne_nil_of_mem (List.mem_filter.mpr ⟨he, by simp⟩)
  have hlast := List.getLast?_eq_some_getLast hne
  have hmem := (List.mem_filter.mp (List.mem_of_getLast? hlast)).1
  exact ⟨_, by rw [lastAt, hlast]; rfl, _, hmem⟩

theorem mappings_emit (a : Ast) :
    (emit true a).mappings = (marks [] (topPieces a)).map Mark.mapping := by
  rw [← layout_eq]
  rfl

/-- A script has at most two mappings for each node. -/
theorem length_mappings_le (a : Ast) : (emit true a).mappings.length ≤ 2 * (nodes a).length := by
  have hflat : ∀ es : List (List Char × Ast), (es.flatMap nodeMarks).length ≤ 2 * es.length := by
    intro es
    induction es with
    | nil => simp
    | cons e es ih =>
      have hle := length_nodeMarks_le e
      simp only [List.flatMap_cons, List.length_append, List.length_cons]
      omega
  rw [mappings_emit, List.length_map]
  rcases eq_ns_or a with ⟨pos, decl, rfl⟩ | h
  · rw [topPieces, marks_declarationPieces, nodes, nodesFrom_of_parts_eq_nil _ rfl]
    simp
  · rw [marks_topPieces a h]
    exact hflat _

theorem filter_marks_topPieces {a : Ast} {e : List Char × Ast} (he : e ∈ nodes a) :
    ((marks [] (topPieces a)).filter fun m => m.before = e.1) =
      ((nodes a).filter fun f => f.1 = e.1).map fun f => ⟨f.1, f.2.pos, markName f.2⟩ := by
  rcases eq_ns_or a with ⟨pos, decl, rfl⟩ | h
  · rw [nodes, nodesFrom_of_parts_eq_nil _ rfl] at he ⊢
    obtain rfl : e = ([], .ns pos decl) := by simpa using he
    rw [topPieces, marks_declarationPieces]
    rfl
  · rw [marks_topPieces a h, filter_marks he]

theorem prefix_of_mem_nodes {a : Ast} {e : List Char × Ast} (he : e ∈ nodes a) :
    e.1 <+: (scriptText (topPieces a)).toList := by
  have hmem : ⟨e.1, e.2.pos, markName e.2⟩ ∈
      ((marks [] (topPieces a)).filter fun m => m.before = e.1) := by
    rw [filter_marks_topPieces he]
    exact List.mem_map.mpr ⟨e, by simp [he], rfl⟩
  simpa using prefix_of_mem_marks (List.mem_filter.mp hmem).1

/-- Where a node begins, the last mapping is that of the last node that begins there. -/
theorem getLast?_mappings {a : Ast} {e : List Char × Ast} (he : e ∈ nodes a) :
    ((((emit true a).mappings).filter fun g =>
        g.genLine = (placeOf e.1).line ∧ g.genColumn = (placeOf e.1).column).getLast?).map
          (fun g => (g.srcLine, g.srcColumn)) =
      (lastAt a (placeOf e.1)).map fun n => n.pos.zeroBased := by
  -- in one script the places of marks and nodes agree only if the texts before them do
  have hmarks : ∀ m ∈ marks [] (topPieces a),
      (placeOf m.before = placeOf e.1 ↔ m.before = e.1) := by
    intro m hm
    refine ⟨fun h => ?_, fun h => by rw [h]⟩
    have hprefix : m.before <+: (scriptText (topPieces a)).toList := by
      simpa using prefix_of_mem_marks hm
    exact eq_of_placeOf_eq hprefix (prefix_of_mem_nodes he) h
  have hnodes : ((nodes a).filter fun f => placeOf f.1 = placeOf e.1) =
      (nodes a).filter fun f => f.1 = e.1 := by
    apply List.filter_congr
    intro f hf
    have hiff : placeOf f.1 = placeOf e.1 ↔ f.1 = e.1 :=
      ⟨eq_of_placeOf_eq (prefix_of_mem_nodes hf) (prefix_of_mem_nodes he), fun h => by rw [h]⟩
    simp [hiff]
  have hmappings : (((emit true a).mappings).filter fun g =>
      g.genLine = (placeOf e.1).line ∧ g.genColumn = (placeOf e.1).column) =
      ((marks [] (topPieces a)).filter fun m => m.before = e.1).map Mark.mapping := by
    rw [mappings_emit, List.filter_map]
    congr 1
    apply List.filter_congr
    intro m hm
    have hplace : (placeOf m.before).line = (placeOf e.1).line ∧
        (placeOf m.before).column = (placeOf e.1).column ↔ placeOf m.before = placeOf e.1 := by
      rw [Place.mk.injEq]
    exact decide_eq_decide.mpr (hplace.trans (hmarks m hm))
  rw [hmappings, filter_marks_topPieces he, lastAt, hnodes]
  simp [List.getLast?_map, Mark.mapping, Function.comp_def]

end LiveLisp.Script

namespace LiveLisp.SourceMap

open Text
open Analysis (Ast)
open Script

/-! ## What a map keeps of the mappings -/

theorem lookup_modify {α : Type} {fresh : α} {f : α → α} {xs : Ascending α}
    (hxs : Ascending.Sorted xs) (key other : Nat) :
    Table.lookup other (Ascending.modify fresh key f xs) =
      if other = key then some (f ((Table.lookup key xs).getD fresh))
      else Table.lookup other xs := by
  induction xs with
  | nil =>
    by_cases h : other = key
    · simp [Ascending.modify, Table.lookup, h]
    · simp [Ascending.modify, Table.lookup, h, Ne.symm h]
  | cons x xs ih =>
    obtain ⟨k, v⟩ := x
    obtain ⟨hhead, htail⟩ := List.pairwise_cons.mp hxs
    simp only [Ascending.modify]
    split
    · next hk =>
      subst hk
      by_cases h : other = k
      · simp [Table.lookup, h]
      · simp [Table.lookup, h, Ne.symm h]
    · next hk =>
      split
      · next hlt =>
        -- the key is missing: all keys of the list are greater
        have hmissing : Table.lookup key xs = none := by
          cases hfound : Table.lookup key xs with
          | none => rfl
          | some w =>
            have := hhead _ (Table.mem_of_lookup hfound)
            simp only at this
            omega
        by_cases h : other = key
        · simp [Table.lookup, h, hk, hmissing]
        · simp [Table.lookup, h, Ne.symm h]
      · simp only [Table.lookup, ih htail, if_neg hk]
        by_cases h : other = key
        · simp [h, hk]
        · simp [h]

/-- The source positions recorded for a generated line and column. -/
def Map.recorded (m : Map) (line column : Nat) : List SourcePoint :=
  ((Table.lookup line m.lines).bind (Table.lookup column)).getD []

theorem Map.recorded_insert {m : Map} (hm : m.WellFormed) (line column line' column' : Nat)
    (o : SourcePoint) :
    (m.insert line column o).recorded line' column' =
      m.recorded line' column' ++ if line = line' ∧ column = column' then [o] else [] := by
  have hcolumns : Ascending.Sorted ((Table.lookup line m.lines).getD []) := by
    cases hfound : Table.lookup line m.lines with
    | none => exact List.Pairwise.nil
    | some columns => exact (hm.fits _ (Table.mem_of_lookup hfound)).2.2.sorted
  unfold Map.recorded Map.insert
  rw [lookup_modify hm.sorted]
  by_cases hline : line' = line
  · subst hline
    rw [if_pos rfl, Option.bind_some, lookup_modify hcolumns]
    by_cases hcolumn : column' = column
    · subst hcolumn
      cases hfound : Table.lookup line' m.lines <;> simp [Table.lookup]
    · rw [if_neg hcolumn, if_neg (fun h => hcolumn h.2.symm), List.append_nil]
      cases hfound : Table.lookup line' m.lines <;> simp [Table.lookup]
  · rw [if_neg hline, if_neg (fun h => hline h.1.symm), List.append_nil]

theorem Map.candidates_of_recorded {m : Map} {line column : Nat}
    (h : m.recorded line column ≠ []) : m.candidates line column = m.recorded line column := by
  unfold Map.recorded at h ⊢
  unfold Map.candidates
  cases hline : Table.lookup line m.lines with
  | none => simp [hline] at h
  | some columns =>
    cases hcolumn : Table.lookup column columns with
    | none => simp [hline, hcolumn] at h
    | some found => simp [hcolumn]

/-- The mapping as a source position of the first source. -/
def pointOf (g : Mapping) : SourcePoint := ⟨0, g.srcLine, g.srcColumn, g.name⟩

theorem Map.ofMappings_concat (source : String) (mappings : List Mapping) (g : Mapping) :
    Map.ofMappings source (mappings ++ [g]) =
      (Map.ofMappings source mappings).insert g.genLine g.genColumn (pointOf g) := by
  rw [Map.ofMappings, List.foldl_append]
  rfl

/-- A map of mappings keeps those of one place in their order. -/
theorem Map.recorded_ofMappings (source : String) {mappings : List Mapping}
    (h : ∀ g ∈ mappings, MappingFits g) (line column : Nat) :
    (Map.ofMappings source mappings).recorded line column =
      (mappings.filter fun g => g.genLine = line ∧ g.genColumn = column).map pointOf := by
  induction mappings using List.reverseRecOn with
  | nil => rfl
  | append_singleton rest g ih =>
    have hrest : ∀ g ∈ rest, MappingFits g := fun e he => h e (by simp [he])
    rw [Map.ofMappings_concat, Map.recorded_insert (Map.wellFormed_ofMappings source hrest),
      ih hrest,
      List.filter_append, List.map_append]
    by_cases hplace : g.genLine = line ∧ g.genColumn = column <;> simp [hplace]

/-- A map finds the last of the mappings of a place. -/
theorem locate_inlineMap (fileName sourceName : String) {mappings : List Mapping}
    (h : ∀ g ∈ mappings, MappingFits g) {line column : Nat} {g : Mapping}
    (hlast : (mappings.filter fun g => g.genLine = line ∧ g.genColumn = column).getLast? =
      some g) :
    (inlineMap fileName sourceName mappings).locate ⟨line + 1, column + 1⟩ =
      .ofZeroBased g.srcLine g.srcColumn := by
  obtain ⟨hmem, hplace⟩ := List.mem_filter.mp (List.mem_of_getLast? hlast)
  obtain ⟨rfl, rfl⟩ := of_decide_eq_true hplace
  have hzero : Position.zeroBased ⟨g.genLine + 1, g.genColumn + 1⟩ = (g.genLine, g.genColumn) := by
    simp [Position.zeroBased, Nat.mod_eq_of_lt (h g hmem).genLine,
      Nat.mod_eq_of_lt (h g hmem).genColumn]
  have hrecorded : (inlineMap fileName sourceName mappings).recorded g.genLine g.genColumn =
      (mappings.filter fun e => e.genLine = g.genLine ∧ e.genColumn = g.genColumn).map pointOf :=
    Map.recorded_ofMappings sourceName h g.genLine g.genColumn
  have hpoint : ((inlineMap fileName sourceName mappings).recorded g.genLine
      g.genColumn).getLast? = some (pointOf g) := by
    rw [hrecorded, List.getLast?_map, hlast]
    rfl
  have hne : (inlineMap fileName sourceName mappings).recorded g.genLine g.genColumn ≠ [] :=
    List.ne_nil_of_mem (List.mem_of_getLast? hpoint)
  rw [Map.locate, hzero]
  simp only [Map.candidates_of_recorded hne, hpoint]
  rfl

/-! ## How many names a map writes -/

theorem length_nameIndex_le (names : List String) (name : String) :
    (nameIndex names name).2.length ≤ names.length + 1 := by
  unfold nameIndex
  split <;> simp

theorem Writer.length_names_segment (w : Writer) (delta : Int) (o : SourcePoint) :
    (w.segment delta o).2.names.length ≤ w.names.length + 1 := by
  unfold Writer.segment
  cases o.name with
  | none => simp
  | some name => exact length_nameIndex_le w.names name

theorem Writer.length_names_column (w : Writer) (before column : Nat) (os : List SourcePoint) :
    (w.column before column os).2.names.length ≤ w.names.length + os.length := by
  induction os generalizing w before with
  | nil => simp [Writer.column]
  | cons o os ih =>
    have hfirst := w.length_names_segment ((column : Int) - before) o
    have hrest := ih (w.segment ((column : Int) - before) o).2 column
    simp only [Writer.column, List.length_cons]
    omega

/-- How many source positions the columns of a line have. -/
def columnsSize (columns : Ascending (List SourcePoint)) : Nat :=
  (columns.map fun c => c.2.length).sum

def Map.size (m : Map) : Nat := (m.lines.map fun l => columnsSize l.2).sum

theorem Writer.length_names_line (w : Writer) (before : Nat)
    (columns : Ascending (List SourcePoint)) :
    (w.line before columns).2.names.length ≤ w.names.length + columnsSize columns := by
  induction columns generalizing w before with
  | nil => simp [Writer.line]
  | cons c columns ih =>
    obtain ⟨column, os⟩ := c
    have hfirst := w.length_names_column before column os
    have hrest := ih (w.column before column os).2 column
    simp only [columnsSize, List.map_cons, List.sum_cons] at hrest ⊢
    simp only [Writer.line]
    omega

theorem Writer.length_names_lines (w : Writer) (start : Nat)
    (lines : Ascending (Ascending (List SourcePoint))) :
    (w.lines start lines).2.names.length ≤
      w.names.length + (lines.map fun l => columnsSize l.2).sum := by
  induction lines generalizing w start with
  | nil => simp [Writer.lines]
  | cons l lines ih =>
    obtain ⟨line, columns⟩ := l
    have hfirst := w.length_names_line 0 columns
    have hrest := ih (w.line 0 columns).2 (line + 1)
    simp only [List.map_cons, List.sum_cons]
    simp only [Writer.lines]
    omega

theorem Map.length_names_le (m : Map) : m.mappingText.1.length ≤ m.size := by
  have h := (Writer.mk .zero []).length_names_lines 0 m.lines
  rw [List.length_nil, Nat.zero_add] at h
  exact h

theorem sum_modify {α : Type} {fresh : α} {key : Nat} {f : α → α} (weight : α → Nat)
    (hfresh : weight fresh = 0) (hf : ∀ v, weight (f v) = weight v + 1) (xs : Ascending α) :
    ((Ascending.modify fresh key f xs).map fun x => weight x.2).sum =
      (xs.map fun x => weight x.2).sum + 1 := by
  induction xs with
  | nil => simp [Ascending.modify, hf, hfresh]
  | cons x xs ih =>
    obtain ⟨k, v⟩ := x
    simp only [Ascending.modify]
    repeat' split
    · simp only [List.map_cons, List.sum_cons, hf]
      omega
    · simp only [List.map_cons, List.sum_cons, hf, hfresh]
      omega
    · simp only [List.map_cons, List.sum_cons, ih]
      omega

theorem Map.size_insert (m : Map) (line column : Nat) (o : SourcePoint) :
    (m.insert line column o).size = m.size + 1 := by
  have hcolumns : ∀ columns, columnsSize (Ascending.modify [] column (· ++ [o]) columns) =
      columnsSize columns + 1 :=
    fun columns => sum_modify List.length rfl (by simp) columns
  exact sum_modify columnsSize rfl hcolumns m.lines

theorem Map.size_ofMappings (source : String) (mappings : List Mapping) :
    (Map.ofMappings source mappings).size = mappings.length := by
  induction mappings using List.reverseRecOn with
  | nil => rfl
  | append_singleton rest g ih =>
    rw [Map.ofMappings_concat, Map.size_insert, ih, List.length_append, List.length_singleton]

/-! ## Inline maps -/

/-- What stands behind the last comma of a comment. -/
def payload (comment : String) : List Char := (comment.toList.reverse.takeWhile (· ≠ ',')).reverse

/-- The source map in a comment, decoded and read. -/
def commentMap? (comment : String) : Option Map := do
  let bytes ← Base64.decodeBytes? (payload comment)
  let json ← Utf8.decode? bytes
  (Map.ofJson json).toOption

theorem decode?_payload (front text : String) :
    (Base64.decodeBytes? (payload (front ++ "," ++ Base64.encode text))).bind Utf8.decode? =
      some text := by
  have hletters : ∀ c ∈ (Base64.encodeBytes text.toUTF8.toList).reverse, decide (c ≠ ',') := by
    intro c hc
    have hcomma := Base64.not_mem_encodeBytes (c := ',') (by decide) (by decide)
      text.toUTF8.toList
    exact decide_eq_true fun h => hcomma (h ▸ List.mem_reverse.mp hc)
  have hcomment : (front ++ "," ++ Base64.encode text).toList.reverse =
      (Base64.encodeBytes text.toUTF8.toList).reverse ++ ',' :: front.toList.reverse := by
    simp [Base64.encode]
  have hpayload : payload (front ++ "," ++ Base64.encode text) =
      Base64.encodeBytes text.toUTF8.toList := by
    rw [payload, hcomment, List.takeWhile_append_of_pos hletters]
    simp
  rw [hpayload, Base64.decodeBytes?_encodeBytes, Option.bind_some]
  exact Utf8.decode?_encode text

/-- The map of a script is found again in its comment. -/
theorem commentMap?_inlineComment (fileName sourceName sourceText : String)
    {mappings : List Mapping} (hfits : ∀ g ∈ mappings, MappingFits g)
    (hcount : mappings.length < 2 ^ 62) (formLine : Nat) :
    commentMap? (inlineComment fileName sourceName sourceText mappings formLine) =
      some (inlineMap fileName sourceName mappings) := by
  have hwell : (inlineMap fileName sourceName mappings).WellFormed :=
    (Map.wellFormed_ofMappings sourceName hfits).named _ _
  have hnames : (inlineMap fileName sourceName mappings).mappingText.1.length < 2 ^ 62 := by
    have hle := (inlineMap fileName sourceName mappings).length_names_le
    have hsize : (inlineMap fileName sourceName mappings).size = mappings.length :=
      Map.size_ofMappings sourceName mappings
    omega
  obtain ⟨p, hread⟩ := Map.addLines_mappingText hwell hnames
  have hjson : Map.ofJson (inlineJson fileName sourceName sourceText mappings formLine) =
      .ok (inlineMap fileName sourceName mappings) := by
    unfold Map.ofJson inlineJson
    rw [Map.toJson_eq, Json.parse_render (Map.floatFree_members _ _ _), Option.bind_some,
      Map.fields_members _ (by simp [Nat.mod_lt, bound32])]
    simp only [ne_eq, not_true_eq_false, if_false]
    rw [hread]
  have hcomment : inlineComment fileName sourceName sourceText mappings formLine =
      ("\n//# sourceURL=" ++ fileName ++
        "\n//# sourceMappingURL=data:application/json;base64") ++ "," ++
        Base64.encode (inlineJson fileName sourceName sourceText mappings formLine) := by
    have hcomma : "\n//# sourceMappingURL=data:application/json;base64," =
        "\n//# sourceMappingURL=data:application/json;base64" ++ "," := by decide +kernel
    delta inlineComment
    rw [hcomma]
    simp only [String.append_assoc]
  have hdecode := decode?_payload ("\n//# sourceURL=" ++ fileName ++
    "\n//# sourceMappingURL=data:application/json;base64")
    (inlineJson fileName sourceName sourceText mappings formLine)
  rw [← hcomment] at hdecode
  obtain ⟨bytes, hbytes, htext⟩ := Option.bind_eq_some_iff.mp hdecode
  simp only [commentMap?, hbytes, htext, hjson, Option.bind_eq_bind, Option.bind_some]
  rfl

/-- Every line and column of the source counts from one and fits in 32 bits. -/
def Positioned (a : Ast) : Prop :=
  ∀ e ∈ nodes a, 0 < e.2.pos.line ∧ e.2.pos.line < bound32 ∧
    0 < e.2.pos.column ∧ e.2.pos.column < bound32

/-- The map in the comment of a script points from the beginning of every node back to the last node
that begins there.  Generated lines and columns are counted in 32 bits, and the nodes lie in one
address space. -/
theorem locate_inlineComment {a : Ast} (hpos : Positioned a)
    (hplaces : ∀ g ∈ (emit true a).mappings, g.genLine < bound32 ∧ g.genColumn < bound32)
    (hcount : (nodes a).length < 2 ^ 61) (fileName sourceName sourceText : String)
    (formLine : Nat) :
    ∃ map, commentMap? (inlineComment fileName sourceName sourceText (emit true a).mappings
        formLine) = some map ∧
      ∀ e ∈ nodes a, ∃ last, lastAt a (placeOf e.1) = some last ∧
        map.locate ⟨(placeOf e.1).line + 1, (placeOf e.1).column + 1⟩ = last.pos := by
  have hfits : ∀ g ∈ (emit true a).mappings, MappingFits g := by
    intro g hg
    have hsource : g.srcLine < bound32 ∧ g.srcColumn < bound32 := by
      rw [mappings_emit] at hg
      obtain ⟨m, -, rfl⟩ := List.mem_map.mp hg
      exact ⟨Nat.mod_lt _ (by decide), Nat.mod_lt _ (by decide)⟩
    exact ⟨(hplaces g hg).1, (hplaces g hg).2, hsource.1, hsource.2⟩
  refine ⟨_, commentMap?_inlineComment fileName sourceName sourceText hfits ?_ formLine, ?_⟩
  · have hle := length_mappings_le a
    omega
  · intro e he
    obtain ⟨last, hlast, before, hmem⟩ := exists_lastAt he
    have hmapping := getLast?_mappings he
    rw [hlast, Option.map_some] at hmapping
    obtain ⟨g, hg, hsource⟩ := Option.map_eq_some_iff.mp hmapping
    obtain ⟨hline, hline', hcolumn, hcolumn'⟩ := hpos _ hmem
    refine ⟨last, hlast, ?_⟩
    rw [locate_inlineMap fileName sourceName hfits hg, (Prod.mk.inj hsource).1,
      (Prod.mk.inj hsource).2]
    exact Position.ofZeroBased_zeroBased hline hcolumn (Nat.le_of_lt hline') (Nat.le_of_lt hcolumn')

/-- The call `(foo 1)` on the third line of a source. -/
def sampleCall : Ast :=
  .invoke ⟨3, 1⟩ (.var ⟨3, 2⟩ "cljs.user" "foo") [.const ⟨3, 6⟩ (.atom ⟨3, 6⟩ (.int 1))]

/-- Where a call begins its callee begins too, and the map points to the callee. -/
theorem locate_inlineComment_callee :
    ∃ map, commentMap? (inlineComment "repl-1.js" "repl-1.cljs" "(foo 1)"
        (emit true sampleCall).mappings 3) = some map ∧ map.locate ⟨1, 1⟩ = ⟨3, 2⟩ := by
  have hnodes : nodes sampleCall =
      [([], sampleCall), ([], .var ⟨3, 2⟩ "cljs.user" "foo"),
        ("cljs.user.foo.call(null, ".toList, .const ⟨3, 6⟩ (.atom ⟨3, 6⟩ (.int 1)))] := by
    have hcallee : chars (.var ⟨3, 2⟩ "cljs.user" "foo") = "cljs.user.foo".toList := by
      decide +kernel
    rw [nodes, nodesFrom_eq]
    simp only [sampleCall, template, offsets, afterCommas, hcallee, List.flatMap_cons,
      List.flatMap_nil, List.cons_append, List.nil_append, List.append_nil]
    rw [nodesFrom_of_parts_eq_nil _ rfl, nodesFrom_of_parts_eq_nil _ rfl]
    rfl
  have hpos : Positioned sampleCall := by
    intro e he
    rw [hnodes] at he
    simp only [List.mem_cons, List.not_mem_nil, or_false] at he
    rcases he with rfl | rfl | rfl <;> decide
  obtain ⟨map, hmap, hlocate⟩ := locate_inlineComment hpos (by decide +kernel)
    (by rw [hnodes]; decide) "repl-1.js" "repl-1.cljs" "(foo 1)" 3
  refine ⟨map, hmap, ?_⟩
  obtain ⟨last, hlast, hpos⟩ := hlocate ([], sampleCall) (by simp [hnodes])
  have hcallee : lastAt sampleCall (placeOf []) = some (.var ⟨3, 2⟩ "cljs.user" "foo") := by
    rw [lastAt, hnodes]
    rfl
  rw [hcallee] at hlast
  rw [← Option.some.inj hlast] at hpos
  exact hpos

end LiveLisp.SourceMap
