import LiveLisp.Proofs.Json.RoundTrip
import LiveLisp.Proofs.SourceMap.Vlq
import LiveLisp.Proofs.SourceMap.WellFormed
/-!
# Source maps survive their JSON text

The reader of mappings follows the writer segment by segment: both hold the same absolute values,
and the map that has been read is the part of the map that has been written.  The lemmas climb
from one segment over the columns of a line to all lines, and then to the fields of the file.
-/

namespace LiveLisp.SourceMap

open Text
open Json (Datum Value)
open Script (Mapping)

/-! ## Pieces between marks -/

theorem not_mem_intercalate {mark other : Char} (hother : mark ≠ other)
    {pieces : List (List Char)} (h : ∀ piece ∈ pieces, mark ∉ piece) :
    mark ∉ [other].intercalate pieces := by
  induction pieces with
  | nil => simp
  | cons piece rest ih =>
    have hpiece : mark ∉ piece := h piece (by simp)
    cases rest with
    | nil => rwa [List.intercalate_singleton]
    | cons next rest =>
      have hrest := ih (fun p hp => h p (by simp [hp]))
      rw [List.intercalate_cons_cons]
      simp [hpiece, hother, hrest]

/-! ## The end of a map under construction -/

section Entry

variable {α : Type}

/-- The entry of a key, which is there only if it holds something. -/
def entryOf (key : Nat) (items : List α) : Ascending (List α) :=
  if items = [] then [] else [(key, items)]

@[simp] theorem entryOf_nil (key : Nat) : entryOf key ([] : List α) = [] := rfl

theorem entryOf_of_ne_nil {key : Nat} {items : List α} (h : items ≠ []) :
    entryOf key items = [(key, items)] := if_neg h

/-- Changing the last entry, or adding it. -/
theorem modify_entryOf {xs : Ascending (List α)} {key : Nat} (hxs : ∀ e ∈ xs, e.1 < key)
    {f : List α → List α} {items : List α} (hf : f items ≠ []) :
    Ascending.modify [] key f (xs ++ entryOf key items) = xs ++ entryOf key (f items) := by
  rw [Ascending.modify_append hxs, entryOf_of_ne_nil hf]
  by_cases hitems : items = []
  · subst hitems
    rfl
  · rw [entryOf_of_ne_nil hitems]
    simp [Ascending.modify]

end Entry

/-- Recording a position at the last column of the last line. -/
theorem Map.insert_last (file : Option String) (sources : List String)
    {done : Ascending (Ascending (List SourcePoint))} {line : Nat} (hdone : ∀ e ∈ done, e.1 < line)
    {columns : Ascending (List SourcePoint)} {column : Nat} (hcolumns : ∀ e ∈ columns, e.1 < column)
    (os : List SourcePoint) (o : SourcePoint) :
    (Map.mk file sources (done ++ entryOf line (columns ++ entryOf column os))).insert
        line column o =
      ⟨file, sources, done ++ entryOf line (columns ++ entryOf column (os ++ [o]))⟩ := by
  have hinner : Ascending.modify [] column (· ++ [o]) (columns ++ entryOf column os) =
      columns ++ entryOf column (os ++ [o]) := modify_entryOf hcolumns (by simp)
  have hne : columns ++ entryOf column (os ++ [o]) ≠ [] := by
    rw [entryOf_of_ne_nil (by simp)]
    simp
  rw [Map.insert, modify_entryOf hdone (by rw [hinner]; exact hne), hinner]

/-! ## Names -/

theorem prefix_nameIndex (names : List String) (name : String) :
    names <+: (nameIndex names name).2 := by
  unfold nameIndex
  split
  · exact List.prefix_refl names
  · exact List.prefix_append names [name]

theorem getElem?_nameIndex (names : List String) (name : String) :
    (nameIndex names name).2[(nameIndex names name).1]? = some name := by
  unfold nameIndex
  split
  · next i hi =>
    obtain ⟨hlt, hname, -⟩ := List.findIdx?_eq_some_iff_getElem.mp hi
    rw [List.getElem?_eq_getElem hlt]
    simpa using hname
  · simp

/-- In a longer list of names the index still finds the name. -/
theorem nameAt?_nameIndex {names all : List String} {name : String}
    (h : (nameIndex names name).2 <+: all) :
    nameAt? all ((nameIndex names name).1 : Nat) = some name := by
  obtain ⟨more, rfl⟩ := h
  have hget := getElem?_nameIndex names name
  obtain ⟨hlt, -⟩ := List.getElem?_eq_some_iff.mp hget
  simp [nameAt?, List.getElem?_append_left hlt, hget]

theorem nameIndex_lt {names all : List String} {name : String}
    (h : (nameIndex names name).2 <+: all) : (nameIndex names name).1 < all.length := by
  have hget := getElem?_nameIndex names name
  obtain ⟨hlt, -⟩ := List.getElem?_eq_some_iff.mp hget
  exact Nat.lt_of_lt_of_le hlt h.length_le

/-! ## One segment -/

/-- The values that a segment is relative to fit in words. -/
structure Previous.Fits (p : Previous) : Prop where
  source : 0 ≤ p.source ∧ p.source < bound32
  line : 0 ≤ p.line ∧ p.line < bound32
  column : 0 ≤ p.column ∧ p.column < bound32
  name : 0 ≤ p.name ∧ p.name < 2 ^ 62

theorem Previous.fits_zero : Previous.zero.Fits := by
  constructor <;> decide

/-- The numbers of a segment. -/
def Writer.values (w : Writer) (delta : Int) (o : SourcePoint) : List Int :=
  let p := w.previous
  [delta, o.source - p.source, o.line - p.line, o.column - p.column] ++
    o.name.toList.map fun name => ((nameIndex w.names name).1 : Int) - p.name

theorem Writer.segment_fst (w : Writer) (delta : Int) (o : SourcePoint) :
    (w.segment delta o).1 = encodeAll (w.values delta o) := by
  unfold Writer.segment Writer.values encodeAll
  cases hname : o.name <;> simp

/-- What the writer holds after a segment. -/
theorem Writer.segment_previous (w : Writer) (delta : Int) (o : SourcePoint) :
    (w.segment delta o).2.previous = ⟨o.source, o.line, o.column,
      match o.name with
      | none => w.previous.name
      | some name => (nameIndex w.names name).1⟩ := by
  unfold Writer.segment
  cases o.name <;> rfl

theorem Writer.segment_names (w : Writer) (delta : Int) (o : SourcePoint) :
    (w.segment delta o).2.names =
      match o.name with
      | none => w.names
      | some name => (nameIndex w.names name).2 := by
  unfold Writer.segment
  cases o.name <;> rfl

theorem Writer.prefix_segment (w : Writer) (delta : Int) (o : SourcePoint) :
    w.names <+: (w.segment delta o).2.names := by
  rw [Writer.segment_names]
  split
  · exact List.prefix_refl w.names
  · exact prefix_nameIndex w.names _

theorem addWord_sub {a b : Int} (hb : 0 ≤ b) (hb' : b < 2 ^ 62) : addWord a (b - a) = b := by
  unfold addWord bound64
  rw [show a + (b - a) = b by omega, Int.bmod_eq_of_le] <;> omega

theorem addWord_zero {a : Int} (ha : 0 ≤ a) (ha' : a < 2 ^ 62) : addWord a 0 = a := by
  unfold addWord bound64
  rw [Int.add_zero, Int.bmod_eq_of_le] <;> omega

theorem word32_of_lt {n : Nat} (hn : n < bound32) : word32 n = n := by
  unfold word32
  unfold bound32 at *
  omega

section Segment

variable {names : List String} {w : Writer} {o : SourcePoint} {delta : Int}

theorem Previous.fits_segment (hw : w.previous.Fits) (ho : o.Fits)
    (hnames : (w.segment delta o).2.names <+: names) (hsize : names.length < 2 ^ 62) :
    (w.segment delta o).2.previous.Fits := by
  obtain ⟨hsource, hline, hcolumn⟩ := ho
  rw [Writer.segment_names] at hnames
  rw [Writer.segment_previous]
  refine ⟨⟨by simp, by simpa using hsource⟩, ⟨by simp, by simpa using hline⟩,
    ⟨by simp, by simpa using hcolumn⟩, ?_⟩
  cases hname : o.name with
  | none => exact hw.name
  | some name =>
    rw [hname] at hnames
    have hlt := nameIndex_lt hnames
    simp only
    omega

theorem Writer.values_lt (hw : w.previous.Fits) (ho : o.Fits)
    (hnames : (w.segment delta o).2.names <+: names) (hsize : names.length < 2 ^ 62)
    (hdelta : delta.natAbs < 2 ^ 62) : ∀ v ∈ w.values delta o, v.natAbs < 2 ^ 62 := by
  obtain ⟨hs, hl, hc, hn⟩ := hw
  obtain ⟨hsource, hline, hcolumn⟩ := ho
  rw [Writer.segment_names] at hnames
  unfold bound32 at *
  intro v hv
  simp only [Writer.values, List.cons_append, List.nil_append, List.mem_cons, List.mem_map] at hv
  rcases hv with rfl | rfl | rfl | rfl | ⟨name, hname, rfl⟩
  · exact hdelta
  · omega
  · omega
  · omega
  · rw [Option.mem_toList] at hname
    rw [hname] at hnames
    have hlt := nameIndex_lt hnames
    omega

/-- The reader's step from the written values to the written position. -/
theorem Previous.step_values (column : Nat) (hw : w.previous.Fits) (ho : o.Fits)
    (hnames : (w.segment delta o).2.names <+: names) (hsize : names.length < 2 ^ 62) :
    w.previous.step names column (o.source - w.previous.source) (o.line - w.previous.line)
        (o.column - w.previous.column)
        (o.name.map fun name => ((nameIndex w.names name).1 : Int) - w.previous.name) =
      .ok ((w.segment delta o).2.previous, o) := by
  obtain ⟨hs, hl, hc, hn⟩ := hw
  obtain ⟨hsource, hline, hcolumn⟩ := ho
  have hwide : ∀ {n : Nat}, n < bound32 → (n : Int) < 2 ^ 62 := by
    intro n hlt
    unfold bound32 at hlt
    omega
  have hpositive : ¬ ((column : Int) < 0 ∨ (o.source : Int) < 0 ∨ (o.line : Int) < 0 ∨
      (o.column : Int) < 0) := by
    omega
  have hwords : SourcePoint.mk (word32 o.source) (word32 o.line) (word32 o.column) o.name = o := by
    rw [word32_of_lt hsource, word32_of_lt hline, word32_of_lt hcolumn]
  rw [Writer.segment_names] at hnames
  rw [Writer.segment_previous]
  unfold Previous.step
  simp only [addWord_sub (Int.natCast_nonneg o.source) (hwide hsource),
    addWord_sub (Int.natCast_nonneg o.line) (hwide hline),
    addWord_sub (Int.natCast_nonneg o.column) (hwide hcolumn)]
  cases hname : o.name with
  | none =>
    rw [hname] at hwords
    simp only [Option.map_none, Option.getD_none, addWord_zero hn.1 hn.2, hpositive, if_false,
      hwords]
  | some name =>
    rw [hname] at hwords hnames
    have hlt := nameIndex_lt hnames
    have hidx : ((nameIndex w.names name).1 : Int) < 2 ^ 62 := by omega
    simp only [Option.map_some, Option.getD_some, addWord_sub (Int.natCast_nonneg _) hidx,
      nameAt?_nameIndex hnames, hpositive, if_false, hwords]

/-- Taking in the numbers of a segment records the position that was written. -/
theorem Builder.addValues_values (map : Map) {line before column : Nat} (hline : line < bound32)
    (hcolumn : column < bound32) (hw : w.previous.Fits) (ho : o.Fits)
    (hnames : (w.segment (column - before) o).2.names <+: names) (hsize : names.length < 2 ^ 62) :
    (Builder.mk map w.previous).addValues names line before (w.values (column - before) o) =
      .ok (⟨map.insert line column o, (w.segment (column - before) o).2.previous⟩,
        (column : Int)) := by
  have hstep := Previous.step_values column hw ho hnames hsize
  have hdelta : addWord before (column - before) = column := by
    apply addWord_sub (Int.natCast_nonneg column)
    unfold bound32 at hcolumn
    omega
  have hplace : ∀ name, (o.name.map fun name =>
      ((nameIndex w.names name).1 : Int) - w.previous.name) = name →
      (Builder.mk map w.previous).place names line column (o.source - w.previous.source)
        (o.line - w.previous.line) (o.column - w.previous.column) name =
      .ok (⟨map.insert line column o, (w.segment (column - before) o).2.previous⟩,
        (column : Int)) := by
    rintro name rfl
    simp only [Builder.place, hstep, Nat.mod_eq_of_lt hline, word32_of_lt hcolumn]
  unfold Writer.values
  cases hname : o.name with
  | none =>
    simp only [Option.toList_none, List.map_nil, List.append_nil, Builder.addValues, hdelta]
    exact hplace none (by rw [hname]; rfl)
  | some name =>
    simp only [Option.toList_some, List.map_cons, List.map_nil, List.cons_append, List.nil_append,
      Builder.addValues, hdelta]
    exact hplace _ (by rw [hname]; rfl)

end Segment

/-! ## Columns, lines, and all lines

Each statement comes in two parts: names are only added at the end, and the reader ends where the
writer does.
-/

theorem Writer.prefix_column (w : Writer) (before column : Nat) (os : List SourcePoint) :
    w.names <+: (w.column before column os).2.names := by
  induction os generalizing w before with
  | nil => exact List.prefix_refl w.names
  | cons o os ih =>
    have hsegment := w.prefix_segment ((column : Int) - before) o
    exact hsegment.trans (ih (w.segment ((column : Int) - before) o).2 column)

theorem Writer.prefix_line (w : Writer) (before : Nat) (columns : Ascending (List SourcePoint)) :
    w.names <+: (w.line before columns).2.names := by
  induction columns generalizing w before with
  | nil => exact List.prefix_refl w.names
  | cons c columns ih =>
    obtain ⟨column, os⟩ := c
    have hcolumn := w.prefix_column before column os
    exact hcolumn.trans (ih (w.column before column os).2 column)

theorem Writer.prefix_lines (w : Writer) (start : Nat)
    (lines : Ascending (Ascending (List SourcePoint))) :
    w.names <+: (w.lines start lines).2.names := by
  induction lines generalizing w start with
  | nil => exact List.prefix_refl w.names
  | cons l lines ih =>
    obtain ⟨line, columns⟩ := l
    have hline := w.prefix_line 0 columns
    exact hline.trans (ih (w.line 0 columns).2 (line + 1))

theorem encodeAll_values_ne_nil (w : Writer) (delta : Int) (o : SourcePoint) :
    encodeAll (w.values delta o) ≠ [] := by
  have hne := letters_ne_nil (zigzag delta)
  simp only [Writer.values, encodeAll, List.cons_append, List.flatMap_cons, ne_eq,
    List.append_eq_nil_iff, not_and]
  exact fun h => absurd h hne

section Run

variable {names : List String} {done : Ascending (Ascending (List SourcePoint))} {line : Nat}

/-- Reading one written segment. -/
theorem Builder.addSegments_segment (map : Map) {w : Writer} {o : SourcePoint}
    {before column : Nat} (hline : line < bound32) (hbefore : before < bound32)
    (hcolumn : column < bound32) (hw : w.previous.Fits) (ho : o.Fits)
    (hnames : (w.segment (column - before) o).2.names <+: names) (hsize : names.length < 2 ^ 62)
    (more : List (List Char)) :
    (Builder.mk map w.previous).addSegments names line before
        ((w.segment (column - before) o).1 :: more) =
      (Builder.mk (map.insert line column o)
        (w.segment (column - before) o).2.previous).addSegments names line column more := by
  have hdelta : ((column : Int) - before).natAbs < 2 ^ 62 := by
    unfold bound32 at *
    omega
  have hdecode := decodeSegment_encodeAll (Writer.values_lt hw ho hnames hsize hdelta)
  have hvalues := Builder.addValues_values map hline hcolumn hw ho hnames hsize
  have hne := encodeAll_values_ne_nil w ((column : Int) - before) o
  rw [Writer.segment_fst, Builder.addSegments, if_neg (by simpa using hne)]
  simp only [hdecode, hvalues]

/-- Reading the written segments of a column. -/
theorem Builder.addSegments_column (file : Option String) (sources : List String)
    (hline : line < bound32) (hdone : ∀ e ∈ done, e.1 < line) (hsize : names.length < 2 ^ 62)
    {columns : Ascending (List SourcePoint)} {column : Nat} (hcolumn : column < bound32)
    (hcolumns : ∀ e ∈ columns, e.1 < column)
    {w : Writer} {before : Nat} (seen : List SourcePoint) {os : List SourcePoint}
    (hbefore : before < bound32)
    (hos : ∀ o ∈ os, o.Fits) (hw : w.previous.Fits)
    (hnames : (w.column before column os).2.names <+: names) (more : List (List Char)) :
    (w.column before column os).2.previous.Fits ∧
      (Builder.mk ⟨file, sources, done ++ entryOf line (columns ++ entryOf column seen)⟩
          w.previous).addSegments names line before ((w.column before column os).1 ++ more) =
        (Builder.mk ⟨file, sources, done ++ entryOf line (columns ++ entryOf column (seen ++ os))⟩
          (w.column before column os).2.previous).addSegments names line
          (if os = [] then before else column : Nat) more := by
  induction os generalizing w before seen with
  | nil =>
    rw [List.append_nil]
    exact ⟨hw, rfl⟩
  | cons o os ih =>
    have ho : o.Fits := hos o (by simp)
    have hrest : (w.segment ((column : Int) - before) o).2.names <+: names :=
      (Writer.prefix_column _ column column os).trans hnames
    have hfits := Previous.fits_segment hw ho hrest hsize
    obtain ⟨hlast, hread⟩ := ih (seen ++ [o]) hcolumn
      (fun p hp => hos p (by simp [hp])) hfits hnames
    refine ⟨hlast, ?_⟩
    have hstep := Builder.addSegments_segment
      ⟨file, sources, done ++ entryOf line (columns ++ entryOf column seen)⟩
      hline hbefore hcolumn hw ho hrest hsize
      (((w.segment ((column : Int) - before) o).2.column column column os).1 ++ more)
    rw [Map.insert_last file sources hdone hcolumns] at hstep
    simp only [Writer.column, List.cons_append]
    rw [hstep, hread]
    simp

/-- Reading the written segments of a line. -/
theorem Builder.addSegments_line (file : Option String) (sources : List String)
    (hline : line < bound32) (hdone : ∀ e ∈ done, e.1 < line) (hsize : names.length < 2 ^ 62)
    {w : Writer} {before : Nat} (seen : Ascending (List SourcePoint))
    {columns : Ascending (List SourcePoint)}
    (hbefore : before < bound32) (hseen : ∀ e ∈ seen, ∀ c ∈ columns, e.1 < c.1)
    (hcolumns : WellFormedColumns columns) (hw : w.previous.Fits)
    (hnames : (w.line before columns).2.names <+: names) :
    (w.line before columns).2.previous.Fits ∧
      (Builder.mk ⟨file, sources, done ++ entryOf line seen⟩ w.previous).addSegments names line
          before (w.line before columns).1 =
        .ok ⟨⟨file, sources, done ++ entryOf line (seen ++ columns)⟩,
          (w.line before columns).2.previous⟩ := by
  induction columns generalizing w before seen with
  | nil =>
    rw [List.append_nil]
    exact ⟨hw, rfl⟩
  | cons c columns ih =>
    obtain ⟨column, os⟩ := c
    obtain ⟨hcolumn, hne, hos⟩ := hcolumns.fits (column, os) (by simp)
    obtain ⟨hhead, htail⟩ := List.pairwise_cons.mp hcolumns.sorted
    have hrest : (w.column before column os).2.names <+: names :=
      (Writer.prefix_line _ column columns).trans hnames
    obtain ⟨hfits, hread⟩ := Builder.addSegments_column file sources
      hline hdone hsize hcolumn (fun e he => hseen e he (column, os) (by simp)) [] hbefore hos hw
      hrest ((w.column before column os).2.line column columns).1
    have hkeys : ∀ e ∈ seen ++ [(column, os)], ∀ c ∈ columns, e.1 < c.1 := by
      intro e he c hc
      rcases List.mem_append.mp he with he | he
      · exact hseen e he c (by simp [hc])
      · rw [List.mem_singleton.mp he]
        exact hhead c hc
    obtain ⟨hlast, hmore⟩ := ih (seen ++ [(column, os)]) hcolumn hkeys
      ⟨htail, fun c hc => hcolumns.fits c (by simp [hc])⟩ hfits hnames
    refine ⟨hlast, ?_⟩
    rw [entryOf_nil, List.append_nil, List.nil_append, entryOf_of_ne_nil hne, if_neg hne] at hread
    simp only [Writer.line]
    rw [hread, hmore]
    simp

end Run

/-! The marks that divide segments and lines stand in no segment. -/

theorem Writer.not_mem_column {mark : Char} (hmark : ∀ n, Base64.letter n ≠ mark) (w : Writer)
    (before column : Nat) (os : List SourcePoint) :
    ∀ segment ∈ (w.column before column os).1, mark ∉ segment := by
  induction os generalizing w before with
  | nil => simp [Writer.column]
  | cons o os ih =>
    intro segment hsegment hmem
    simp only [Writer.column, List.mem_cons] at hsegment
    rcases hsegment with rfl | hsegment
    · rw [Writer.segment_fst] at hmem
      obtain ⟨n, hn⟩ := exists_letter_of_mem_encodeAll hmem
      exact hmark n hn.symm
    · exact ih _ column segment hsegment hmem

theorem Writer.not_mem_line {mark : Char} (hmark : ∀ n, Base64.letter n ≠ mark) (w : Writer)
    (before : Nat) (columns : Ascending (List SourcePoint)) :
    ∀ segment ∈ (w.line before columns).1, mark ∉ segment := by
  induction columns generalizing w before with
  | nil => simp [Writer.line]
  | cons c columns ih =>
    obtain ⟨column, os⟩ := c
    intro segment hsegment
    simp only [Writer.line, List.mem_append] at hsegment
    rcases hsegment with hsegment | hsegment
    · exact w.not_mem_column hmark before column os segment hsegment
    · exact ih _ column segment hsegment

theorem Writer.line_ne_nil {w : Writer} {before : Nat} {columns : Ascending (List SourcePoint)}
    (hne : columns ≠ []) (hcolumns : WellFormedColumns columns) :
    (w.line before columns).1 ≠ [] := by
  obtain ⟨⟨column, os⟩, columns, rfl⟩ := List.exists_cons_of_ne_nil hne
  obtain ⟨-, hos, -⟩ := hcolumns.fits (column, os) (by simp)
  obtain ⟨o, os, rfl⟩ := List.exists_cons_of_ne_nil hos
  simp [Writer.line, Writer.column]

theorem Writer.not_mem_lines (w : Writer) (start : Nat)
    (lines : Ascending (Ascending (List SourcePoint))) :
    ∀ text ∈ (w.lines start lines).1, ';' ∉ text := by
  induction lines generalizing w start with
  | nil => simp [Writer.lines]
  | cons l lines ih =>
    obtain ⟨line, columns⟩ := l
    intro text htext
    simp only [Writer.lines, List.mem_append, List.mem_replicate, List.mem_singleton] at htext
    rcases htext with (⟨-, rfl⟩ | rfl) | htext
    · simp
    · exact not_mem_intercalate (by decide)
        (w.not_mem_line (fun n => (letter_ne_mark n).2) 0 columns)
    · exact ih _ (line + 1) text htext

/-- Lines without segments change nothing. -/
theorem Builder.addLines_replicate (b : Builder) (names : List String) (start count : Nat)
    (more : List (List Char)) :
    b.addLines names start (List.replicate count [] ++ more) =
      b.addLines names (start + count) more := by
  induction count generalizing start with
  | zero => rfl
  | succ count ih =>
    have hempty : b.addSegments names start 0 (List.splitOn ',' []) = .ok b := rfl
    rw [List.replicate_succ, List.cons_append, Builder.addLines, hempty]
    simp only
    rw [ih (start + 1), Nat.add_assoc, Nat.add_comm 1 count]

/-- Reading all written lines. -/
theorem Builder.addLines_lines (file : Option String) (sources : List String)
    {names : List String} (hsize : names.length < 2 ^ 62) {w : Writer} {start : Nat}
    (done : Ascending (Ascending (List SourcePoint)))
    {lines : Ascending (Ascending (List SourcePoint))} (hdone : ∀ e ∈ done, e.1 < start)
    (hstart : ∀ l ∈ lines, start ≤ l.1) (hlines : (Map.mk file sources lines).WellFormed)
    (hw : w.previous.Fits) (hnames : (w.lines start lines).2.names <+: names) :
    (Builder.mk ⟨file, sources, done⟩ w.previous).addLines names start (w.lines start lines).1 =
      .ok ⟨⟨file, sources, done ++ lines⟩, (w.lines start lines).2.previous⟩ := by
  induction lines generalizing w start done with
  | nil =>
    rw [List.append_nil]
    rfl
  | cons l lines ih =>
    obtain ⟨line, columns⟩ := l
    obtain ⟨hline, hne, hcolumns⟩ := hlines.fits (line, columns) (by simp)
    obtain ⟨hhead, htail⟩ := List.pairwise_cons.mp hlines.sorted
    have hle : start ≤ line := hstart (line, columns) (by simp)
    have hbefore : ∀ e ∈ done, e.1 < line := fun e he => Nat.lt_of_lt_of_le (hdone e he) hle
    have hrest : (w.line 0 columns).2.names <+: names :=
      (Writer.prefix_lines _ (line + 1) lines).trans hnames
    obtain ⟨hfits, hread⟩ := Builder.addSegments_line file sources hline hbefore hsize []
      (by decide) (by simp) hcolumns hw hrest
    have hsplit :
        ([','].intercalate (w.line 0 columns).1).splitOn ',' = (w.line 0 columns).1 :=
      List.splitOn_intercalate _ (w.not_mem_line (fun n => (letter_ne_mark n).1) 0 columns)
        (Writer.line_ne_nil hne hcolumns)
    have hkeys : ∀ e ∈ done ++ [(line, columns)], e.1 < line + 1 := by
      intro e he
      rcases List.mem_append.mp he with he | he
      · exact Nat.lt_succ_of_lt (hbefore e he)
      · rw [List.mem_singleton.mp he]
        exact Nat.lt_succ_self line
    have hmore := ih (done ++ [(line, columns)]) hkeys (fun l hl => hhead l hl)
      ⟨htail, fun l hl => hlines.fits l (by simp [hl])⟩ hfits hnames
    rw [entryOf_nil, List.append_nil, List.nil_append, entryOf_of_ne_nil hne] at hread
    simp only [Nat.cast_zero] at hread
    simp only [Writer.lines]
    rw [List.append_assoc, Builder.addLines_replicate, Nat.add_sub_cancel' hle,
      List.singleton_append, Builder.addLines, hsplit, hread]
    simp only
    rw [hmore, List.append_assoc, List.singleton_append]

/-! ## The fields of the file -/

theorem floatFreeItems_map {α : Type} {f : α → Datum} (hf : ∀ x, (f x).FloatFree) (xs : List α) :
    Datum.FloatFreeItems (xs.map f) := by
  induction xs with
  | nil => trivial
  | cons x xs ih => exact ⟨hf x, ih⟩

/-- An array is read item by item as it was written. -/
theorem list?_writtenItems_map {α : Type} {f : α → Datum} {read : Value → Option α}
    (h : ∀ x, read (f x).written = some x) (xs : List α) :
    Value.list? read (.array (Datum.writtenItems (xs.map f))) = some xs := by
  have hitems : (Datum.writtenItems (xs.map f)).mapM read = some xs := by
    induction xs with
    | nil => rfl
    | cons x xs ih => simp [Datum.writtenItems, h x, ih]
  exact hitems

/-- A source text that may be missing. -/
def contentDatum (c : Option String) : Datum := (c.map .str).getD .null

theorem floatFree_contentDatum (c : Option String) : (contentDatum c).FloatFree := by
  cases c <;> trivial

theorem optional?_contentDatum (c : Option String) :
    Value.optional? Value.text? (contentDatum c).written = some c := by
  cases c <;> rfl

theorem nat?_ofInt {n bound : Nat} (hn : n < bound) (hbound : bound ≤ bound64) :
    Value.nat? bound (.number (.ofInt n)) = some n := by
  simp [Value.nat?, Json.NumberText.value?_ofInt (Nat.lt_of_lt_of_le hn hbound), hn]

/-- The members of a written map, in order. -/
def Map.members (m : Map) (lines : Option Nat) (contents : Option (List (Option String))) :
    List (String × Datum) :=
  [("version", .number (.int 3))] ++ (m.file.map fun f => ("file", Datum.str f)).toList ++
    (lines.map fun n => ("lines", Datum.number (.int n))).toList ++
    [("sources", textArray m.sources)] ++
    (contents.map fun cs => ("sourcesContent", Datum.array (cs.map contentDatum))).toList ++
    [("names", textArray m.mappingText.1), ("mappings", .str m.mappingText.2)]

theorem Map.toJson_eq (m : Map) (lines : Option Nat) (contents : Option (List (Option String))) :
    m.toJson lines contents = (Datum.object (m.members lines contents)).render := by
  unfold Map.toJson Map.members contentDatum
  cases m.file <;> cases lines <;> cases contents <;> rfl

theorem Map.floatFree_members (m : Map) (lines : Option Nat)
    (contents : Option (List (Option String))) :
    (Datum.object (m.members lines contents)).FloatFree := by
  have htexts : ∀ xs : List String, Datum.FloatFreeItems (xs.map .str) :=
    floatFreeItems_map fun x => trivial
  have hcontents := floatFreeItems_map floatFree_contentDatum
  unfold Map.members
  cases m.file <;> cases lines <;> cases contents <;>
    simp [Datum.FloatFree, Datum.FloatFreeMembers, textArray, htexts, hcontents]

/-- Each field of a written map is found by its name. -/
theorem Map.record?_members (m : Map) (lines : Option Nat)
    (contents : Option (List (Option String))) :
    (Datum.object (m.members lines contents)).written.record?
        ["version", "file", "lines", "sources", "sourcesContent", "names", "mappings"] =
      some [some (.number (.ofInt 3)), m.file.map fun f => (Datum.str f).written,
        lines.map fun (n : Nat) => .number (.ofInt n), some (textArray m.sources).written,
        contents.map fun cs => (Datum.array (cs.map contentDatum)).written,
        some (textArray m.mappingText.1).written, some (.str (some m.mappingText.2))] := by
  unfold Map.members
  cases m.file <;> cases lines <;> cases contents <;>
    simp [Datum.written, Datum.writtenMembers, Json.NumberText.ofNumber, Value.record?]

theorem Map.fields_members (m : Map) {lines : Option Nat} (hlines : ∀ n ∈ lines, n < bound32)
    (contents : Option (List (Option String))) :
    Fields.ofJson? (Datum.object (m.members lines contents)).written =
      some ⟨3, m.file, m.sources, m.mappingText.1, m.mappingText.2⟩ := by
  have hversion : Value.nat? bound32 (.number (.ofInt 3)) = some 3 :=
    nat?_ofInt (n := 3) (by decide) (by decide)
  have hfile : ((m.file.map fun f => (Datum.str f).written).map
      (Value.optional? Value.text?)).getD (some none) = some m.file := by
    cases m.file <;> rfl
  have hlines : ((lines.map fun (n : Nat) => Value.number (.ofInt n)).map
      (Value.optional? (Value.nat? bound32))).getD (some none) = some lines := by
    cases lines with
    | none => rfl
    | some n => simp [Value.optional?, nat?_ofInt (hlines n rfl) (by decide)]
  have htexts : ∀ xs, Value.list? Value.text? (textArray xs).written = some xs :=
    list?_writtenItems_map fun x => rfl
  have hcontents : ((contents.map fun cs => (Datum.array (cs.map contentDatum)).written).map
      (Value.optional? (Value.list? (Value.optional? Value.text?)))).getD (some none) =
      some contents := by
    cases contents with
    | none => rfl
    | some cs =>
      have hitems := list?_writtenItems_map optional?_contentDatum cs
      simp [Datum.written, Value.optional?, hitems]
  unfold Fields.ofJson?
  simp only [Map.record?_members, Option.bind_eq_bind, Option.bind_some, hversion, hfile, hlines,
    Option.map_some, Option.getD_some, htexts, hcontents]
  rfl

/-! ## Whole maps -/

/-- The mappings of a well-formed map are read back. -/
theorem Map.addLines_mappingText {m : Map} (hm : m.WellFormed)
    (hsize : m.mappingText.1.length < 2 ^ 62) :
    ∃ p, (Builder.mk ⟨m.file, m.sources, []⟩ .zero).addLines m.mappingText.1 0
      (m.mappingText.2.toList.splitOn ';') = .ok ⟨m, p⟩ := by
  have hread := Builder.addLines_lines m.file m.sources hsize (w := ⟨.zero, []⟩) []
    (by simp) (fun l _ => Nat.zero_le l.1) hm Previous.fits_zero (List.prefix_refl _)
  have htext : m.mappingText.2.toList =
      [';'].intercalate ((Writer.mk .zero []).lines 0 m.lines).1 := by
    simp [Map.mappingText]
  rw [htext]
  by_cases hempty : m.lines = []
  · refine ⟨.zero, ?_⟩
    obtain ⟨file, sources, lines⟩ := m
    obtain rfl : lines = [] := hempty
    rfl
  · have hne : ((Writer.mk .zero []).lines 0 m.lines).1 ≠ [] := by
      obtain ⟨⟨line, columns⟩, rest, hcons⟩ := List.exists_cons_of_ne_nil hempty
      simp [hcons, Writer.lines]
    rw [List.splitOn_intercalate _ (Writer.not_mem_lines _ 0 m.lines) hne]
    exact ⟨_, hread⟩

/-- A map that the library can make: from mappings, from JSON, or by giving either another file
name and other sources. -/
inductive Map.Produced : Map → Prop
  | ofMappings (source : String) {mappings : List Mapping} (h : ∀ g ∈ mappings, MappingFits g) :
    Produced (.ofMappings source mappings)
  | ofJson {text : String} {m : Map} (h : Map.ofJson text = .ok m) : Produced m
  | named {m : Map} (h : Produced m) (file : Option String) (sources : List String) :
    Produced ⟨file, sources, m.lines⟩

theorem Map.Produced.wellFormed {m : Map} (h : m.Produced) : m.WellFormed := by
  induction h with
  | ofMappings source h => exact Map.wellFormed_ofMappings source h
  | ofJson h => exact Map.wellFormed_ofJson h
  | named _ file sources ih => exact ih.named file sources

/-- Writing a map and reading the text gives the map.  The names of a map lie in one address space,
so their number is far below the bound that numbers in a segment have. -/
theorem Map.ofJson_toJson {m : Map} (hm : m.Produced) (hnames : m.mappingText.1.length < 2 ^ 62)
    {lines : Option Nat} (hlines : ∀ n ∈ lines, n < bound32)
    (contents : Option (List (Option String))) : Map.ofJson (m.toJson lines contents) = .ok m := by
  have hfree := m.floatFree_members lines contents
  obtain ⟨p, hread⟩ := Map.addLines_mappingText hm.wellFormed hnames
  unfold Map.ofJson
  rw [Map.toJson_eq, Json.parse_render hfree, Option.bind_some, Map.fields_members m hlines]
  simp only [ne_eq, not_true_eq_false, if_false]
  rw [hread]

/-- The mappings of two expressions on two lines, the first of them twice at one column. -/
def sampleMappings : List Mapping :=
  [⟨0, 4, 2, 7, some "f"⟩, ⟨0, 4, 2, 9, none⟩, ⟨3, 0, 1, 0, some "g"⟩]

theorem Map.ofJson_toJson_sample :
    let m : Map := ⟨some "out.js", ["a.cljs", "b.cljs"],
      (Map.ofMappings "a.cljs" sampleMappings).lines⟩
    Map.ofJson (m.toJson (some 4) (some [some "(f)", none])) = .ok m := by
  intro m
  have hfits : ∀ g ∈ sampleMappings, MappingFits g := by
    intro g hg
    simp only [sampleMappings, List.mem_cons, List.not_mem_nil, or_false] at hg
    rcases hg with rfl | rfl | rfl <;> constructor <;> decide
  exact Map.ofJson_toJson ((Map.Produced.ofMappings "a.cljs" hfits).named _ _) (by decide)
    (by simp [bound32]) _

end LiveLisp.SourceMap
