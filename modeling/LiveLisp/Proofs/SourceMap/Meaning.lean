import LiveLisp.Proofs.SourceMap.Inline
import LiveLisp.Proofs.SourceMap.Numerals
import Mathlib.Data.List.Forall2
/-!
# What the mappings of a file mean

The numbers of a segment are differences.  Here they are given their meaning without a reader:
every segment stands after others, and its absolute values are sums over them, those of its line
for the generated column and those of the whole text for all else.  The reader holds just these
sums, so it accepts a text exactly if all sums are in range, and records every position where the
sums put it.
-/

namespace LiveLisp.SourceMap

open Text

/-! ## Segments and their sums -/

/-- The sum of one field over segments; a segment without the field adds nothing. -/
def fieldSum (field : Nat) (segments : List (List Int)) : Int :=
  (segments.map fun values => values.getD field 0).sum

@[simp] theorem fieldSum_nil (field : Nat) : fieldSum field [] = 0 := rfl

theorem fieldSum_concat (field : Nat) (segments : List (List Int)) (values : List Int) :
    fieldSum field (segments ++ [values]) = fieldSum field segments + values.getD field 0 := by
  simp [fieldSum]

/-- The sums of source, line, column and name. -/
def fieldSums (segments : List (List Int)) : Previous :=
  ⟨fieldSum 1 segments, fieldSum 2 segments, fieldSum 3 segments, fieldSum 4 segments⟩

theorem fieldSums_nil : fieldSums [] = .zero := rfl

/-- A segment of a text: its numbers, the number of its line, the segments of the lines before and
those before it on its own line. -/
structure Spot where
  line : Nat
  earlier : List (List Int)
  front : List (List Int)
  values : List Int

namespace Spot

/-- The generated column: it starts over on every line. -/
def genColumn (s : Spot) : Int := fieldSum 0 (s.front ++ [s.values])

/-- The other absolute values, which run through the whole text. -/
def sums (s : Spot) : Previous := fieldSums (s.earlier ++ s.front ++ [s.values])

/-- The segment gives a source position. -/
def IsMapping (s : Spot) : Prop := s.values.length = 4 ∨ s.values.length = 5

instance (s : Spot) : Decidable s.IsMapping := inferInstanceAs (Decidable (_ ∨ _))

/-- The sums are below `2 ^ 32` in absolute value. -/
structure Small (s : Spot) : Prop where
  genColumn : s.genColumn.natAbs < bound32
  source : s.sums.source.natAbs < bound32
  line : s.sums.line.natAbs < bound32
  column : s.sums.column.natAbs < bound32

/-- What is asked of a segment: one, four or five fields, an index of a name, and no negative
position. -/
structure Valid (names : List String) (s : Spot) : Prop where
  fields : s.values.length = 1 ∨ s.IsMapping
  name : s.values.length = 5 → 0 ≤ s.sums.name ∧ s.sums.name < names.length
  position : s.IsMapping →
    0 ≤ s.genColumn ∧ 0 ≤ s.sums.source ∧ 0 ≤ s.sums.line ∧ 0 ≤ s.sums.column

/-- The source position with its absolute values. -/
def point (names : List String) (s : Spot) : SourcePoint where
  source := s.sums.source.toNat
  line := s.sums.line.toNat
  column := s.sums.column.toNat
  name := if s.values.length = 5 then names[s.sums.name.toNat]? else none

/-- Records the position of a segment that has one. -/
def place (names : List String) (m : Map) (s : Spot) : Map :=
  if s.IsMapping then m.insert (s.line % bound32) s.genColumn.toNat (s.point names) else m

end Spot

/-- The segments of one line with what stands before them. -/
def lineSpots (line : Nat) (earlier front : List (List Int)) : List (List Int) → List Spot
  | [] => []
  | values :: rest =>
    ⟨line, earlier, front, values⟩ :: lineSpots line earlier (front ++ [values]) rest

/-- The segments of lines, in the order of the text. -/
def spots (line : Nat) (earlier : List (List Int)) : List (List (List Int)) → List Spot
  | [] => []
  | segments :: rest =>
    lineSpots line earlier [] segments ++ spots (line + 1) (earlier ++ segments) rest

/-- The text is decoded to the numbers that it spells. -/
def SegmentSpells (text : List Char) (values : List Int) : Prop :=
  decodeSegment (String.ofList text) = .ok values ∧
    ∃ ns, Spells (String.ofList text) ns ∧ values = ns.map Numeral.value

/-- The numbers of a text of mappings, segment by segment and line by line.  Between two marks
there may be nothing, which is no segment. -/
def MappingsSpell (mappings : String) (lines : List (List (List Int))) : Prop :=
  List.Forall₂ (fun text segments =>
      List.Forall₂ SegmentSpells ((text.splitOn ',').filter (· ≠ [])) segments)
    (mappings.toList.splitOn ';') lines

/-! ## One segment -/

/-- The number is not negative and fits in a word with a sign. -/
def InWord (n : Int) : Prop := 0 ≤ n ∧ n < 2 ^ 63

theorem addWord_of_inWord {a b : Int} (h : InWord (a + b)) : addWord a b = a + b := by
  obtain ⟨hlow, hhigh⟩ := h
  unfold addWord bound64
  rw [Int.bmod_eq_of_le] <;> omega

theorem addWord_of_small {a b : Int} (h : (a + b).natAbs < bound32) : addWord a b = a + b := by
  unfold bound32 at h
  unfold addWord bound64
  rw [Int.bmod_eq_of_le] <;> omega

theorem word32_of_small {n : Int} (h : n.natAbs < bound32) (hn : 0 ≤ n) : word32 n = n.toNat := by
  unfold word32
  unfold bound32 at *
  omega

/-- A number that is decoded is far from the ends of a word. -/
theorem natAbs_le_of_decodeSegment {segment : String} {values : List Int}
    (h : decodeSegment segment = .ok values) : ∀ v ∈ values, v.natAbs ≤ 2 ^ 62 := by
  obtain ⟨ns, -, -, rfl⟩ := decodeSegment_eq_ok_iff.mp h
  intro v hv
  obtain ⟨n, -, rfl⟩ := List.mem_map.mp hv
  unfold Numeral.wrapped
  dsimp only
  rw [Int.bmod_def]
  split <;> omega

section Names

variable {names : List String} {i v : Int}

theorem nameAt?_eq_none_iff : nameAt? names i = none ↔ ¬ (0 ≤ i ∧ i < names.length) := by
  unfold nameAt?
  split
  · rw [List.getElem?_eq_none_iff]
    omega
  · simp
    omega

/-- The index of a name is found by its sum: where the word goes over its end, the sum is beyond
all names. -/
theorem nameAt?_addWord (hsize : names.length ≤ 2 ^ 63) (hi : InWord i)
    (hv : v.natAbs ≤ 2 ^ 62) : nameAt? names (addWord i v) = nameAt? names (i + v) := by
  obtain ⟨hlow, hhigh⟩ := hi
  have hsum : addWord i v = i + v ∨ addWord i v < 0 ∧ (names.length : Int) ≤ i + v := by
    unfold addWord bound64
    rw [Int.bmod_def]
    omega
  rcases hsum with hsum | ⟨hneg, hbeyond⟩
  · rw [hsum]
  · rw [nameAt?_eq_none_iff.mpr (by omega), nameAt?_eq_none_iff.mpr (by omega)]

end Names

/-- The values after a segment, as sums. -/
def Previous.plus (p : Previous) (source line col : Int) (name : Option Int) : Previous :=
  ⟨p.source + source, p.line + line, p.column + col, p.name + name.getD 0⟩

section Step

variable {names : List String} {p : Previous} {column source line col : Int} {name : Option Int}
  (hsize : names.length ≤ 2 ^ 63) (hname : InWord p.name)
  (hsource : (p.source + source).natAbs < bound32) (hline : (p.line + line).natAbs < bound32)
  (hcol : (p.column + col).natAbs < bound32)

include hsize hname hsource hline hcol

/-- The reader takes a segment in whose name exists and whose sums are not negative. -/
theorem Previous.step_of_valid
    (hindex : ∀ v ∈ name, 0 ≤ p.name + v ∧ p.name + v < names.length)
    (hpos : 0 ≤ column ∧ 0 ≤ p.source + source ∧ 0 ≤ p.line + line ∧ 0 ≤ p.column + col) :
    p.step names column source line col name =
      .ok (p.plus source line col name,
        ⟨(p.source + source).toNat, (p.line + line).toNat, (p.column + col).toNat,
          name.bind fun v => names[(p.name + v).toNat]?⟩) := by
  obtain ⟨hcolumn, hs, hl, hc⟩ := hpos
  unfold Previous.step Previous.plus
  simp only [addWord_of_small hsource, addWord_of_small hline, addWord_of_small hcol,
    word32_of_small hsource hs, word32_of_small hline hl, word32_of_small hcol hc]
  have hneg : ¬ (column < 0 ∨ p.source + source < 0 ∨ p.line + line < 0 ∨ p.column + col < 0) := by
    omega
  cases name with
  | none =>
    have hsame : addWord p.name 0 = p.name + 0 := addWord_of_inWord (by simpa using hname)
    simp only [Option.getD_none, hsame, hneg, if_false, Option.bind_none]
  | some v =>
    obtain ⟨hlow, hhigh⟩ := hindex v rfl
    have hsame : addWord p.name v = p.name + v := addWord_of_inWord ⟨hlow, by omega⟩
    have hlt : (p.name + v).toNat < names.length := by omega
    simp only [Option.getD_some, hsame, nameAt?, hlow, if_true, List.getElem?_eq_getElem hlt,
      Option.map_some, hneg, if_false, Option.bind_some]

/-- Any other segment is refused. -/
theorem Previous.step_of_invalid (hvalue : ∀ v ∈ name, v.natAbs ≤ 2 ^ 62)
    (h : ¬ ((∀ v ∈ name, 0 ≤ p.name + v ∧ p.name + v < names.length) ∧
      0 ≤ column ∧ 0 ≤ p.source + source ∧ 0 ≤ p.line + line ∧ 0 ≤ p.column + col)) :
    ∃ fault, p.step names column source line col name = .error fault := by
  unfold Previous.step
  simp only [addWord_of_small hsource, addWord_of_small hline, addWord_of_small hcol]
  cases name with
  | none =>
    refine ⟨.negative, if_pos ?_⟩
    simp only [Option.mem_def, reduceCtorEq, false_imp_iff, implies_true, true_and] at h
    omega
  | some v =>
    simp only [Option.getD_some, nameAt?_addWord hsize hname (hvalue v rfl)]
    by_cases hindex : 0 ≤ p.name + v ∧ p.name + v < names.length
    · obtain ⟨found, hfound⟩ := Option.ne_none_iff_exists'.mp
        (mt nameAt?_eq_none_iff.mp (not_not.mpr hindex))
      rw [hfound]
      refine ⟨.negative, if_pos ?_⟩
      simp only [Option.mem_def, Option.some.injEq, forall_eq', hindex, true_and] at h
      omega
    · rw [nameAt?_eq_none_iff.mpr hindex]
      exact ⟨.nameIndex, rfl⟩

end Step

/-- The result is `after` if the condition holds, and else an error. -/
def Settled {ε α : Type} (condition : Prop) (after : α) (result : Except ε α) : Prop :=
  (condition → result = .ok after) ∧ (¬ condition → ∃ e, result = .error e)

theorem Settled.of_ok {ε α : Type} {condition : Prop} {after x : α} {result : Except ε α}
    (h : Settled condition after result) (hx : result = .ok x) : condition ∧ after = x := by
  by_cases hcondition : condition
  · rw [h.1 hcondition] at hx
    exact ⟨hcondition, Except.ok.inj hx⟩
  · obtain ⟨e, he⟩ := h.2 hcondition
    rw [he] at hx
    cases hx

/-- What goes on from a settled result and hands its errors on is settled by both conditions. -/
theorem Settled.bind {ε ε' α β : Type} {first second : Prop} {mid : α} {after : β}
    {result : Except ε α} {whole : Except ε' β} (h : Settled first mid result)
    (hok : first → result = .ok mid → Settled second after whole)
    (herror : ∀ e, result = .error e → ∃ e', whole = .error e') :
    Settled (first ∧ second) after whole := by
  by_cases hfirst : first
  · obtain ⟨hdone, hfail⟩ := hok hfirst (h.1 hfirst)
    exact ⟨fun hboth => hdone hboth.2, fun hnot => hfail fun hsecond => hnot ⟨hfirst, hsecond⟩⟩
  · obtain ⟨e, he⟩ := h.2 hfirst
    exact ⟨fun hboth => absurd hboth.1 hfirst, fun _ => herror e he⟩

theorem mapping_shape {values : List Int} (h : values.length = 4 ∨ values.length = 5) :
    ∃ d source line col, ∃ name : Option Int, values = [d, source, line, col] ++ name.toList := by
  match values, h with
  | [d, source, line, col], _ => exact ⟨d, source, line, col, none, rfl⟩
  | [d, source, line, col, name], _ => exact ⟨d, source, line, col, some name, rfl⟩

theorem Builder.addValues_mapping (b : Builder) (names : List String) (line : Nat)
    (column d source srcLine srcColumn : Int) (name : Option Int) :
    b.addValues names line column ([d, source, srcLine, srcColumn] ++ name.toList) =
      b.place names line (addWord column d) source srcLine srcColumn name := by
  cases name <;> rfl

theorem Builder.addValues_fieldCount (b : Builder) (names : List String) (line : Nat) (column : Int)
    {values : List Int} (hone : values.length ≠ 1)
    (hmapping : ¬ (values.length = 4 ∨ values.length = 5)) :
    b.addValues names line column values = .error .fieldCount := by
  unfold Builder.addValues
  split
  · simp at hone
  · simp at hmapping
  · simp at hmapping
  · rfl

section Spot

variable {names : List String} {s : Spot} {d source line col : Int} {name : Option Int}

theorem Spot.genColumn_eq (s : Spot) :
    s.genColumn = fieldSum 0 s.front + s.values.getD 0 0 :=
  fieldSum_concat 0 s.front s.values

theorem Spot.sums_of_singleton (h : s.values = [d]) :
    s.sums = fieldSums (s.earlier ++ s.front) := by
  simp only [Spot.sums, fieldSums, fieldSum_concat, h]
  simp

variable (hshape : s.values = [d, source, line, col] ++ name.toList)

include hshape

theorem Spot.sums_of_mapping :
    s.sums = (fieldSums (s.earlier ++ s.front)).plus source line col name := by
  simp only [Spot.sums, fieldSums, fieldSum_concat, Previous.plus, hshape]
  cases name <;> simp

theorem Spot.isMapping_of_shape : s.IsMapping := by
  cases name <;> simp [Spot.IsMapping, hshape]

theorem Spot.length_eq_five_iff : s.values.length = 5 ↔ name.isSome = true := by
  cases name <;> simp [hshape]

/-- A segment with a source position is valid by its name and its position. -/
theorem Spot.valid_iff_of_mapping :
    s.Valid names ↔
      (∀ v ∈ name, 0 ≤ (fieldSums (s.earlier ++ s.front)).name + v ∧
        (fieldSums (s.earlier ++ s.front)).name + v < names.length) ∧
      0 ≤ s.genColumn ∧ 0 ≤ s.sums.source ∧ 0 ≤ s.sums.line ∧ 0 ≤ s.sums.column := by
  have hmapping := Spot.isMapping_of_shape hshape
  have hname : (s.values.length = 5 → 0 ≤ s.sums.name ∧ s.sums.name < names.length) ↔
      ∀ v ∈ name, 0 ≤ (fieldSums (s.earlier ++ s.front)).name + v ∧
        (fieldSums (s.earlier ++ s.front)).name + v < names.length := by
    rw [Spot.length_eq_five_iff hshape, Spot.sums_of_mapping hshape]
    cases name <;> simp [Previous.plus]
  rw [← hname]
  exact ⟨fun h => ⟨h.name, h.position hmapping⟩, fun h => ⟨.inr hmapping, h.1, fun _ => h.2⟩⟩

theorem Spot.point_of_mapping (names : List String) :
    s.point names =
      ⟨((fieldSums (s.earlier ++ s.front)).source + source).toNat,
        ((fieldSums (s.earlier ++ s.front)).line + line).toNat,
        ((fieldSums (s.earlier ++ s.front)).column + col).toNat,
        name.bind fun v => names[((fieldSums (s.earlier ++ s.front)).name + v).toNat]?⟩ := by
  simp only [Spot.point, Spot.length_eq_five_iff hshape, Spot.sums_of_mapping hshape,
    Previous.plus]
  cases name <;> simp

end Spot

section Values

variable {names : List String} (hsize : names.length ≤ 2 ^ 63) {s : Spot} (hsmall : s.Small)
  (hname : InWord (fieldSums (s.earlier ++ s.front)).name)

include hsmall

theorem Spot.addWord_genColumn :
    addWord (fieldSum 0 s.front) (s.values.getD 0 0) = s.genColumn := by
  rw [s.genColumn_eq]
  exact addWord_of_small (s.genColumn_eq ▸ hsmall.genColumn)

/-- A segment of one field only moves the column. -/
theorem Builder.addValues_singleton (hone : s.values.length = 1) (map : Map) :
    Settled (s.Valid names) (⟨s.place names map, s.sums⟩, s.genColumn)
      ((Builder.mk map (fieldSums (s.earlier ++ s.front))).addValues names s.line
        (fieldSum 0 s.front) s.values) := by
  obtain ⟨d, hd⟩ := List.length_eq_one_iff.mp hone
  have hmapping : ¬ s.IsMapping := by
    unfold Spot.IsMapping
    omega
  have hvalid : s.Valid names := ⟨.inl hone, fun h => by omega, fun h => absurd h hmapping⟩
  have hcolumn := Spot.addWord_genColumn hsmall
  refine ⟨fun _ => ?_, fun h => absurd hvalid h⟩
  rw [hd] at hcolumn ⊢
  rw [Spot.place, if_neg hmapping, Spot.sums_of_singleton hd, ← hcolumn]
  rfl

include hsize hname

/-- A segment of four or five fields is recorded if it is valid. -/
theorem Builder.addValues_of_isMapping (hmapping : s.IsMapping)
    (hvalues : ∀ v ∈ s.values, v.natAbs ≤ 2 ^ 62) (map : Map) :
    Settled (s.Valid names) (⟨s.place names map, s.sums⟩, s.genColumn)
      ((Builder.mk map (fieldSums (s.earlier ++ s.front))).addValues names s.line
        (fieldSum 0 s.front) s.values) := by
  obtain ⟨d, source, line, col, name, hshape⟩ := mapping_shape hmapping
  have hcolumn := Spot.addWord_genColumn hsmall
  have hsums := Spot.sums_of_mapping hshape
  have hsource := hsums ▸ hsmall.source
  have hline := hsums ▸ hsmall.line
  have hcol := hsums ▸ hsmall.column
  have hvalue : ∀ v ∈ name, v.natAbs ≤ 2 ^ 62 := by
    intro v hv
    exact hvalues v (by simp [hshape, Option.mem_def.mp hv])
  rw [Spot.valid_iff_of_mapping hshape, Spot.place, if_pos hmapping,
    Spot.point_of_mapping hshape, hsums]
  rw [hshape] at hcolumn ⊢
  rw [Builder.addValues_mapping]
  change addWord _ d = _ at hcolumn
  rw [hcolumn, Builder.place]
  constructor
  · rintro ⟨hindex, hpos⟩
    rw [Previous.step_of_valid hsize hname hsource hline hcol hindex hpos,
      ← word32_of_small hsmall.genColumn hpos.1]
  · intro hinvalid
    obtain ⟨fault, hfault⟩ :=
      Previous.step_of_invalid hsize hname hsource hline hcol hvalue hinvalid
    exact ⟨fault, by rw [hfault]⟩

/-- Taking the numbers of a segment in: it has to be valid, and then the reader has its sums and
has recorded its position. -/
theorem Builder.addValues_spot (hvalues : ∀ v ∈ s.values, v.natAbs ≤ 2 ^ 62) (map : Map) :
    Settled (s.Valid names) (⟨s.place names map, s.sums⟩, s.genColumn)
      ((Builder.mk map (fieldSums (s.earlier ++ s.front))).addValues names s.line
        (fieldSum 0 s.front) s.values) := by
  by_cases hone : s.values.length = 1
  · exact Builder.addValues_singleton hsmall hone map
  · by_cases hmapping : s.IsMapping
    · exact Builder.addValues_of_isMapping hsize hsmall hname hmapping hvalues map
    · refine ⟨fun h => absurd h.fields (by simp [hone, hmapping]), fun _ => ⟨.fieldCount, ?_⟩⟩
      exact Builder.addValues_fieldCount _ names s.line _ hone hmapping

end Values

/-! ## Lines -/

/-- A valid segment leaves the index of a name in range. -/
theorem Spot.Valid.inWord {names : List String} (hsize : names.length ≤ 2 ^ 63) {s : Spot}
    (hvalid : s.Valid names) (hname : InWord (fieldSums (s.earlier ++ s.front)).name) :
    InWord s.sums.name := by
  by_cases hfive : s.values.length = 5
  · obtain ⟨hlow, hhigh⟩ := hvalid.name hfive
    exact ⟨hlow, by omega⟩
  · have hnone : s.values.getD 4 0 = 0 := by
      have hshort : s.values.length ≤ 4 := by
        have := hvalid.fields
        unfold Spot.IsMapping at this
        omega
      simp [List.getElem?_eq_none hshort]
    simp only [Spot.sums, fieldSums, fieldSum_concat, hnone, Int.add_zero]
    exact hname

section Decoded

variable {b : Builder} {names : List String} {line : Nat} {column : Int} {text : List Char}
  (hne : text ≠ []) (texts : List (List Char)) {values : List Int}
  (hdecode : decodeSegment (String.ofList text) = .ok values)

include hne hdecode

theorem Builder.addSegments_of_ok {next : Builder} {column' : Int}
    (hstep : b.addValues names line column values = .ok (next, column')) :
    b.addSegments names line column (text :: texts) =
      next.addSegments names line column' texts := by
  simp [Builder.addSegments, hne, hdecode, hstep]

theorem Builder.addSegments_of_error {fault : SegmentFault}
    (hstep : b.addValues names line column values = .error fault) :
    b.addSegments names line column (text :: texts) =
      .error (.badSegment (String.ofList text) fault) := by
  simp [Builder.addSegments, hne, hdecode, hstep]

end Decoded

section Run

variable {names : List String} (hsize : names.length ≤ 2 ^ 63)

include hsize

/-- The index of a name stays in range through valid segments. -/
theorem inWord_of_lineSpots {line : Nat} {earlier front segments : List (List Int)}
    (hvalid : ∀ s ∈ lineSpots line earlier front segments, s.Valid names)
    (hname : InWord (fieldSums (earlier ++ front)).name) :
    InWord (fieldSums (earlier ++ front ++ segments)).name := by
  induction segments generalizing front with
  | nil => simpa using hname
  | cons values rest ih =>
    obtain ⟨hhead, htail⟩ := List.forall_mem_cons.mp hvalid
    have hnext := ih htail (by
      rw [← List.append_assoc]
      exact hhead.inWord hsize hname)
    simpa using hnext

/-- Reading the segments of a line behind those of `front`. -/
theorem Builder.addSegments_spots {line : Nat} {earlier front segments : List (List Int)}
    {texts : List (List Char)}
    (hspell : List.Forall₂ SegmentSpells (texts.filter (· ≠ [])) segments)
    (hsmall : ∀ s ∈ lineSpots line earlier front segments, s.Small)
    (hname : InWord (fieldSums (earlier ++ front)).name) (map : Map) :
    Settled (∀ s ∈ lineSpots line earlier front segments, s.Valid names)
      ⟨(lineSpots line earlier front segments).foldl (Spot.place names) map,
        fieldSums (earlier ++ front ++ segments)⟩
      ((Builder.mk map (fieldSums (earlier ++ front))).addSegments names line (fieldSum 0 front)
        texts) := by
  induction texts generalizing front segments map with
  | nil =>
    cases hspell
    simp [Settled, lineSpots, Builder.addSegments]
  | cons text texts ih =>
    by_cases hempty : text = []
    · subst hempty
      exact ih hspell hsmall hname map
    · rw [List.filter_cons_of_pos (by simpa using hempty)] at hspell
      obtain ⟨values, rest, hfirst, hrest, rfl⟩ := List.forall₂_cons_left_iff.mp hspell
      obtain ⟨hhead, htail⟩ := List.forall_mem_cons.mp hsmall
      have hvalues := natAbs_le_of_decodeSegment hfirst.1
      simp only [lineSpots, List.forall_mem_cons, List.foldl_cons]
      refine (Builder.addValues_spot hsize hhead hname hvalues map).bind (fun hvalid hstep => ?_)
        (fun fault hstep => ⟨_, Builder.addSegments_of_error hempty texts hfirst.1 hstep⟩)
      rw [Builder.addSegments_of_ok hempty texts hfirst.1 hstep]
      -- what stands before the next segment is what stood before this one, and this one
      have hword := hvalid.inWord hsize hname
      rw [Spot.sums, List.append_assoc] at hword
      have hnext := ih hrest htail hword (Spot.place names map ⟨line, earlier, front, values⟩)
      rw [← List.append_assoc, List.append_assoc _ [values]] at hnext
      exact hnext

/-- Reading lines behind those of `earlier`. -/
theorem Builder.addLines_spots {line : Nat} {earlier : List (List Int)}
    {lines : List (List (List Int))} {texts : List (List Char)}
    (hspell : List.Forall₂ (fun text segments =>
      List.Forall₂ SegmentSpells ((text.splitOn ',').filter (· ≠ [])) segments) texts lines)
    (hsmall : ∀ s ∈ spots line earlier lines, s.Small)
    (hname : InWord (fieldSums earlier).name) (map : Map) :
    Settled (∀ s ∈ spots line earlier lines, s.Valid names)
      ⟨(spots line earlier lines).foldl (Spot.place names) map,
        fieldSums (earlier ++ lines.flatten)⟩
      ((Builder.mk map (fieldSums earlier)).addLines names line texts) := by
  induction texts generalizing line earlier lines map with
  | nil =>
    cases hspell
    simp [Settled, spots, Builder.addLines]
  | cons text texts ih =>
    obtain ⟨segments, rest, hfirst, hrest, rfl⟩ := List.forall₂_cons_left_iff.mp hspell
    obtain ⟨hhead, htail⟩ := List.forall_mem_append.mp hsmall
    have hstart : earlier ++ [] = earlier := List.append_nil earlier
    have hline := Builder.addSegments_spots hsize hfirst hhead (by rw [hstart]; exact hname) map
    rw [hstart, fieldSum_nil] at hline
    simp only [spots, List.forall_mem_append, List.foldl_append]
    refine hline.bind (fun hvalid hread => ?_) (fun e hread => ⟨e, ?_⟩)
    · have hword := inWord_of_lineSpots hsize hvalid (by rw [hstart]; exact hname)
      rw [hstart] at hword
      have hnext := ih hrest htail hword
        ((lineSpots line earlier [] segments).foldl (Spot.place names) map)
      rw [Builder.addLines, hread, List.flatten_cons, ← List.append_assoc]
      exact hnext
    · rw [Builder.addLines, hread]

end Run

/-! ## What is recorded -/

theorem Spot.fits_point {names : List String} {s : Spot} (hsmall : s.Small)
    (hvalid : s.Valid names) (hmapping : s.IsMapping) : (s.point names).Fits := by
  obtain ⟨-, hsource, hline, hcolumn⟩ := hsmall
  obtain ⟨-, hs, hl, hc⟩ := hvalid.position hmapping
  refine ⟨?_, ?_, ?_⟩
  · change s.sums.source.toNat < bound32
    omega
  · change s.sums.line.toNat < bound32
    omega
  · change s.sums.column.toNat < bound32
    omega

/-- The positions of the segments on a line, its number counted in 32 bits, and at a column. -/
def pointsAt (names : List String) (ss : List Spot) (line column : Nat) : List SourcePoint :=
  (ss.filter fun s => s.IsMapping ∧ s.line % bound32 = line ∧ s.genColumn = (column : Int)).map
    (Spot.point names)

/-- Placing segments adds their positions, each at its own line and column. -/
theorem Map.recorded_foldl_place {names : List String} {ss : List Spot}
    (hsmall : ∀ s ∈ ss, s.Small) (hvalid : ∀ s ∈ ss, s.Valid names) {m : Map}
    (hm : m.WellFormed) (line column : Nat) :
    (ss.foldl (Spot.place names) m).recorded line column =
      m.recorded line column ++ pointsAt names ss line column := by
  induction ss generalizing m with
  | nil => simp [pointsAt]
  | cons s ss ih =>
    obtain ⟨hs, hsmall⟩ := List.forall_mem_cons.mp hsmall
    obtain ⟨hv, hvalid⟩ := List.forall_mem_cons.mp hvalid
    rw [List.foldl_cons]
    by_cases hmapping : s.IsMapping
    · obtain ⟨hcolumn, -⟩ := hv.position hmapping
      have hfits : s.genColumn.toNat < bound32 := by
        have := hs.genColumn
        omega
      have hm' := hm.insert (Nat.mod_lt s.line (by decide : 0 < bound32)) hfits
        (Spot.fits_point hs hv hmapping)
      have hkey : s.genColumn.toNat = column ↔ s.genColumn = column := by omega
      rw [Spot.place, if_pos hmapping, ih hsmall hvalid hm', Map.recorded_insert hm,
        List.append_assoc]
      simp only [hkey]
      congr 1
      by_cases hplace : s.line % bound32 = line ∧ s.genColumn = column
      · simp [pointsAt, hmapping, hplace]
      · simp [pointsAt, hmapping, hplace]
    · rw [Spot.place, if_neg hmapping, ih hsmall hvalid hm]
      simp [pointsAt, hmapping]

theorem foldl_place_names (names : List String) (ss : List Spot) (m : Map) :
    (ss.foldl (Spot.place names) m).file = m.file ∧
      (ss.foldl (Spot.place names) m).sources = m.sources := by
  induction ss generalizing m with
  | nil => exact ⟨rfl, rfl⟩
  | cons s ss ih =>
    obtain ⟨hfile, hsources⟩ := ih (s.place names m)
    rw [List.foldl_cons, hfile, hsources]
    unfold Spot.place
    split <;> exact ⟨rfl, rfl⟩

/-! ## Numbers of lines -/

theorem line_of_mem_lineSpots {line : Nat} {earlier front segments : List (List Int)} {s : Spot}
    (h : s ∈ lineSpots line earlier front segments) : s.line = line := by
  induction segments generalizing front with
  | nil => cases h
  | cons values rest ih =>
    rcases List.mem_cons.mp h with rfl | htail
    · rfl
    · exact ih htail

theorem line_lt_of_mem_spots {line : Nat} {earlier : List (List Int)}
    {lines : List (List (List Int))} {s : Spot} (h : s ∈ spots line earlier lines) :
    s.line < line + lines.length := by
  induction lines generalizing line earlier with
  | nil => cases h
  | cons segments rest ih =>
    rw [List.length_cons]
    rcases List.mem_append.mp h with hhead | htail
    · rw [line_of_mem_lineSpots hhead]
      omega
    · have := ih htail
      omega

/-- In a text of at most `2 ^ 32` lines the number of a line is not cut. -/
theorem pointsAt_spots (names : List String) {lines : List (List (List Int))}
    (hlines : lines.length ≤ bound32) (line column : Nat) :
    pointsAt names (spots 0 [] lines) line column =
      ((spots 0 [] lines).filter fun s =>
        s.IsMapping ∧ s.line = line ∧ s.genColumn = (column : Int)).map (Spot.point names) := by
  unfold pointsAt
  congr 1
  refine List.filter_congr ?_
  intro s hs
  have hlt := line_lt_of_mem_spots hs
  rw [Nat.mod_eq_of_lt (by omega)]

/-! ## The whole file -/

theorem inWord_zero : InWord 0 := ⟨Int.le_refl 0, by decide⟩

/-- Reading a file whose mappings spell the numbers of `lines`. -/
theorem Map.ofJson_spots {text : String} {f : Fields} {lines : List (List (List Int))}
    (hfields : (Json.parse text).bind Fields.ofJson? = some f) (hversion : f.version = 3)
    (hnames : f.names.length ≤ 2 ^ 63) (hlines : MappingsSpell f.mappings lines)
    (hsmall : ∀ s ∈ spots 0 [] lines, s.Small) :
    Settled (∀ s ∈ spots 0 [] lines, s.Valid f.names)
      ((spots 0 [] lines).foldl (Spot.place f.names) ⟨f.file, f.sources, []⟩)
      (Map.ofJson text) := by
  have hread := Builder.addLines_spots hnames hlines hsmall inWord_zero ⟨f.file, f.sources, []⟩
  rw [fieldSums_nil] at hread
  unfold Map.ofJson
  simp only [hfields, hversion, ne_eq, not_true_eq_false, if_false]
  constructor
  · intro hvalid
    rw [hread.1 hvalid]
  · intro hinvalid
    obtain ⟨e, he⟩ := hread.2 hinvalid
    exact ⟨e, by rw [he]⟩

/-- A file of version 3 with sums below `2 ^ 32` is accepted exactly if every segment is valid, and
then the map has, for a line and a column, the positions of the segments there in their order.  The
names lie in one address space, so their number is below the sign bit of a word.  The number of a
line is cut to 32 bits; up to `2 ^ 32` lines that changes nothing. -/
theorem Map.ofJson_meaning {text : String} {f : Fields} {lines : List (List (List Int))}
    (hfields : (Json.parse text).bind Fields.ofJson? = some f) (hversion : f.version = 3)
    (hnames : f.names.length ≤ 2 ^ 63) (hlines : MappingsSpell f.mappings lines)
    (hsmall : ∀ s ∈ spots 0 [] lines, s.Small) :
    ((∃ m, Map.ofJson text = .ok m) ↔ ∀ s ∈ spots 0 [] lines, s.Valid f.names) ∧
    ∀ m, Map.ofJson text = .ok m →
      m.file = f.file ∧ m.sources = f.sources ∧
      (∀ line column,
        m.recorded line column = pointsAt f.names (spots 0 [] lines) line column) ∧
      (lines.length ≤ bound32 → ∀ line column,
        m.recorded line column =
          ((spots 0 [] lines).filter fun s =>
            s.IsMapping ∧ s.line = line ∧ s.genColumn = (column : Int)).map
              (Spot.point f.names)) := by
  have hread := Map.ofJson_spots hfields hversion hnames hlines hsmall
  refine ⟨⟨fun ⟨m, hm⟩ => (hread.of_ok hm).1, fun hvalid => ⟨_, hread.1 hvalid⟩⟩, ?_⟩
  intro m hm
  obtain ⟨hvalid, rfl⟩ := hread.of_ok hm
  obtain ⟨hfile, hsources⟩ :=
    foldl_place_names f.names (spots 0 [] lines) ⟨f.file, f.sources, []⟩
  have hrecorded : ∀ line column, _ = pointsAt f.names (spots 0 [] lines) line column :=
    fun line column =>
      Map.recorded_foldl_place hsmall hvalid (Map.wellFormed_empty f.file f.sources) line column
  refine ⟨hfile, hsources, hrecorded, ?_⟩
  intro hfew line column
  rw [hrecorded, pointsAt_spots f.names hfew]

/-- A file with an empty line, a segment that only moves the column, and columns that go back. -/
def sampleFile : Json.Datum :=
  .object [("version", .number (.int 3)), ("sources", textArray ["a.cljs"]),
    ("names", textArray ["f", "g"]), ("mappings", .str "AAAA,IAACA;;E,CACDA,FAAAC")]

/-- The numbers of its mappings. -/
def sampleLines : List (List (List Int)) :=
  [[[0, 0, 0, 0], [4, 0, 0, 1, 0]], [], [[2], [1, 0, 1, -1, 0], [-2, 0, 0, 0, 1]]]

theorem fields_sampleFile :
    (Json.parse sampleFile.render).bind Fields.ofJson? =
      some ⟨3, none, ["a.cljs"], ["f", "g"], "AAAA,IAACA;;E,CACDA,FAAAC"⟩ := by
  have hfree : sampleFile.FloatFree := by
    simp [sampleFile, Json.Datum.FloatFree, Json.Datum.FloatFreeMembers, textArray,
      Json.Datum.FloatFreeItems]
  rw [Json.parse_render hfree]
  rfl

theorem mappingsSpell_sampleLines : MappingsSpell "AAAA,IAACA;;E,CACDA,FAAAC" sampleLines := by
  -- every number of the text is a numeral of one digit
  have hspells : ∀ (text : List Char) (ds : List (Fin 32)),
      decodeSegment (String.ofList text) = .ok (ds.map fun d => Numeral.value ⟨[], d⟩) →
      text = (ds.map fun d => Numeral.letters ⟨[], d⟩).flatten →
      SegmentSpells text (ds.map fun d => Numeral.value ⟨[], d⟩) := by
    intro text ds hok htext
    refine ⟨hok, ds.map fun d => ⟨[], d⟩, ?_, by simp⟩
    simp [Spells, htext, List.flatMap_def, Function.comp_def]
  have hgroups : List.splitOn ';' "AAAA,IAACA;;E,CACDA,FAAAC".toList =
      ["AAAA,IAACA".toList, [], "E,CACDA,FAAAC".toList] := by decide
  unfold MappingsSpell
  rw [hgroups]
  refine .cons (.cons ?_ (.cons ?_ .nil))
    (.cons .nil (.cons (.cons ?_ (.cons ?_ (.cons ?_ .nil))) .nil))
  · exact hspells _ [0, 0, 0, 0] (by decide +kernel) (by decide +kernel)
  · exact hspells _ [8, 0, 0, 2, 0] (by decide +kernel) (by decide +kernel)
  · exact hspells _ [4] (by decide +kernel) (by decide +kernel)
  · exact hspells _ [2, 0, 2, 3, 0] (by decide +kernel) (by decide +kernel)
  · exact hspells _ [5, 0, 0, 0, 2] (by decide +kernel) (by decide +kernel)

theorem Map.ofJson_meaning_sample :
    ∃ m, Map.ofJson sampleFile.render = .ok m ∧ m.recorded 2 3 = [⟨0, 1, 0, some "f"⟩] ∧
      m.recorded 2 1 = [⟨0, 1, 0, some "g"⟩] ∧ m.recorded 2 2 = [] := by
  have hspots : ∀ s ∈ spots 0 [] sampleLines, s.Small ∧ s.Valid ["f", "g"] := by
    intro s hs
    simp only [sampleLines, spots, lineSpots, List.append_nil, List.nil_append, List.cons_append,
      List.mem_cons, List.not_mem_nil, or_false] at hs
    rcases hs with rfl | rfl | rfl | rfl | rfl <;> constructor <;> constructor <;> decide
  obtain ⟨haccept, hmeaning⟩ :=
    Map.ofJson_meaning fields_sampleFile rfl (by decide) mappingsSpell_sampleLines
      fun s hs => (hspots s hs).1
  obtain ⟨m, hm⟩ := haccept.mpr fun s hs => (hspots s hs).2
  obtain ⟨-, -, -, hrecorded⟩ := hmeaning m hm
  have hfew : sampleLines.length ≤ bound32 := by decide
  refine ⟨m, hm, ?_, ?_, ?_⟩
  · rw [hrecorded hfew]
    decide
  · rw [hrecorded hfew]
    decide
  · rw [hrecorded hfew]
    decide

end LiveLisp.SourceMap
