import LiveLisp.Proofs.SourceMap.Inline
import Mathlib.Order.Bounds.Basic
/-!
# What is found at a position

Lines and columns of a map ascend, and none of them is empty.  So the first column of a line is the
least that any mapping has there, and the answer for a position can be told from the list of
mappings, whatever their order.
-/

namespace LiveLisp.SourceMap

open Text (Position)
open Script (Mapping)

/-! ## Lines that are there -/

/-- Ascending entries are all found under their keys. -/
theorem lookup_of_mem {α : Type} {xs : Ascending α} (hxs : Ascending.Sorted xs) {e : Nat × α}
    (he : e ∈ xs) : Table.lookup e.1 xs = some e.2 := by
  induction xs with
  | nil => cases he
  | cons x xs ih =>
    obtain ⟨hhead, htail⟩ := List.pairwise_cons.mp hxs
    rcases List.mem_cons.mp he with rfl | he
    · simp [Table.lookup]
    · have hne : x.1 ≠ e.1 := Nat.ne_of_lt (hhead e he)
      simp [Table.lookup, hne, ih htail he]

section WellFormed

variable {m : Map} {line : Nat}

/-- On a line that is there, the first column is the least one with something recorded. -/
theorem Map.WellFormed.first_column (hm : m.WellFormed) {columns : Ascending (List SourcePoint)}
    (hline : Table.lookup line m.lines = some columns) :
    ∃ least, IsLeast {k | m.recorded line k ≠ []} least ∧
      columns.head? = some (least, m.recorded line least) := by
  obtain ⟨-, hne, hcolumns⟩ := hm.fits _ (Table.mem_of_lookup hline)
  obtain ⟨⟨least, os⟩, rest, rfl⟩ := List.exists_cons_of_ne_nil hne
  obtain ⟨hhead, -⟩ := List.pairwise_cons.mp hcolumns.sorted
  have hrecorded : ∀ k, m.recorded line k = (Table.lookup k ((least, os) :: rest)).getD [] := by
    intro k
    rw [Map.recorded, hline, Option.bind_some]
  have hleast : m.recorded line least = os := by
    rw [hrecorded, lookup_of_mem hcolumns.sorted List.mem_cons_self]
    rfl
  refine ⟨least, ⟨?_, ?_⟩, by rw [hleast]; rfl⟩
  · rw [Set.mem_ofPred_eq, hleast]
    exact (hcolumns.fits _ List.mem_cons_self).2.1
  · intro k hk
    rw [Set.mem_ofPred_eq, hrecorded] at hk
    cases hfound : Table.lookup k ((least, os) :: rest) with
    | none => simp [hfound] at hk
    | some found =>
      rcases List.mem_cons.mp (Table.mem_of_lookup hfound) with heq | hmem
      · exact Nat.le_of_eq (Prod.mk.inj heq).1.symm
      · exact Nat.le_of_lt (hhead _ hmem)

/-- A line is there exactly if something is recorded on it. -/
theorem Map.WellFormed.lookup_eq_none_iff (hm : m.WellFormed) :
    Table.lookup line m.lines = none ↔ ∀ k, m.recorded line k = [] := by
  constructor
  · intro hnone k
    simp [Map.recorded, hnone]
  · intro hempty
    cases hline : Table.lookup line m.lines with
    | none => rfl
    | some columns =>
      obtain ⟨least, ⟨hmem, -⟩, -⟩ := hm.first_column hline
      exact absurd (hempty least) hmem

theorem Map.candidates_of_missing_line {column : Nat}
    (hline : Table.lookup line m.lines = none) : m.candidates line column = [] := by
  simp [Map.candidates, hline]

/-- Where nothing is recorded for a column, its line answers with its least column. -/
theorem Map.WellFormed.candidates_of_missing_column (hm : m.WellFormed) {column : Nat}
    (hline : Table.lookup line m.lines ≠ none) (hcolumn : m.recorded line column = []) :
    ∃ least, IsLeast {k | m.recorded line k ≠ []} least ∧
      m.candidates line column = m.recorded line least := by
  obtain ⟨columns, hcolumns⟩ := Option.ne_none_iff_exists'.mp hline
  obtain ⟨least, hleast, hfirst⟩ := hm.first_column hcolumns
  refine ⟨least, hleast, ?_⟩
  unfold Map.candidates
  rw [hcolumns]
  dsimp only
  cases hfound : Table.lookup column columns with
  | none => simp [hfirst]
  | some found =>
    -- an entry that is found is not empty, so something would be recorded
    obtain ⟨-, -, hwell⟩ := hm.fits _ (Table.mem_of_lookup hcolumns)
    have hne := (hwell.fits _ (Table.mem_of_lookup hfound)).2.1
    rw [Map.recorded, hcolumns, Option.bind_some, hfound] at hcolumn
    exact absurd hcolumn hne

end WellFormed

/-! ## The mapping that decides -/

/-- The mappings of one generated line and column, in their order. -/
def placed (ms : List Mapping) (line column : Nat) : List Mapping :=
  ms.filter fun g => g.genLine = line ∧ g.genColumn = column

/-- The columns that the mappings of one generated line have. -/
def columnsOn (ms : List Mapping) (line : Nat) : Set Nat :=
  {column | ∃ g ∈ ms, g.genLine = line ∧ g.genColumn = column}

/-- The mapping that decides about a generated position: the last one of its column or, if its
column has none, the last one of the least column of its line. -/
inductive Decides (ms : List Mapping) (line column : Nat) (g : Mapping) : Prop
  | column (last : (placed ms line column).getLast? = some g)
  | leastColumn {least : Nat} (missing : placed ms line column = [])
      (isLeast : IsLeast (columnsOn ms line) least)
      (last : (placed ms line least).getLast? = some g)

section Mappings

variable {ms : List Mapping} {line column : Nat}

theorem mem_columnsOn_iff : column ∈ columnsOn ms line ↔ placed ms line column ≠ [] := by
  rw [placed, ne_eq, List.filter_eq_nil_iff]
  simp [columnsOn]

theorem columnsOn_nonempty_iff :
    (columnsOn ms line).Nonempty ↔ ∃ g ∈ ms, g.genLine = line :=
  ⟨fun ⟨_, g, hg, hline, _⟩ => ⟨g, hg, hline⟩, fun ⟨g, hg, hline⟩ => ⟨_, g, hg, hline, rfl⟩⟩

variable (source : String) (hms : ∀ g ∈ ms, MappingFits g)

include hms

theorem Map.recorded_eq_placed (line column : Nat) :
    (Map.ofMappings source ms).recorded line column = (placed ms line column).map pointOf :=
  Map.recorded_ofMappings source hms line column

theorem Map.recorded_ne_nil_eq_columnsOn (line : Nat) :
    {k | (Map.ofMappings source ms).recorded line k ≠ []} = columnsOn ms line := by
  ext k
  rw [Set.mem_ofPred_eq, Map.recorded_eq_placed source hms, mem_columnsOn_iff]
  simp

/-- A map has the lines that its mappings have. -/
theorem Map.lookup_ofMappings_eq_none_iff (line : Nat) :
    Table.lookup line (Map.ofMappings source ms).lines = none ↔ ∀ g ∈ ms, g.genLine ≠ line := by
  have hempty : (∀ k, (Map.ofMappings source ms).recorded line k = []) ↔
      ¬ (columnsOn ms line).Nonempty := by
    rw [← Map.recorded_ne_nil_eq_columnsOn source hms, Set.not_nonempty_iff_eq_empty,
      Set.eq_empty_iff_forall_notMem]
    simp
  rw [(Map.wellFormed_ofMappings source hms).lookup_eq_none_iff, hempty, columnsOn_nonempty_iff]
  simp

/-- What a map of mappings offers for a position are the mappings of one place, and the last of
them decides. -/
theorem Map.exists_decides (hline : ∃ g ∈ ms, g.genLine = line) (column : Nat) :
    ∃ g, Decides ms line column g ∧
      ((Map.ofMappings source ms).candidates line column).getLast? = some (pointOf g) := by
  have hplaced := Map.recorded_eq_placed source hms line
  have hlast : ∀ k, placed ms line k ≠ [] → ∃ g, (placed ms line k).getLast? = some g ∧
      ((Map.ofMappings source ms).recorded line k).getLast? = some (pointOf g) := by
    intro k hk
    refine ⟨_, List.getLast?_eq_some_getLast hk, ?_⟩
    rw [hplaced, List.getLast?_map, List.getLast?_eq_some_getLast hk]
    rfl
  by_cases hcolumn : placed ms line column = []
  · have hthere : Table.lookup line (Map.ofMappings source ms).lines ≠ none := by
      rw [ne_eq, Map.lookup_ofMappings_eq_none_iff source hms]
      push Not
      exact hline
    have hempty : (Map.ofMappings source ms).recorded line column = [] := by
      rw [hplaced, hcolumn]
      rfl
    obtain ⟨least, hleast, hoffered⟩ :=
      (Map.wellFormed_ofMappings source hms).candidates_of_missing_column hthere hempty
    rw [Map.recorded_ne_nil_eq_columnsOn source hms] at hleast
    obtain ⟨g, hg, hpoint⟩ := hlast least (mem_columnsOn_iff.mp hleast.1)
    exact ⟨g, .leastColumn hcolumn hleast hg, by rw [hoffered, hpoint]⟩
  · obtain ⟨g, hg, hpoint⟩ := hlast column hcolumn
    have hrecorded : (Map.ofMappings source ms).recorded line column ≠ [] := by
      rw [hplaced]
      simpa using hcolumn
    exact ⟨g, .column hg, by rw [Map.candidates_of_recorded hrecorded, hpoint]⟩

end Mappings

/-- A position on a line without mappings stays as it is, and the map says of exactly these lines
that it does not have them; any other position goes where the mapping that decides about it comes
from. -/
theorem locate_ofMappings (source : String) {ms : List Mapping} (hms : ∀ g ∈ ms, MappingFits g)
    (pos : Position) (hline : 1 ≤ pos.line ∧ pos.line < bound32)
    (hcolumn : 1 ≤ pos.column ∧ pos.column < bound32) :
    ((Map.ofMappings source ms).hasLine pos.line = false ↔
      ∀ g ∈ ms, g.genLine + 1 ≠ pos.line) ∧
    ((∀ g ∈ ms, g.genLine + 1 ≠ pos.line) → (Map.ofMappings source ms).locate pos = pos) ∧
    ((∃ g ∈ ms, g.genLine + 1 = pos.line) →
      ∃ g, Decides ms (pos.line - 1) (pos.column - 1) g ∧
        (Map.ofMappings source ms).locate pos = ⟨g.srcLine + 1, g.srcColumn + 1⟩) := by
  have hshift : ∀ g : Mapping, g.genLine + 1 = pos.line ↔ g.genLine = pos.line - 1 := by omega
  have hzero : pos.zeroBased = (pos.line - 1, pos.column - 1) := by
    simp only [Position.zeroBased, bound32] at *
    rw [Nat.mod_eq_of_lt (by omega), Nat.mod_eq_of_lt (by omega)]
  have habsent := Map.lookup_ofMappings_eq_none_iff source hms (pos.line - 1)
  simp only [ne_eq, hshift]
  refine ⟨?_, ?_, ?_⟩
  · rw [Map.hasLine, decide_eq_true (by omega : 0 < pos.line), Bool.true_and, ← habsent]
    simp
  · intro hnone
    rw [Map.locate, hzero]
    dsimp only
    rw [Map.candidates_of_missing_line (habsent.mpr hnone)]
    rfl
  · intro hsome
    obtain ⟨g, hdecides, hlast⟩ := Map.exists_decides source hms hsome (pos.column - 1)
    refine ⟨g, hdecides, ?_⟩
    rw [Map.locate, hzero]
    dsimp only
    rw [hlast]
    rfl

/-- Three mappings of one line, of which the last two share its least column. -/
def lineMappings : List Mapping := [⟨0, 9, 8, 0, none⟩, ⟨0, 4, 7, 2, none⟩, ⟨0, 4, 5, 1, some "f"⟩]

theorem locate_ofMappings_leastColumn :
    (∀ g ∈ lineMappings, MappingFits g) ∧ (∃ g ∈ lineMappings, g.genLine + 1 = 1) ∧
      (Map.ofMappings "a.cljs" lineMappings).hasLine 1 = true ∧
      ∃ g, Decides lineMappings 0 0 g ∧
        (Map.ofMappings "a.cljs" lineMappings).locate ⟨1, 1⟩ =
          ⟨g.srcLine + 1, g.srcColumn + 1⟩ := by
  have hfits : ∀ g ∈ lineMappings, MappingFits g := by
    intro g hg
    simp only [lineMappings, List.mem_cons, List.not_mem_nil, or_false] at hg
    rcases hg with rfl | rfl | rfl <;> constructor <;> decide
  have hsome : ∃ g ∈ lineMappings, g.genLine + 1 = 1 := ⟨⟨0, 9, 8, 0, none⟩, by decide, rfl⟩
  obtain ⟨-, -, hfound⟩ := locate_ofMappings "a.cljs" hfits ⟨1, 1⟩ (by decide) (by decide)
  exact ⟨hfits, hsome, by decide, hfound hsome⟩

example : (Map.ofMappings "a.cljs" lineMappings).locate ⟨1, 1⟩ = ⟨6, 2⟩ := by decide

end LiveLisp.SourceMap
