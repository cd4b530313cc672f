import LiveLisp.Proofs.Files.Spellings
import Mathlib.Data.List.Induction
/-!
# Files below a directory

A file below a directory is reached from it by the names on the way.  So two spellings of one
directory lead to the same files: the names can be gone down one by one or all at once, and what is
put behind the name of a file, or in place of its extension, names another file beside it.
-/

namespace LiveLisp

theorem Table.isSome_lookup {κ α : Type} [DecidableEq κ] {es : List (κ × α)} {e : κ × α}
    (h : e ∈ es) : (Table.lookup e.1 es).isSome := by
  induction es with
  | nil => contradiction
  | cons first rest ih =>
    rw [Table.lookup]
    split
    · rfl
    · next hne =>
      rcases List.mem_cons.mp h with rfl | h
      · exact absurd rfl hne
      · exact ih h

namespace Files

theorem IsFileName.append {name suffix : String} (h : IsFileName name)
    (hslash : '/' ∉ suffix.toList) : IsFileName (name ++ suffix) := by
  obtain ⟨hempty, hcurrent, hparent, hname⟩ := h
  simp only [ne_eq, ← String.toList_inj, String.reduceToList] at hempty hcurrent hparent
  refine ⟨?_, ?_, ?_, by simp [hname, hslash]⟩
  all_goals rw [ne_eq, ← String.toList_inj, String.toList_append]
  · exact fun h => hempty (List.append_eq_nil_iff.mp h).1
  · intro h
    rcases List.append_eq_singleton_iff.mp h with ⟨hnil, -⟩ | ⟨hdot, -⟩
    · exact hempty hnil
    · exact hcurrent hdot
  · intro h
    rcases List.append_eq_cons_iff.mp h with ⟨hnil, -⟩ | ⟨rest, hdot, hrest⟩
    · exact hempty hnil
    · rcases List.append_eq_singleton_iff.mp hrest.symm with ⟨rfl, -⟩ | ⟨rfl, -⟩
      · exact hcurrent hdot
      · exact hparent hdot

namespace Pathname

/-! ## Several names at once -/

/-- The spelling of a directory up to where a name goes. -/
def front (p : Pathname) : List Char :=
  if p.text.isEmpty || p.text.toList.getLast? == some '/' then p.text.toList
  else p.text.toList ++ ['/']

theorem isFront_front (p : Pathname) : IsFront p.front := by
  unfold front
  split
  · next hend =>
    rcases Bool.or_eq_true_iff.mp hend with hempty | hslash
    · exact .inl (by simpa using hempty)
    · exact .inr (List.getLast?_eq_some_iff.mp (by simpa using hslash))
  · exact .inr ⟨_, rfl⟩

theorem components_front {p : Pathname} (hp : p.text ≠ "") :
    (Pathname.mk (String.ofList p.front)).components = p.components := by
  unfold front
  split
  · rw [String.ofList_toList]
  · rw [components_append_slash (by simpa using hp), String.ofList_toList]

theorem join_of_relative (p : Pathname) {q : String} (h : (Pathname.mk q).isAbsolute = false) :
    p.join q = ⟨String.ofList (p.front ++ q.toList)⟩ := by
  unfold join front
  rw [if_neg (by simp [h])]
  split <;> simp [← String.toList_inj]

theorem isAbsolute_name_append {name : String} (h : IsFileName name) (more : String) :
    (Pathname.mk (name ++ more)).isAbsolute = false := by
  have hname := isAbsolute_of_isFileName h
  unfold isAbsolute at hname ⊢
  rw [String.toList_append]
  cases hchars : name.toList with
  | nil => exact absurd (by simpa using hchars) h.1
  | cons c chars => rwa [hchars] at hname

theorem front_join (p : Pathname) {name : String} (h : IsFileName name) :
    (p.join name).front = p.front ++ name.toList ++ ['/'] := by
  have hne : name.toList ≠ [] := by simpa using h.1
  have hslash : (p.front ++ name.toList).getLast? ≠ some '/' := by
    rw [List.getLast?_append, List.getLast?_eq_some_getLast hne]
    intro hlast
    exact h.2.2.2 (Option.some.inj hlast ▸ List.getLast_mem hne)
  rw [join_of_relative p (isAbsolute_of_isFileName h), front, if_neg]
  · simp
  · simpa [h.1] using hslash

theorem intercalate_cons_cons (name next : String) (names : List String) :
    "/".intercalate (name :: next :: names) =
      name ++ ("/" ++ "/".intercalate (next :: names)) := by
  simp [← String.toList_inj, String.toList_intercalate]

theorem isAbsolute_intercalate {names : List String} (h : ∀ name ∈ names, IsFileName name) :
    (Pathname.mk ("/".intercalate names)).isAbsolute = false := by
  cases names with
  | nil => rfl
  | cons name names =>
    have hname := h name List.mem_cons_self
    cases names with
    | nil => simpa using isAbsolute_of_isFileName hname
    | cons next names =>
      rw [intercalate_cons_cons]
      exact isAbsolute_name_append hname _

/-- Names can be gone down one by one. -/
theorem join_intercalate (p : Pathname) {names : List String}
    (h : ∀ name ∈ names, IsFileName name) (hne : names ≠ []) :
    p.join ("/".intercalate names) = names.foldl join p := by
  induction names generalizing p with
  | nil => contradiction
  | cons name names ih =>
    obtain ⟨hname, hnames⟩ := List.forall_mem_cons.mp h
    cases names with
    | nil => simp
    | cons next names =>
      rw [List.foldl_cons, ← ih (p.join name) hnames (by simp),
        join_of_relative _ (isAbsolute_intercalate hnames), front_join p hname,
        intercalate_cons_cons, join_of_relative _ (isAbsolute_name_append hname _)]
      simp

/-! ## Files by the names that lead to them -/

/-- `p` is spelled as the file `last` in the directory that `names` lead to from `base`. -/
structure LeadsDown (base : Pathname) (names : List String) (last : String) (p : Pathname) :
    Prop where
  isFileName : IsFileName last
  spelled : ∃ front, IsFront front ∧ p = ⟨String.ofList (front ++ last.toList)⟩ ∧
    (Pathname.mk (String.ofList front)).components = base.components ++ names.map .name

theorem leadsDown_foldl_join {base : Pathname} (hbase : base.text ≠ "") {names : List String}
    {last : String} (hnames : ∀ name ∈ names, IsFileName name) (hlast : IsFileName last) :
    LeadsDown base names last ((names ++ [last]).foldl join base) := by
  have hdirectory : (names.foldl join base).text ≠ "" := by
    rcases List.eq_nil_or_concat names with rfl | ⟨inner, name, rfl⟩
    · exact hbase
    · rw [List.concat_eq_append, List.foldl_append]
      exact join_ne_empty _ (hnames name (by simp))
  refine ⟨hlast, (names.foldl join base).front, isFront_front _, ?_, ?_⟩
  · rw [List.foldl_append, List.foldl_cons, List.foldl_nil,
      join_of_relative _ (isAbsolute_of_isFileName hlast)]
  · rw [components_front hdirectory, components_foldl_join hnames hbase]

namespace LeadsDown

variable {base p : Pathname} {names : List String} {last : String}

theorem components_eq (h : LeadsDown base names last p) :
    p.components = base.components ++ (names ++ [last]).map .name := by
  obtain ⟨front, hfront, rfl, hcomponents⟩ := h.spelled
  rw [components_front_append hfront h.isFileName, hcomponents, List.map_append, List.append_assoc,
    List.map_singleton]

theorem text_ne (h : LeadsDown base names last p) : p.text ≠ "" := by
  obtain ⟨front, -, rfl, -⟩ := h.spelled
  simp [h.isFileName.1]

theorem wantsDirectory_eq (h : LeadsDown base names last p) : Tree.wantsDirectory p = false := by
  obtain ⟨front, -, rfl, -⟩ := h.spelled
  exact wantsDirectory_front_append front h.isFileName

/-- A suffix names another file in the same directory. -/
theorem addSuffix (h : LeadsDown base names last p) {suffix : String}
    (hslash : '/' ∉ suffix.toList) :
    LeadsDown base names (last ++ suffix) (p.addSuffix suffix) := by
  obtain ⟨front, hfront, rfl, hcomponents⟩ := h.spelled
  refine ⟨h.isFileName.append hslash, front, hfront, ?_, hcomponents⟩
  simp [Pathname.addSuffix, ← String.toList_inj]

/-- Another extension names another file in the same directory. -/
theorem withExtension (h : LeadsDown base names last p) {extension : String}
    (hsome : extension ≠ "") (hslash : '/' ∉ extension.toList) :
    LeadsDown base names (extended last.toList extension) (p.withExtension extension) := by
  cases hsplit : p.splitName? with
  | none =>
    refine absurd ?_ (of_splitName?_eq_none hsplit (base.components ++ names.map .name) last)
    rw [h.components_eq, List.map_append, List.append_assoc, List.map_singleton]
  | some split =>
    obtain ⟨hfront, hname, hcomponents⟩ := of_splitName?_eq_some hsplit
    rw [h.components_eq, List.map_append, ← List.append_assoc, List.map_singleton] at hcomponents
    obtain ⟨hdirectory, hlast⟩ := List.append_inj' hcomponents rfl
    have hlast : last.toList = split.2 := by simpa [← String.toList_inj] using hlast
    refine ⟨isFileName_extended (by simpa using h.isFileName) hsome hslash, split.1, hfront, ?_,
      hdirectory.symm⟩
    rw [withExtension_of_some hsplit, hlast]

end LeadsDown

end Pathname

/-! ## Places below a directory -/

namespace Tree

open Pathname (LeadsDown)

variable {t : Tree}

theorem stepAll_append (place : Place) (cs ds : List Component) :
    t.stepAll place (cs ++ ds) = t.stepAll place cs >>= (t.stepAll · ds) := by
  induction cs generalizing place with
  | nil => rfl
  | cons c cs ih =>
    rw [List.cons_append, stepAll, stepAll]
    cases t.step place c with
    | error e => rfl
    | ok place => exact ih place

/-- Both paths lead to one place, whatever is there. -/
def SamePlace (t : Tree) (p q : Pathname) : Prop :=
  ∃ place, t.stepAll t.cwd p.components = .ok place ∧ t.stepAll t.cwd q.components = .ok place

theorem of_locate_eq_ok {p : Pathname} {place : Place} {found : Option Node}
    (h : t.locate p = .ok (place, found)) :
    p.text ≠ "" ∧ t.stepAll t.cwd p.components = .ok place ∧ t.node? place = found := by
  unfold locate at h
  split at h
  · contradiction
  · next hempty =>
    split at h
    · contradiction
    · next place' hsteps =>
      have hfound : place' = place ∧ t.node? place' = found := by
        split at h
        · next hnode =>
          split at h
          · contradiction
          · obtain ⟨rfl, rfl⟩ := Prod.mk.inj (Except.ok.inj h)
            exact ⟨rfl, hnode⟩
        · exact Prod.mk.inj (Except.ok.inj h)
      obtain ⟨rfl, hnode⟩ := hfound
      exact ⟨by simpa using hempty, hsteps, hnode⟩

theorem canonical?_eq_some_iff {p : Pathname} {place : Place} :
    t.canonical? p = some place ↔ ∃ node, t.locate p = .ok (place, some node) := by
  unfold canonical?
  split
  · next place' node hlocate => simp [hlocate]
  · next hnone =>
    refine iff_of_false (by simp) ?_
    rintro ⟨node, hlocate⟩
    exact hnone _ _ hlocate

theorem exists_locate_of_isFile {p : Pathname} (h : t.isFile p = true) :
    ∃ place content x, t.locate p = .ok (place, some (.file content x)) := by
  unfold isFile find? at h
  cases hlocate : t.locate p with
  | error e => simp [hlocate] at h
  | ok found =>
    obtain ⟨place, node⟩ := found
    cases node with
    | none => simp [hlocate] at h
    | some node =>
      cases node with
      | directory => simp [hlocate] at h
      | file content x => exact ⟨place, content, x, rfl⟩

theorem isSome_canonical?_of_isFile {p : Pathname} (h : t.isFile p = true) :
    (t.canonical? p).isSome := by
  obtain ⟨place, content, x, hlocate⟩ := exists_locate_of_isFile h
  rw [canonical?_eq_some_iff.mpr ⟨_, hlocate⟩]
  rfl

theorem not_isDirectory_of_isFile {p : Pathname} (h : t.isFile p = true) :
    ¬t.isDirectory p = true := by
  obtain ⟨place, content, x, hlocate⟩ := exists_locate_of_isFile h
  simp [isDirectory, find?, hlocate]

/-- No file is at a path that asks for a directory. -/
theorem canonical?_ne_of_wantsDirectory {p q : Pathname} (hp : wantsDirectory p = true)
    (hq : t.isFile q = true) : t.canonical? p ≠ t.canonical? q := by
  intro heq
  obtain ⟨place, content, x, hlocate⟩ := exists_locate_of_isFile hq
  rw [canonical?_eq_some_iff.mpr ⟨_, hlocate⟩] at heq
  obtain ⟨node, hlocate'⟩ := canonical?_eq_some_iff.mp heq
  obtain ⟨hne, hsteps, -⟩ := of_locate_eq_ok hlocate'
  have hnode := (of_locate_eq_ok hlocate).2.2
  unfold locate at hlocate'
  simp [hne, hsteps, hnode, hp] at hlocate'

/-- Paths of one node are not empty and lead to its place. -/
theorem samePlace_of_canonical? {p q : Pathname} {place : Place}
    (hp : t.canonical? p = some place) (hq : t.canonical? q = some place) :
    p.text ≠ "" ∧ q.text ≠ "" ∧ t.SamePlace p q := by
  obtain ⟨node, hp⟩ := canonical?_eq_some_iff.mp hp
  obtain ⟨node', hq⟩ := canonical?_eq_some_iff.mp hq
  obtain ⟨hptext, hpsteps, -⟩ := of_locate_eq_ok hp
  obtain ⟨hqtext, hqsteps, -⟩ := of_locate_eq_ok hq
  exact ⟨hptext, hqtext, place, hpsteps, hqsteps⟩

/-- What is at a path that leads down from a directory. -/
theorem locate_of_leadsDown {base p : Pathname} {names : List String} {last : String}
    (h : LeadsDown base names last p) {place : Place}
    (hbase : t.stepAll t.cwd base.components = .ok place) :
    t.locate p = (fun place => (place, t.node? place)) <$>
      t.stepAll place ((names ++ [last]).map .name) := by
  have hsteps : t.stepAll t.cwd p.components = t.stepAll place ((names ++ [last]).map .name) := by
    rw [h.components_eq, stepAll_append, hbase]
    rfl
  unfold locate
  rw [if_neg (by simpa using h.text_ne), hsteps, h.wantsDirectory_eq]
  cases t.stepAll place ((names ++ [last]).map .name) with
  | error e => rfl
  | ok found =>
    cases hnode : t.node? found with
    | none => simp [hnode]
    | some node => cases node <;> simp [hnode]

/-- From two spellings of a directory the same names lead to the same. -/
theorem locate_eq_of_leadsDown {base base' p p' : Pathname} {names : List String} {last : String}
    (h : LeadsDown base names last p) (h' : LeadsDown base' names last p')
    (hsame : t.SamePlace base base') : t.locate p = t.locate p' := by
  obtain ⟨place, hbase, hbase'⟩ := hsame
  rw [locate_of_leadsDown h hbase, locate_of_leadsDown h' hbase']

theorem eq_of_step_name {place found : Place} {name : String}
    (h : t.step place (.name name) = .ok found) : found = place ++ [name] := by
  unfold step at h
  split at h
  · contradiction
  · contradiction
  · exact (Except.ok.inj h).symm

/-- Names lead where they say. -/
theorem eq_of_stepAll_names {place found : Place} {names : List String}
    (h : t.stepAll place (names.map .name) = .ok found) : found = place ++ names := by
  induction names generalizing place with
  | nil =>
    rw [List.append_nil]
    exact (Except.ok.inj h).symm
  | cons name names ih =>
    rw [List.map_cons, stepAll] at h
    split at h
    · next next hstep =>
      obtain rfl : next = place ++ [name] := eq_of_step_name hstep
      rw [ih h, List.append_assoc]
      rfl
    · contradiction

theorem canonical?_of_leadsDown {base p : Pathname} {names : List String} {last : String}
    (h : LeadsDown base names last p) {place found : Place}
    (hbase : t.stepAll t.cwd base.components = .ok place) (hfound : t.canonical? p = some found) :
    found = place ++ (names ++ [last]) := by
  obtain ⟨node, hlocate⟩ := canonical?_eq_some_iff.mp hfound
  rw [locate_of_leadsDown h hbase] at hlocate
  cases hsteps : t.stepAll place ((names ++ [last]).map .name) with
  | error e =>
    rw [hsteps] at hlocate
    contradiction
  | ok found' =>
    rw [hsteps] at hlocate
    obtain ⟨rfl, -⟩ := Prod.mk.inj (Except.ok.inj hlocate)
    exact eq_of_stepAll_names hsteps

/-- Everything above a node is a directory that the names lead through. -/
theorem Rooted.stepAll_names (h : t.Rooted) {place : Place} {names : List String}
    (hnode : (t.node? (place ++ names)).isSome) :
    t.stepAll place (names.map .name) = .ok (place ++ names) := by
  induction names using List.reverseRecOn with
  | nil => simp [stepAll]
  | append_singleton names last ih =>
    obtain ⟨node, hnode⟩ := Option.isSome_iff_exists.mp hnode
    have habove := h.node?_dropLast hnode
    rw [← List.append_assoc, List.dropLast_concat] at habove
    rw [List.map_append, stepAll_append, ih (by simp [habove])]
    change t.stepAll (place ++ names) [.name last] = _
    simp [stepAll, step, habove]

theorem isSome_node? {e : Place × Node} (h : e ∈ t.nodes.entries) : (t.node? e.1).isSome := by
  unfold node?
  split
  · rfl
  · exact Table.isSome_lookup h

theorem mem_below {place : Place} {e : Place × Node} (h : e ∈ t.below place) :
    e.1 ≠ [] ∧ (place ++ e.1, e.2) ∈ t.nodes.entries := by
  unfold below at h
  rw [List.mem_mergeSort] at h
  obtain ⟨entry, hentry, rfl⟩ := List.mem_map.mp h
  obtain ⟨hmem, hinside⟩ := List.mem_filter.mp hentry
  obtain ⟨hbelow, hother⟩ := Bool.and_eq_true_iff.mp hinside
  obtain ⟨names, hnames⟩ := List.isPrefixOf_iff_prefix.mp hbelow
  dsimp only
  rw [← hnames, List.drop_left]
  refine ⟨?_, ?_⟩
  · rintro rfl
    simp [← hnames] at hother
  · rwa [hnames]

theorem filesBelow?_of_locate {root : Pathname} {place : Place} {content : List UInt8} {x : Bool}
    (h : t.locate root = .ok (place, some (.file content x))) :
    t.filesBelow? root = some [(root, content)] := by
  unfold filesBelow?
  rw [h]

/-- The files at or below a path, each with the names that lead to it. -/
theorem of_mem_filesBelow? {root : Pathname} (hnamed : t.Named)
    {files : List (Pathname × List UInt8)} (hfiles : t.filesBelow? root = some files)
    {file : Pathname × List UInt8} (hfile : file ∈ files) :
    ∃ place node names, t.locate root = .ok (place, some node) ∧
      (∀ name ∈ names, IsFileName name) ∧ file.1 = names.foldl Pathname.join root ∧
      (t.node? (place ++ names)).isSome ∧
      (node = .directory → ∃ found, (names, found) ∈ t.below place) := by
  unfold filesBelow? at hfiles
  split at hfiles
  · next place content x hlocate =>
    obtain rfl := Option.some.inj hfiles
    rw [List.mem_singleton.mp hfile]
    refine ⟨place, _, [], hlocate, by simp, rfl, ?_, by simp⟩
    rw [List.append_nil, (of_locate_eq_ok hlocate).2.2]
    rfl
  · next place hlocate =>
    obtain rfl := Option.some.inj hfiles
    obtain ⟨⟨names, node⟩, hnode, hsome⟩ := List.mem_filterMap.mp hfile
    obtain ⟨-, hentry⟩ := mem_below hnode
    refine ⟨place, _, names, hlocate, ?_, ?_, isSome_node? hentry, fun _ => ⟨node, hnode⟩⟩
    · exact fun name hname => hnamed _ hentry name (List.mem_append_right _ hname)
    · dsimp only at hsome
      split at hsome
      · contradiction
      · rw [← Option.some.inj hsome]
  · contradiction

end Tree

end Files

end LiveLisp
