import LiveLisp.Library.Layout
import LiveLisp.Proofs.Fallible
import LiveLisp.Proofs.Files.Copies
import LiveLisp.Proofs.Library.Manifest
/-!
# A library laid out onto itself

Laid out into the directory that it was scanned from, a library is left as it is.  The names that
lead from the root to a unit lead to it from any other spelling of the root as well, and so it is
with its map and its source.  So each file is found to be the one that it would be copied to, and
is not copied.

A record has these names as they are shown.  A name that is no text is shown as the name of another
file, and over that file the unit is copied.  A root that is a file is scanned as its only unit; no
names lead to it, and its record leads nowhere.

A file that is gone since the scan is not found.  Directories may be made before its copy fails, but
what is there is kept, and paths of one file remain paths of one file.
-/

namespace LiveLisp.Library

open Fallible (finalState finalState_of_ok finalState_of_error finalState_congr related_bind
  bind_of_ok bind_of_error)
open Files (Component Pathname Tree IsFileName)
open Files.Tree (Keeps)
open SourceMap (mapFile)

variable {t : Tree} {p q : Pathname}

/-! ## Two paths of one file -/

/-- Both paths lead to the same, and will as long as what is there is kept. -/
def Alike (t : Tree) (p q : Pathname) : Prop := ∀ t', Keeps t t' → t'.locate p = t'.locate q

theorem Alike.locate_eq (h : Alike t p q) : t.locate p = t.locate q := h t (.refl t)

theorem Alike.mono {t' : Tree} (h : Alike t p q) (hkeeps : Keeps t t') : Alike t' p q :=
  fun t'' h' => h t'' (hkeeps.trans h')

theorem Alike.canonical?_eq (h : Alike t p q) : t.canonical? p = t.canonical? q := by
  unfold Tree.canonical?
  rw [h.locate_eq]

theorem Alike.sameFile_iff (h : Alike t p q) : sameFile t p q = (t.canonical? p).isSome := by
  unfold sameFile
  rw [← h.canonical?_eq]
  cases t.canonical? p <;> simp

theorem copyFile_of_sameFile (h : sameFile t p q = true) : copyFile p q t = .ok () t := by
  unfold copyFile
  rw [bind_of_ok (rfl : (get : Build Tree) t = .ok t t), if_pos h]
  rfl

theorem copyFile_of_not_sameFile (h : ¬sameFile t p q = true) :
    copyFile p q t = (onTree (fun t => t.makeAlong t.cwd (directoryOf q)) >>= fun _ =>
      onTree fun t => t.copy p q) t := by
  unfold copyFile
  rw [bind_of_ok (rfl : (get : Build Tree) t = .ok t t), if_neg h]

/-- A file that is there is not copied onto itself. -/
theorem Alike.copyFile_eq (h : Alike t p q) (hp : (t.canonical? p).isSome) :
    copyFile p q t = .ok () t :=
  copyFile_of_sameFile (h.sameFile_iff.trans hp)

theorem Alike.copyIfFile_eq (h : Alike t p q) : copyIfFile p q t = .ok () t := by
  unfold copyIfFile
  rw [bind_of_ok (rfl : (get : Build Tree) t = .ok t t)]
  split
  · next hfile => exact h.copyFile_eq (Tree.isSome_canonical?_of_isFile hfile)
  · rfl

/-! ## What is kept -/

theorem keeps_onTree {f : Tree → Except Files.FileError Tree}
    (h : ∀ t', f t = .ok t' → Keeps t t') : Keeps t (finalState (onTree f) t) := by
  unfold finalState onTree
  cases hf : f t with
  | ok t' => exact h t' hf
  | error e => exact .refl t

/-- If there is nothing at either path, directories may be made before the copy fails. -/
theorem Alike.keeps_copyFile (h : Alike t p q) : Keeps t (finalState (copyFile p q) t) := by
  by_cases hsame : sameFile t p q = true
  · rw [finalState_of_ok (copyFile_of_sameFile hsame)]
    exact .refl t
  · rw [finalState_congr (copyFile_of_not_sameFile hsame)]
    refine related_bind (keeps_onTree fun t' => Tree.keeps_makeAlong) fun _ t' _ hmade => ?_
    exact keeps_onTree fun t'' => Tree.keeps_copy (h.mono hmade).locate_eq

/-- A unit and its place below the output directory are one file, and so are what stands beside
them. -/
structure Doubled (t : Tree) (r : Record) (outputDir : Pathname) : Prop where
  unit : Alike t r.url (outputDir.join r.relPath)
  map : Alike t (mapFile r.url) (mapFile (outputDir.join r.relPath))
  source : Alike t (r.url.withExtension "cljs") ((outputDir.join r.relPath).withExtension "cljs")

namespace Doubled

variable {r : Record} {outputDir : Pathname}

theorem mono {t' : Tree} (h : Doubled t r outputDir) (hkeeps : Keeps t t') :
    Doubled t' r outputDir :=
  ⟨h.unit.mono hkeeps, h.map.mono hkeeps, h.source.mono hkeeps⟩

theorem materialize_of_ok (h : Doubled t r outputDir) {t' : Tree} (hkeeps : Keeps t t')
    (hcopy : copyFile r.url (outputDir.join r.relPath) t = .ok () t') :
    materialize r outputDir t = .ok (outputDir.join r.relPath) t' := by
  have h' := h.mono hkeeps
  change (copyFile r.url (outputDir.join r.relPath) >>= fun _ => _) t = _
  rw [bind_of_ok hcopy, bind_of_ok h'.map.copyIfFile_eq, bind_of_ok h'.source.copyIfFile_eq]
  rfl

theorem materialize_eq (h : Doubled t r outputDir) (hunit : (t.canonical? r.url).isSome) :
    materialize r outputDir t = .ok (outputDir.join r.relPath) t :=
  h.materialize_of_ok (.refl t) (h.unit.copyFile_eq hunit)

theorem keeps_materialize (h : Doubled t r outputDir) :
    Keeps t (finalState (materialize r outputDir) t) := by
  have hkeeps := h.unit.keeps_copyFile
  cases hcopy : copyFile r.url (outputDir.join r.relPath) t with
  | ok _ t' =>
    rw [finalState_of_ok hcopy] at hkeeps
    rwa [finalState_of_ok (h.materialize_of_ok hkeeps hcopy)]
  | error e t' =>
    rw [finalState_of_error hcopy] at hkeeps
    unfold materialize
    rwa [finalState_of_error (bind_of_error hcopy)]

end Doubled

/-! ## Laying out -/

theorem keeps_materializeUnits {outputDir : Pathname} {records : List Record}
    (h : ∀ r ∈ records, Doubled t r outputDir) :
    Keeps t (finalState (materializeUnits outputDir records) t) := by
  induction records generalizing t with
  | nil => exact .refl t
  | cons r records ih =>
    obtain ⟨hr, hrecords⟩ := List.forall_mem_cons.mp h
    rw [materializeUnits]
    split
    · refine related_bind hr.keeps_materialize fun _ t' _ hkeeps => ?_
      exact ih fun r' hr' => (hrecords r' hr').mono hkeeps
    · exact ih hrecords

theorem materializeUnits_eq {outputDir : Pathname} {records : List Record}
    (h : ∀ r ∈ records, Doubled t r outputDir)
    (hunits : ∀ r ∈ records, (t.canonical? r.url).isSome) :
    materializeUnits outputDir records t = .ok () t := by
  induction records with
  | nil => rfl
  | cons r records ih =>
    obtain ⟨hr, hrecords⟩ := List.forall_mem_cons.mp h
    obtain ⟨hunit, hunits⟩ := List.forall_mem_cons.mp hunits
    rw [materializeUnits]
    split
    · rw [bind_of_ok (hr.materialize_eq hunit)]
      exact ih hrecords hunits
    · exact ih hrecords hunits

section CompileRuntime

variable {lib : Library} {outputDir : Pathname}

theorem compileRuntime_of_not_isFile (h : t.isFile (lib.root.join baseScript) = false) :
    compileRuntime lib outputDir t = .error (.missingRuntime (lib.root.join baseScript)) t := by
  unfold compileRuntime
  rw [bind_of_ok (rfl : (get : Build Tree) t = .ok t t), if_pos (by simp [h])]
  rfl

theorem compileRuntime_of_isFile (h : t.isFile (lib.root.join baseScript) = true)
    (hbase : Alike t (lib.root.join baseScript) (outputDir.join baseScript)) :
    compileRuntime lib outputDir t =
      (match lib.closure Analysis.coreNs with
      | .error e => throw e
      | .ok records => materializeUnits outputDir records) t := by
  unfold compileRuntime
  rw [bind_of_ok (rfl : (get : Build Tree) t = .ok t t), if_neg (by simp [h])]
  exact bind_of_ok (hbase.copyFile_eq (Tree.isSome_canonical?_of_isFile h))

theorem keeps_compileRuntime
    (hbase : Alike t (lib.root.join baseScript) (outputDir.join baseScript))
    (h : ∀ records, lib.closure Analysis.coreNs = .ok records →
      ∀ r ∈ records, Doubled t r outputDir) :
    Keeps t (finalState (compileRuntime lib outputDir) t) := by
  cases hfile : t.isFile (lib.root.join baseScript) with
  | false =>
    rw [finalState_of_error (compileRuntime_of_not_isFile hfile)]
    exact .refl t
  | true =>
    rw [finalState_congr (compileRuntime_of_isFile hfile hbase)]
    cases hclosure : lib.closure Analysis.coreNs with
    | error e => exact .refl t
    | ok records => exact keeps_materializeUnits (h records hclosure)

theorem compileRuntime_eq_ok (hfile : t.isFile (lib.root.join baseScript) = true)
    (hbase : Alike t (lib.root.join baseScript) (outputDir.join baseScript))
    {records : List Record} (hclosure : lib.closure Analysis.coreNs = .ok records)
    (h : ∀ r ∈ records, Doubled t r outputDir)
    (hunits : ∀ r ∈ records, (t.canonical? r.url).isSome) :
    compileRuntime lib outputDir t = .ok () t := by
  rw [compileRuntime_of_isFile hfile hbase, hclosure]
  exact materializeUnits_eq h hunits

/-- Without the base script, or without a closure, nothing is copied either. -/
theorem finalState_compileRuntime
    (hbase : Alike t (lib.root.join baseScript) (outputDir.join baseScript))
    (h : t.isFile (lib.root.join baseScript) = true →
      ∀ records, lib.closure Analysis.coreNs = .ok records →
        compileRuntime lib outputDir t = .ok () t) :
    finalState (compileRuntime lib outputDir) t = t := by
  cases hfile : t.isFile (lib.root.join baseScript) with
  | false => rw [finalState_of_error (compileRuntime_of_not_isFile hfile)]
  | true =>
    cases hclosure : lib.closure Analysis.coreNs with
    | error e =>
      rw [finalState_congr (compileRuntime_of_isFile hfile hbase), hclosure]
      rfl
    | ok records => exact finalState_of_ok (h hfile records hclosure)

end CompileRuntime

/-! ## Where scanned units lie -/

open Files.Pathname (LeadsDown)

theorem alike_of_leadsDown {base base' : Pathname} {names : List String} {last : String}
    (h : LeadsDown base names last p) (h' : LeadsDown base' names last q)
    (hsame : t.SamePlace base base') : Alike t p q :=
  fun _ hkeeps => Tree.locate_eq_of_leadsDown h h' (hkeeps.samePlace hsame)

theorem doubled_of_leadsDown {r : Record} {root outputDir : Pathname} {names : List String}
    {last : String} (h : LeadsDown root names last r.url)
    (h' : LeadsDown outputDir names last (outputDir.join r.relPath))
    (hsame : t.SamePlace root outputDir) : Doubled t r outputDir where
  unit := alike_of_leadsDown h h' hsame
  map := alike_of_leadsDown (h.addSuffix (by decide)) (h'.addSuffix (by decide)) hsame
  source := alike_of_leadsDown (h.withExtension (by decide) (by decide))
    (h'.withExtension (by decide) (by decide)) hsame

/-- What is spelled as these names below one directory lies at them below any other. -/
theorem leadsDown_join_intercalate {base : Pathname} (hbase : base.text ≠ "") {names : List String}
    {last : String} (hnames : ∀ name ∈ names ++ [last], IsFileName name) :
    LeadsDown base names last (base.join ("/".intercalate (names ++ [last]))) := by
  rw [Pathname.join_intercalate base hnames (by simp)]
  exact Pathname.leadsDown_foldl_join hbase (fun name hname => hnames name (by simp [hname]))
    (hnames last (by simp))

theorem leadsDown_baseScript {base : Pathname} (hbase : base.text ≠ "") :
    LeadsDown base ["goog"] "base.js" (base.join baseScript) :=
  leadsDown_join_intercalate hbase (by decide)

/-- Names lead down to a record from the root; the path of the record tells them as they are
shown. -/
structure Lies (root : Pathname) (names : List String) (last : String) (r : Record) : Prop where
  isFileName : ∀ name ∈ names ++ [last], IsFileName name
  url : r.url = root.join ("/".intercalate (names ++ [last]))
  relPath : r.relPath = "/".intercalate ((names ++ [last]).map Files.Name.shown)

namespace Lies

variable {root outputDir : Pathname} {names : List String} {last : String} {r : Record}

theorem leadsDown_url (h : Lies root names last r) (hroot : root.text ≠ "") :
    LeadsDown root names last r.url := by
  rw [h.url]
  exact leadsDown_join_intercalate hroot h.isFileName

theorem leadsDown_target (h : Lies root names last r) (houtput : outputDir.text ≠ "") :
    LeadsDown outputDir (names.map Files.Name.shown) (Files.Name.shown last)
      (outputDir.join r.relPath) := by
  have hshown : ∀ name ∈ (names ++ [last]).map Files.Name.shown, IsFileName name :=
    List.forall_mem_map.mpr fun name hname => Files.Name.isFileName_shown (h.isFileName name hname)
  rw [List.map_append] at hshown
  rw [h.relPath, List.map_append]
  exact leadsDown_join_intercalate houtput hshown

/-- The path of a record leads to its unit exactly if its names are shown as they are. -/
theorem url_eq_iff (h : Lies root names last r) (hroot : root.text ≠ "") :
    r.url = root.join r.relPath ↔ (names ++ [last]).map Files.Name.shown = names ++ [last] := by
  constructor
  · intro hurl
    have hurl' := (h.leadsDown_url hroot).components_eq
    have htarget := (h.leadsDown_target hroot).components_eq
    rw [← hurl, hurl'] at htarget
    have hnames := List.map_injective_iff.mpr (fun _ _ => Component.name.inj)
      (List.append_cancel_left htarget)
    rw [List.map_append]
    exact hnames.symm
  · intro hnames
    rw [h.url, h.relPath, hnames]

/-- From two spellings of the root, the unit and the path of its record lead to one node exactly if
the names are shown as they are. -/
theorem canonical?_eq_iff (h : Lies root names last r) (hsame : t.SamePlace root outputDir)
    (hroot : root.text ≠ "") (houtput : outputDir.text ≠ "") (hunit : (t.canonical? r.url).isSome) :
    t.canonical? (outputDir.join r.relPath) = t.canonical? r.url ↔
      (names ++ [last]).map Files.Name.shown = names ++ [last] := by
  obtain ⟨found, hfound⟩ := Option.isSome_iff_exists.mp hunit
  obtain ⟨place, hsteps, hsteps'⟩ := hsame
  have hurl := h.leadsDown_url hroot
  constructor
  · intro heq
    have hplace := Tree.canonical?_of_leadsDown hurl hsteps hfound
    have hplace' := Tree.canonical?_of_leadsDown (h.leadsDown_target houtput) hsteps'
      (heq.trans hfound)
    rw [hplace] at hplace'
    rw [List.map_append]
    exact (List.append_cancel_left hplace').symm
  · intro hnames
    have htarget := h.leadsDown_target houtput
    rw [List.map_append] at hnames
    obtain ⟨hinner, hlast⟩ := List.append_inj' hnames rfl
    rw [hinner, (List.cons.inj hlast).1] at htarget
    exact (alike_of_leadsDown hurl htarget ⟨place, hsteps, hsteps'⟩).canonical?_eq.symm

theorem doubled (h : Lies root names last r) (hsame : t.SamePlace root outputDir)
    (hroot : root.text ≠ "") (houtput : outputDir.text ≠ "")
    (hnames : (names ++ [last]).map Files.Name.shown = names ++ [last]) :
    Doubled t r outputDir := by
  have htarget := h.leadsDown_target houtput
  rw [List.map_append] at hnames
  obtain ⟨hinner, hlast⟩ := List.append_inj' hnames rfl
  rw [hinner, (List.cons.inj hlast).1] at htarget
  exact doubled_of_leadsDown (h.leadsDown_url hroot) htarget hsame

end Lies

/-- A root that is a file is a unit itself, and no names lead to its record. -/
structure Alone (root : Pathname) (r : Record) : Prop where
  url : r.url = root
  relPath : r.relPath = ""

namespace Alone

variable {root outputDir : Pathname} {r : Record}

/-- No directory has the place of the unit, so nothing below one leads to it. -/
theorem canonical?_ne (h : Alone root r) (houtput : outputDir.text ≠ "")
    (hfile : t.isFile r.url = true) :
    t.canonical? (outputDir.join r.relPath) ≠ t.canonical? r.url := by
  rw [h.relPath]
  exact Tree.canonical?_ne_of_wantsDirectory (Pathname.wantsDirectory_join_empty houtput) hfile

theorem url_ne (h : Alone root r) (hroot : root.text ≠ "") (hfile : t.isFile r.url = true) :
    r.url ≠ root.join r.relPath :=
  fun hurl => h.canonical?_ne hroot hfile (congrArg t.canonical? hurl.symm)

end Alone

section Scanned

variable {root outputDir : Pathname} {lib : Library}

/-- Names lead to each unit from the root of its library and are found there, or the root is a file
and the only unit. -/
theorem lies_or_alone_of_scan {t₀ : Tree} (hnamed : t₀.Named) (hscan : scan t₀ root = .ok lib)
    {u : CompiledUnit} (hu : u ∈ lib.units) :
    (∃ place names last found, t₀.locate root = .ok (place, some .directory) ∧
      Lies root names last (.ofUnit u) ∧ (names ++ [last], found) ∈ t₀.below place) ∨
    t₀.isFile root = true ∧ Alone root (.ofUnit u) := by
  obtain ⟨-, -, files, hfiles, hread⟩ := scan_eq_ok hscan
  obtain ⟨path, content, js, hfile, rfl, -⟩ := hread u hu
  obtain ⟨place, node, all, hlocate, hnames, hpath, -, hbelow⟩ :=
    Tree.of_mem_filesBelow? hnamed hfiles hfile
  have hroot := (Tree.of_locate_eq_ok hlocate).1
  cases node with
  | directory =>
    obtain ⟨found, hfound⟩ := hbelow rfl
    have hne : all ≠ [] := (Tree.mem_below hfound).1
    obtain ⟨names, last, rfl⟩ := (List.eq_nil_or_concat' all).resolve_left hne
    have hpath : path = (names ++ [last]).foldl Pathname.join root := hpath
    refine .inl ⟨place, names, last, found, hlocate, ⟨hnames, ?_, ?_⟩, hfound⟩
    · change path = _
      rw [hpath, Pathname.join_intercalate root hnames (by simp)]
    · change relativeText root path = _
      rw [hpath]
      exact relativeText_foldl_join hroot hnames
  | file bytes x =>
    rw [Tree.filesBelow?_of_locate hlocate] at hfiles
    rw [← Option.some.inj hfiles] at hfile
    obtain ⟨rfl, -⟩ := Prod.mk.inj (List.mem_singleton.mp hfile)
    have hempty := relativeText_foldl_join hroot (List.forall_mem_nil Files.IsFileName)
    rw [List.foldl_nil, List.map_nil, String.intercalate_nil] at hempty
    refine .inr ⟨?_, rfl, hempty⟩
    simp [Tree.isFile, Tree.find?, hlocate]

/-- Something is where each unit of the library lies. -/
def Present (lib : Library) (t : Tree) : Prop := ∀ u ∈ lib.units, (t.canonical? u.path).isSome

theorem present_of_scan {t₀ : Tree} (hnamed : t₀.Named) (hrooted : t₀.Rooted)
    (hscan : scan t₀ root = .ok lib) : lib.Present t₀ := by
  intro u hu
  rcases lies_or_alone_of_scan hnamed hscan hu with
    ⟨place, names, last, found, hlocate, hlies, hbelow⟩ | ⟨hfile, halone⟩
  · obtain ⟨hne, hsteps, -⟩ := Tree.of_locate_eq_ok hlocate
    obtain ⟨node, hnode⟩ :=
      Option.isSome_iff_exists.mp (Tree.isSome_node? (Tree.mem_below hbelow).2)
    have hfound : t₀.locate u.path = .ok (place ++ (names ++ [last]), some node) := by
      change t₀.locate (Record.ofUnit u).url = _
      rw [Tree.locate_of_leadsDown (hlies.leadsDown_url hne) hsteps,
        hrooted.stepAll_names (Option.isSome_iff_exists.mpr ⟨node, hnode⟩), ← hnode]
      rfl
    rw [Tree.canonical?_eq_some_iff.mpr ⟨node, hfound⟩]
    rfl
  · have hpath : u.path = root := halone.url
    rw [hpath]
    exact Tree.isSome_canonical?_of_isFile hfile

/-- A record lies where a unit lies. -/
theorem exists_unit_of_isRecord (h : Indexed lib) {r : Record} (hr : lib.IsRecord r) :
    ∃ u ∈ lib.units, r.url = u.path ∧ r.relPath = u.relPath := by
  rcases hr with hr | ⟨ns, records, hclosure, hr⟩
  · obtain ⟨u, hu, rfl⟩ := List.mem_map.mp hr
    exact ⟨u, hu, rfl, rfl⟩
  · obtain ⟨provider, units, rfl, hof⟩ := closureOf_of_closure h hclosure
    rcases List.mem_append.mp hr with hr | hr
    · obtain ⟨u, hu, rfl⟩ := List.mem_map.mp hr
      exact ⟨u, hof.inside u hu, rfl, rfl⟩
    · rw [List.mem_singleton.mp hr]
      exact ⟨provider, hof.inside _ (List.mem_of_getLast? hof.last), rfl, rfl⟩

theorem lies_or_alone_of_isRecord {t₀ : Tree} (hnamed : t₀.Named) (hscan : scan t₀ root = .ok lib)
    {r : Record} (hr : lib.IsRecord r) :
    (∃ place names last found, t₀.locate root = .ok (place, some .directory) ∧
      Lies root names last r ∧ (names ++ [last], found) ∈ t₀.below place) ∨
    t₀.isFile root = true ∧ Alone root r := by
  obtain ⟨u, hu, hurl, hrelPath⟩ := exists_unit_of_isRecord (indexed_of_scan hscan) hr
  rcases lies_or_alone_of_scan hnamed hscan hu with
    ⟨place, names, last, found, hlocate, hlies, hfound⟩ | ⟨hfile, halone⟩
  · exact .inl ⟨place, names, last, found, hlocate,
      ⟨hlies.isFileName, hurl.trans hlies.url, hrelPath.trans hlies.relPath⟩, hfound⟩
  · exact .inr ⟨hfile, hurl.trans halone.url, hrelPath.trans halone.relPath⟩

theorem isSome_of_isRecord (h : Indexed lib) (hpresent : lib.Present t) {r : Record}
    (hr : lib.IsRecord r) : (t.canonical? r.url).isSome := by
  obtain ⟨u, hu, hurl, -⟩ := exists_unit_of_isRecord h hr
  rw [hurl]
  exact hpresent u hu

end Scanned

/-- The path of the record leads to its unit from the root. -/
def Located (lib : Library) (r : Record) : Prop := r.url = lib.root.join r.relPath

instance (lib : Library) (r : Record) : Decidable (lib.Located r) :=
  inferInstanceAs (Decidable (_ = _))

/-- Whatever lies below the root has a name that is text. -/
def TextBelow (t : Tree) (root : Pathname) : Prop :=
  ∀ place, t.canonical? root = some place → ∀ e ∈ t.below place, ∀ name ∈ e.1, Files.IsText name

theorem located_of_textBelow {t₀ : Tree} (hnamed : t₀.Named) {root : Pathname}
    (hroot : t₀.isDirectory root) {lib : Library} (hscan : scan t₀ root = .ok lib)
    (htext : TextBelow t₀ root) {r : Record} (hr : lib.IsRecord r) : lib.Located r := by
  obtain rfl : lib.root = root := (scan_eq_ok hscan).1
  rcases lies_or_alone_of_isRecord hnamed hscan hr with
    ⟨place, names, last, found, hlocate, hlies, hbelow⟩ | ⟨hfile, -⟩
  · apply (hlies.url_eq_iff (Tree.of_locate_eq_ok hlocate).1).mpr
    have hplace := Tree.canonical?_eq_some_iff.mpr ⟨_, hlocate⟩
    refine (List.map_congr_left fun name hname => ?_).trans (List.map_id _)
    exact Files.Name.shown_of_isText (htext place hplace _ hbelow name hname)
  · exact absurd hroot (Tree.not_isDirectory_of_isFile hfile)

/-- A scanned library that is laid out into its own root, however that is spelled, leaves the
content of every file as it is and makes no file, whatever became of the tree since the scan, as
far as its records are located, which all are below a directory in which every name is text.  As
long as the units are there, as they are after the scan, nothing changes at all, and the file of a
unit is found below the output directory exactly if its record is located. -/
theorem layout_onto_root {t₀ : Tree} (hnamed : t₀.Named) (hrooted : t₀.Rooted) {root : Pathname}
    {lib : Library} (hscan : scan t₀ root = .ok lib) :
    lib.Present t₀ ∧
    (t₀.isDirectory root → TextBelow t₀ root → ∀ r, lib.IsRecord r → lib.Located r) ∧
    ∀ (t : Tree) (outputDir : Pathname) (place : Files.Place),
      t.canonical? root = some place → t.canonical? outputDir = some place →
      ((∀ records, lib.closure Analysis.coreNs = .ok records → ∀ r ∈ records, lib.Located r) →
        (∀ file, (finalState (compileRuntime lib outputDir) t).file? file = t.file? file) ∧
        (lib.Present t →
          finalState (compileRuntime lib outputDir) t = t ∧
          (t.isFile (root.join baseScript) →
            ∀ records, lib.closure Analysis.coreNs = .ok records →
              compileRuntime lib outputDir t = .ok () t))) ∧
      ∀ r, lib.IsRecord r →
        (lib.Located r →
          (∀ file, (finalState (materialize r outputDir) t).file? file = t.file? file) ∧
          (lib.Present t → materialize r outputDir t = .ok (outputDir.join r.relPath) t)) ∧
        (t.isFile r.url →
          (t.canonical? (outputDir.join r.relPath) = t.canonical? r.url ↔ lib.Located r)) := by
  refine ⟨present_of_scan hnamed hrooted hscan,
    fun hroot htext r hr => located_of_textBelow hnamed hroot hscan htext hr, ?_⟩
  intro t outputDir place hplace hplace'
  obtain rfl : lib.root = root := (scan_eq_ok hscan).1
  obtain ⟨hne, hne', hsame⟩ := Tree.samePlace_of_canonical? hplace hplace'
  have hdoubled : ∀ r, lib.IsRecord r → lib.Located r → Doubled t r outputDir := by
    intro r hr hlocated
    rcases lies_or_alone_of_isRecord hnamed hscan hr with
      ⟨-, names, last, -, -, hlies, -⟩ | ⟨hfile, halone⟩
    · exact hlies.doubled hsame hne hne' ((hlies.url_eq_iff hne).mp hlocated)
    · rw [← halone.url] at hfile
      exact absurd hlocated (halone.url_ne hne hfile)
  have hunits : lib.Present t → ∀ r, lib.IsRecord r → (t.canonical? r.url).isSome :=
    fun hpresent r hr => isSome_of_isRecord (indexed_of_scan hscan) hpresent hr
  refine ⟨fun hcore => ?_, fun r hr => ⟨fun hlocated => ?_, fun hfile => ?_⟩⟩
  · have hdoubledCore : ∀ records, lib.closure Analysis.coreNs = .ok records →
        ∀ r ∈ records, Doubled t r outputDir :=
      fun records hrecords r hr =>
        hdoubled r (.inr ⟨_, records, hrecords, hr⟩) (hcore records hrecords r hr)
    have hbase : Alike t (lib.root.join baseScript) (outputDir.join baseScript) :=
      alike_of_leadsDown (leadsDown_baseScript hne) (leadsDown_baseScript hne') hsame
    refine ⟨(keeps_compileRuntime hbase hdoubledCore).file?_eq, fun hpresent => ?_⟩
    have hok : t.isFile (lib.root.join baseScript) = true →
        ∀ records, lib.closure Analysis.coreNs = .ok records →
          compileRuntime lib outputDir t = .ok () t :=
      fun hfile records hrecords => compileRuntime_eq_ok hfile hbase hrecords
        (hdoubledCore records hrecords)
        (fun r hr => hunits hpresent r (.inr ⟨_, records, hrecords, hr⟩))
    exact ⟨finalState_compileRuntime hbase hok, hok⟩
  · have hr' := hdoubled r hr hlocated
    exact ⟨hr'.keeps_materialize.file?_eq,
      fun hpresent => hr'.materialize_eq (hunits hpresent r hr)⟩
  · rcases lies_or_alone_of_isRecord hnamed hscan hr with
      ⟨-, names, last, -, -, hlies, -⟩ | ⟨-, halone⟩
    · rw [hlies.canonical?_eq_iff hsame hne hne' (Tree.isSome_canonical?_of_isFile hfile)]
      exact (hlies.url_eq_iff hne).symm
    · exact iff_of_false (halone.canonical?_ne hne' hfile) (halone.url_ne hne hfile)

/-- The base script, and the core namespace with its map and its source. -/
def runtimeNodes : List (Files.Place × Files.Node) :=
  [(["cljs"], .directory), (["cljs", "core.cljs"], script "(ns cljs.core)"),
    (["cljs", "core.js"], script "goog.provide('cljs.core')"),
    (["cljs", "core.js.map"], script "\x7b\x7d"),
    (["goog"], .directory), (["goog", "base.js"], script "var goog")]

def runtimeLibrary : Library where
  root := ⟨"lib"⟩
  units := [⟨"cljs/core.js", ⟨"lib/cljs/core.js"⟩, ["cljs.core"], []⟩]
  providers := ⟨[("cljs.core", 0)]⟩

/-- The closure of the core namespace. -/
def runtimeRecords : List Record :=
  runtimeLibrary.records ++ [⟨[], ["cljs.core"], "cljs/core.js", ⟨"lib/cljs/core.js"⟩, .seed⟩]

/-- The root from the current directory, with a dot behind it, through itself, and from the top. -/
def runtimeSpellings : List Pathname := [⟨"./lib"⟩, ⟨"lib/."⟩, ⟨"lib/../lib//"⟩, ⟨"/home/lib"⟩]

theorem layout_onto_root_spelled :
    (libraryTree runtimeNodes).Named ∧ (libraryTree runtimeNodes).Rooted ∧
      (libraryTree runtimeNodes).isDirectory ⟨"lib"⟩ ∧
      scan (libraryTree runtimeNodes) ⟨"lib"⟩ = .ok runtimeLibrary ∧
      runtimeLibrary.closure Analysis.coreNs = .ok runtimeRecords ∧
      ∀ outputDir ∈ runtimeSpellings,
        compileRuntime runtimeLibrary outputDir (libraryTree runtimeNodes) =
          .ok () (libraryTree runtimeNodes) ∧
        ∀ r ∈ runtimeRecords,
          materialize r outputDir (libraryTree runtimeNodes) =
            .ok (outputDir.join "cljs/core.js") (libraryTree runtimeNodes) := by
  have hnamed : (libraryTree runtimeNodes).Named := by decide +kernel
  have hrooted : (libraryTree runtimeNodes).Rooted := by decide +kernel
  have hroot : (libraryTree runtimeNodes).isDirectory ⟨"lib"⟩ := by decide +kernel
  have hscan : scan (libraryTree runtimeNodes) ⟨"lib"⟩ = .ok runtimeLibrary := by
    rw [scan_libraryTree (by decide +kernel) (by decide +kernel)]
    decide +kernel
  have hclosure : runtimeLibrary.closure Analysis.coreNs = .ok runtimeRecords := by decide +kernel
  have hbase : (libraryTree runtimeNodes).isFile ((⟨"lib"⟩ : Pathname).join baseScript) := by
    decide +kernel
  have hplace : ∀ outputDir ∈ ⟨"lib"⟩ :: runtimeSpellings,
      (libraryTree runtimeNodes).canonical? outputDir = some ["home", "lib"] := by decide +kernel
  have hrelPath : ∀ r ∈ runtimeRecords, r.relPath = "cljs/core.js" := by decide
  have htext : TextBelow (libraryTree runtimeNodes) ⟨"lib"⟩ := by
    intro place hplace' e he
    obtain rfl : ["home", "lib"] = place :=
      Option.some.inj ((hplace ⟨"lib"⟩ List.mem_cons_self).symm.trans hplace')
    rw [below_libraryTree (by decide +kernel) (by decide +kernel)] at he
    have hnames : ∀ e ∈ runtimeNodes, ∀ name ∈ e.1, Files.IsText name := by decide +kernel
    exact hnames e he
  obtain ⟨hpresent, hlocated, hlayout⟩ := layout_onto_root hnamed hrooted hscan
  refine ⟨hnamed, hrooted, hroot, hscan, hclosure, fun outputDir houtput => ?_⟩
  obtain ⟨hcore, hrecords⟩ := hlayout _ outputDir _ (hplace _ List.mem_cons_self)
    (hplace _ (List.mem_cons_of_mem _ houtput))
  have hisRecord : ∀ records, runtimeLibrary.closure Analysis.coreNs = .ok records →
      ∀ r ∈ records, runtimeLibrary.IsRecord r :=
    fun records hrecords r hr => .inr ⟨_, records, hrecords, hr⟩
  obtain ⟨-, hruntime⟩ :=
    hcore fun records hrecords r hr => hlocated hroot htext r (hisRecord records hrecords r hr)
  refine ⟨(hruntime hpresent).2 hbase runtimeRecords hclosure, fun r hr => ?_⟩
  have hr' := hisRecord runtimeRecords hclosure r hr
  rw [← hrelPath r hr]
  exact ((hrecords r hr').1 (hlocated hroot htext r hr')).2 hpresent

/-- A unit whose name holds the byte 0xff, which is no text, beside a file that has the replacement
character there. -/
def strayNodes : List (Files.Place × Files.Node) :=
  [(["a\ufffd.js"], script "var kept"), (["a\x00\u00ff.js"], script "goog.provide('a')")]

def strayLibrary : Library where
  root := ⟨"lib"⟩
  units := [⟨"a\ufffd.js", ⟨"lib/a\x00\u00ff.js"⟩, ["a"], []⟩]
  providers := ⟨[("a", 0)]⟩

/-- Laid out onto the root, the unit is copied over the file that its record leads to. -/
theorem stray_unit_overwrites :
    (libraryTree strayNodes).Named ∧ (libraryTree strayNodes).Rooted ∧
      scan (libraryTree strayNodes) ⟨"lib"⟩ = .ok strayLibrary ∧
      ∃ r, strayLibrary.IsRecord r ∧
        (libraryTree strayNodes).file? ["home", "lib", "a\ufffd.js"] =
          some (Text.Utf8.encode "var kept", false) ∧
        (finalState (materialize r ⟨"lib"⟩) (libraryTree strayNodes)).file?
            ["home", "lib", "a\ufffd.js"] =
          some (Text.Utf8.encode "goog.provide('a')", false) := by
  refine ⟨by decide +kernel, by decide +kernel, ?_, ⟨["a"], [], "a\ufffd.js",
    ⟨"lib/a\x00\u00ff.js"⟩, .ordinary⟩, .inl (by decide), by decide +kernel, by decide +kernel⟩
  rw [scan_libraryTree (by decide +kernel) (by decide +kernel)]
  decide +kernel

end LiveLisp.Library
