import LiveLisp.Library.Manifest
import LiveLisp.Proofs.Files.Below
import LiveLisp.Proofs.Files.Name
import LiveLisp.Proofs.Library.Closure
import LiveLisp.Proofs.Script.Strings
import Mathlib.Data.List.Forall2
/-!
# What the lines of a manifest say

A line of a manifest is read back as a script reads it: a call with a string and two arrays of
strings.  The names of a unit are made of characters that stand for themselves between quotes.  Its
path is written as it is, so the line says where the unit lies exactly if the path is plain
between double quotes; any other path is cut short or loses characters on the way.
-/

namespace LiveLisp.Library

open Files (Pathname Tree IsFileName normalized)
open Script (Token tokensFrom literalFrom utf16 PlainIn)

/-! ## Where units lie -/

/-- Names of files lead to a record below the root of its library, and its namespaces are spelled
as in declarations. -/
structure WellSpelled (r : Record) : Prop where
  path : ∃ names : List String, (∀ name ∈ names, IsFileName name) ∧
    r.relPath = "/".intercalate names
  provides : ∀ ns ∈ r.provides, ns.toList.all isNameChar = true
  requires : ∀ ns ∈ r.requires, ns.toList.all isNameChar = true

theorem relativeText_foldl_join {root : Pathname} (hroot : root.text ≠ "") {names : List String}
    (hnames : ∀ name ∈ names, IsFileName name) :
    relativeText root (names.foldl Pathname.join root) =
      "/".intercalate (names.map Files.Name.shown) := by
  unfold relativeText
  dsimp only
  rw [Pathname.components_foldl_join hnames hroot, List.drop_left, List.map_map]
  rfl

theorem all_isNameChar_of_mem_requiresOf {js ns : String} (h : ns ∈ requiresOf js) :
    ns.toList.all isNameChar = true := by
  rw [requiresOf, distinct, mem_insertAllNew] at h
  exact all_isNameChar_of_mem_callsFrom (h.resolve_left List.not_mem_nil)

theorem wellSpelled_of_scan {t : Tree} (hnamed : t.Named) {root : Pathname} {lib : Library}
    (hscan : scan t root = .ok lib) : ∀ u ∈ lib.units, WellSpelled (.ofUnit u) := by
  intro u hu
  obtain ⟨-, -, files, hfiles, hread⟩ := scan_eq_ok hscan
  obtain ⟨path, content, js, hfile, rfl, -⟩ := hread u hu
  obtain ⟨place, _, names, hlocate, hnames, hpath, -, -⟩ :=
    Tree.of_mem_filesBelow? hnamed hfiles hfile
  have hshown : ∀ name ∈ names.map Files.Name.shown, IsFileName name :=
    List.forall_mem_map.mpr fun name hname => Files.Name.isFileName_shown (hnames name hname)
  refine ⟨⟨names.map Files.Name.shown, hshown, ?_⟩, fun ns => all_isNameChar_of_mem_providesOf,
    fun ns => all_isNameChar_of_mem_requiresOf⟩
  change relativeText root path = _
  rw [show path = _ from hpath]
  exact relativeText_foldl_join (Tree.of_locate_eq_ok hlocate).1 hnames

/-- The records of a library: those of its units, and the requests of its closures. -/
def IsRecord (lib : Library) (r : Record) : Prop :=
  r ∈ lib.records ∨ ∃ ns records, lib.closure ns = .ok records ∧ r ∈ records

theorem wellSpelled_of_isRecord {t : Tree} (hnamed : t.Named) {root : Pathname} {lib : Library}
    (hscan : scan t root = .ok lib) {r : Record} (hr : lib.IsRecord r) : WellSpelled r := by
  have hunits := wellSpelled_of_scan hnamed hscan
  rcases hr with hr | ⟨ns, records, hclosure, hr⟩
  · obtain ⟨u, hu, rfl⟩ := List.mem_map.mp hr
    exact hunits u hu
  · obtain ⟨provider, units, rfl, hof⟩ := closureOf_of_closure (indexed_of_scan hscan) hclosure
    rcases List.mem_append.mp hr with hr | hr
    · obtain ⟨u, hu, rfl⟩ := List.mem_map.mp hr
      exact hunits u (hof.inside u hu)
    · have hprovider := hunits provider (hof.inside _ (List.mem_of_getLast? hof.last))
      rw [List.mem_singleton.mp hr]
      refine ⟨hprovider.path, by simp [Record.seedOf], fun name hname => ?_⟩
      rw [List.mem_singleton.mp hname]
      exact hprovider.provides ns hof.provides

/-! ## Reading a call -/

/-- Strings with commas between them, up to the closing bracket, and what follows. -/
def items? : List Token → Option (List (List Nat) × List Token)
  | .string value :: .sign ',' :: rest => (items? rest).map fun r => (value :: r.1, r.2)
  | .string value :: .sign ']' :: rest => some ([value], rest)
  | _ => none

/-- An array of strings, and what follows. -/
def array? : List Token → Option (List (List Nat) × List Token)
  | .sign '[' :: .sign ']' :: rest => some ([], rest)
  | .sign '[' :: rest => items? rest
  | _ => none

/-- What a call makes known: a path and two lists of names. -/
structure Registration where
  path : List Nat
  provides : List (List Nat)
  requires : List (List Nat)
  deriving DecidableEq

/-- The arguments of a call from the second one on, to the end of the script. -/
def arguments? (path : List Nat) (tokens : List Token) : Option Registration :=
  match tokens with
  | .sign ',' :: tokens =>
    match array? tokens with
    | some (provides, .sign ',' :: tokens) =>
      match array? tokens with
      | some (requires, [.sign ')', .sign ';']) => some ⟨path, provides, requires⟩
      | _ => none
    | _ => none
  | _ => none

/-- The one call that a script is, if it makes a unit known. -/
def registration? (script : List Char) : Option Registration :=
  match tokensFrom 0 script with
  | some (.word object :: .sign '.' :: .word method :: .sign '(' :: .string path :: tokens) =>
    if object = "goog".toList ∧ method = "addDependency".toList then arguments? path tokens
    else none
  | _ => none

/-- A script is one call that says about a record what it provides, what it requires, and where it
lies as seen from the directory `goog`. -/
def Denotes (script : List Char) (r : Record) : Prop :=
  ∃ path : List Char,
    registration? script =
      some ⟨utf16 path, r.provides.map fun ns => utf16 ns.toList,
        r.requires.map fun ns => utf16 ns.toList⟩ ∧
      normalized ("goog/".toList ++ path) = r.relPath.toList

/-- A text is made of lines that say this about records, one for each and in their order. -/
def DenotesAll (text : List Char) (records : List Record) : Prop :=
  ∃ lines, text.splitOn '\n' = lines ++ [[]] ∧ List.Forall₂ Denotes lines records

/-! ## The text of a call -/

/-- The quoted names and the bracket of an array. -/
def itemsText : List String → List Char
  | [] => [']']
  | [name] => '\x27' :: (name.toList ++ ['\x27', ']'])
  | name :: next :: names =>
    '\x27' :: (name.toList ++ '\x27' :: ',' :: ' ' :: itemsText (next :: names))

theorem toList_nameArray (names : List String) :
    (nameArray names).toList = '[' :: itemsText names := by
  have hitems : (", ".intercalate (names.map fun n => "'" ++ n ++ "'")).toList ++ [']'] =
      itemsText names := by
    rw [String.toList_intercalate, List.map_map]
    induction names with
    | nil => rfl
    | cons name names ih =>
      cases names with
      | nil => simp [itemsText]
      | cons next names =>
        rw [itemsText, ← ih]
        simp
  rw [← hitems]
  simp [nameArray]

/-- What stands behind the path. -/
def tailText (r : Record) : List Char :=
  ',' :: ' ' :: '[' :: (itemsText r.provides ++
    ',' :: ' ' :: '[' :: (itemsText r.requires ++ [')', ';']))

theorem toList_dependencyLine (r : Record) :
    (dependencyLine r).toList =
      "goog.addDependency(".toList ++
        '"' :: ((pathFromBase r.relPath).toList ++ '"' :: tailText r) := by
  unfold dependencyLine tailText
  simp only [String.toList_append, toList_nameArray]
  simp

/-- In an array stand characters of names and those between them. -/
theorem mem_itemsText {names : List String}
    (hnames : ∀ ns ∈ names, ns.toList.all isNameChar = true) {c : Char}
    (h : c ∈ itemsText names) : isNameChar c = true ∨ c ∈ "', []);".toList := by
  induction names using itemsText.induct with
  | case1 =>
    rw [List.mem_singleton.mp h]
    simp
  | case2 name =>
    simp only [itemsText, List.mem_cons, List.mem_append, List.not_mem_nil, or_false] at h
    rcases h with rfl | h | rfl | rfl
    · simp
    · exact .inl (List.all_eq_true.mp (hnames name (by simp)) c h)
    · simp
    · simp
  | case3 name next names ih =>
    simp only [itemsText, List.mem_cons, List.mem_append] at h
    rcases h with rfl | h | rfl | rfl | rfl | h
    · simp
    · exact .inl (List.all_eq_true.mp (hnames name (by simp)) c h)
    · simp
    · simp
    · simp
    · exact ih (fun ns hns => hnames ns (List.mem_cons_of_mem _ hns)) h

theorem mem_tailText {r : Record} (hr : WellSpelled r) {c : Char} (h : c ∈ tailText r) :
    isNameChar c = true ∨ c ∈ "', []);".toList := by
  obtain h | h | h : c ∈ itemsText r.provides ∨ c ∈ itemsText r.requires ∨
      c ∈ "', []);".toList := by
    simp only [tailText, String.reduceToList, List.mem_cons, List.mem_append, List.not_mem_nil,
      or_false] at h ⊢
    tauto
  · exact mem_itemsText hr.provides h
  · exact mem_itemsText hr.requires h
  · exact .inr h

/-! ## The tokens of a call -/

theorem plainIn_of_isNameChar {mark : Char} (hmark : isNameChar mark = false) {ns : String}
    (h : ns.toList.all isNameChar = true) : PlainIn mark ns.toList := by
  intro c hc
  have hname := List.all_eq_true.mp h c hc
  have hne : ∀ d, isNameChar d = false → c ≠ d := by
    rintro d hd rfl
    rw [hname] at hd
    contradiction
  simp [Script.isPlainIn, hne mark hmark, hne '\\' (by decide), hne '\n' (by decide),
    hne '\r' (by decide)]

/-- The tokens of an array behind its opening bracket. -/
def itemTokens : List String → List Token
  | [] => [.sign ']']
  | [name] => [.string (utf16 name.toList), .sign ']']
  | name :: next :: names =>
    .string (utf16 name.toList) :: .sign ',' :: itemTokens (next :: names)

theorem tokensFrom_itemsText {names : List String}
    (h : ∀ ns ∈ names, ns.toList.all isNameChar = true) (rest : List Char) :
    tokensFrom 0 (itemsText names ++ rest) =
      (tokensFrom 0 rest).map (itemTokens names ++ ·) := by
  have hmark : isNameChar '\x27' = false := by decide
  induction names using itemsText.induct with
  | case1 => exact Script.tokensFrom_sign (by decide) rest
  | case2 name =>
    have hname := plainIn_of_isNameChar hmark (h name (by simp))
    simp only [itemsText, List.cons_append, List.append_assoc, List.nil_append]
    rw [Script.tokensFrom_string (by decide) hname, Script.tokensFrom_sign (by decide),
      Option.map_map]
    rfl
  | case3 name next names ih =>
    have hname := plainIn_of_isNameChar hmark (h name (by simp))
    simp only [itemsText, List.cons_append, List.append_assoc]
    rw [Script.tokensFrom_string (by decide) hname, Script.tokensFrom_sign (by decide),
      Script.tokensFrom_gap (by decide), ih fun ns hns => h ns (List.mem_cons_of_mem _ hns),
      Option.map_map, Option.map_map]
    rfl

theorem array?_itemTokens (names : List String) (rest : List Token) :
    array? (.sign '[' :: (itemTokens names ++ rest)) =
      some (names.map fun ns => utf16 ns.toList, rest) := by
  cases names with
  | nil => rfl
  | cons name names =>
    have hitems : items? (itemTokens (name :: names) ++ rest) =
        some ((name :: names).map fun ns => utf16 ns.toList, rest) := by
      induction names generalizing name with
      | nil => rfl
      | cons next names ih =>
        rw [itemTokens, List.cons_append, List.cons_append, items?, ih next]
        rfl
    rw [← hitems]
    cases names <;> rfl

theorem tokensFrom_tailText {r : Record} (hr : WellSpelled r) :
    tokensFrom 0 (tailText r) =
      some (.sign ',' :: .sign '[' :: (itemTokens r.provides ++
        .sign ',' :: .sign '[' :: (itemTokens r.requires ++ [.sign ')', .sign ';']))) := by
  have hend : tokensFrom 0 [')', ';'] = some [.sign ')', .sign ';'] := by decide
  unfold tailText
  rw [Script.tokensFrom_sign (by decide), Script.tokensFrom_gap (by decide),
    Script.tokensFrom_sign (by decide), tokensFrom_itemsText hr.provides,
    Script.tokensFrom_sign (by decide), Script.tokensFrom_gap (by decide),
    Script.tokensFrom_sign (by decide), tokensFrom_itemsText hr.requires, hend]
  rfl

/-- A call is read up to its first argument, and its other arguments behind that. -/
theorem registration?_opening (text : List Char) :
    registration? ("goog.addDependency(".toList ++ '"' :: text) =
      (literalFrom '"' 0 text).bind fun r => (tokensFrom 0 r.2).bind (arguments? r.1) := by
  have hopening : "goog.addDependency(".toList ++ '"' :: text =
      'g' :: "oog".toList ++ '.' :: ('a' :: "ddDependency".toList ++ '(' :: '"' :: text) := rfl
  unfold registration?
  rw [hopening, Script.tokensFrom_word (by decide) (by decide),
    Script.tokensFrom_sign (by decide), Script.tokensFrom_word (by decide) (by decide),
    Script.tokensFrom_sign (by decide), Script.tokensFrom_quote (by decide)]
  cases literalFrom '"' 0 text with
  | none => rfl
  | some r =>
    rw [Option.bind_some, Option.bind_some]
    cases tokensFrom 0 r.2 with
    | none => rfl
    | some tokens => exact if_pos ⟨rfl, rfl⟩

theorem path_of_arguments? {path : List Nat} {tokens : List Token} {call : Registration}
    (h : arguments? path tokens = some call) : call.path = path := by
  unfold arguments? at h
  repeat' split at h
  all_goals first
    | contradiction
    | rw [← Option.some.inj h]

/-! ## Paths from the base script -/

theorem pathFromBase_cases (relPath : String) :
    relPath.toList = "goog/".toList ++ (pathFromBase relPath).toList ∨
      (pathFromBase relPath).toList = "../".toList ++ relPath.toList := by
  unfold pathFromBase
  dsimp only
  split
  · next hinside =>
    obtain ⟨inner, hinner⟩ := List.isPrefixOf_iff_prefix.mp hinside
    have hchars : (String.ofList (relPath.toList.drop 5)).toList = inner := by
      rw [String.toList_ofList, ← hinner]
      exact List.drop_left' rfl
    rw [hchars]
    exact .inl hinner.symm
  · exact .inr String.toList_append

/-- Seen from the directory `goog`, a path leads to where it led from the root. -/
theorem normalized_pathFromBase {r : Record} (hr : WellSpelled r) :
    normalized ("goog/".toList ++ (pathFromBase r.relPath).toList) = r.relPath.toList := by
  obtain ⟨names, hnames, hpath⟩ := hr.path
  have hself : normalized r.relPath.toList = r.relPath.toList := by
    rw [hpath, String.toList_intercalate]
    exact Files.normalized_names hnames
  rcases pathFromBase_cases r.relPath with hinside | houtside
  · rw [← hinside, hself]
  · have hback := Files.normalized_back (by decide : IsFileName "goog") r.relPath.toList
    rw [houtside]
    exact hback.trans hself

/-- A string that leads to a record is at least as long as the path that is written for it. -/
theorem length_pathFromBase_le {r : Record} {tail rest path : List Char}
    (hliteral : literalFrom '"' 0 ((pathFromBase r.relPath).toList ++ '"' :: tail) =
      some (utf16 path, rest))
    (hleads : normalized ("goog/".toList ++ path) = r.relPath.toList) :
    (utf16 (pathFromBase r.relPath).toList).length ≤ (utf16 path).length := by
  have hadds : ∀ xs ys, (utf16 (xs ++ ys)).length = (utf16 xs).length + (utf16 ys).length := by
    intro xs ys
    rw [Script.utf16_append, List.length_append]
  have hshorter : ∀ p, (utf16 (normalized p)).length ≤ (utf16 p).length :=
    @Files.size_normalized_le (fun text => (utf16 text).length) hadds
  rcases pathFromBase_cases r.relPath with hinside | houtside
  · have hle := hshorter ("goog/".toList ++ path)
    rw [hleads, hinside, hadds, hadds] at hle
    omega
  · -- the dots are read as they stand, so the string begins with them
    have hdots : PlainIn '"' "../".toList := by decide
    rw [houtside, List.append_assoc, Script.literalFrom_append_plain hdots] at hliteral
    obtain ⟨⟨value, rest'⟩, -, heq⟩ := Option.map_eq_some_iff.mp hliteral
    obtain ⟨inner, rfl, -⟩ := Script.eq_append_of_utf16 (by decide) (Prod.mk.inj heq).1.symm
    have hback := Files.normalized_back (by decide : IsFileName "goog") inner
    have hle := hshorter inner
    rw [hback.symm.trans hleads] at hle
    rw [houtside, hadds, hadds]
    omega

theorem plainIn_pathFromBase_iff (relPath : String) :
    PlainIn '"' (pathFromBase relPath).toList ↔ PlainIn '"' relPath.toList := by
  have hfront : ∀ {front text : List Char}, PlainIn '"' front →
      (PlainIn '"' (front ++ text) ↔ PlainIn '"' text) := by
    intro front text hplain
    exact List.forall_mem_append.trans (and_iff_right hplain)
  rcases pathFromBase_cases relPath with hinside | houtside
  · rw [hinside, hfront (by decide)]
  · rw [houtside, hfront (by decide)]

/-! ## What lines denote -/

theorem denotes_of_plainIn {r : Record} (hr : WellSpelled r)
    (hplain : PlainIn '"' r.relPath.toList) : Denotes (dependencyLine r).toList r := by
  refine ⟨(pathFromBase r.relPath).toList, ?_, normalized_pathFromBase hr⟩
  have hliteral := Script.literalFrom_plain ((plainIn_pathFromBase_iff r.relPath).mpr hplain)
    (tailText r)
  rw [toList_dependencyLine, registration?_opening, hliteral, Option.bind_some,
    tokensFrom_tailText hr, Option.bind_some]
  simp only [arguments?, array?_itemTokens]

theorem plainIn_of_denotes {r : Record} (hr : WellSpelled r)
    (h : Denotes (dependencyLine r).toList r) : PlainIn '"' r.relPath.toList := by
  obtain ⟨path, hcall, hleads⟩ := h
  rw [toList_dependencyLine, registration?_opening] at hcall
  obtain ⟨⟨value, rest⟩, hliteral, harguments⟩ := Option.bind_eq_some_iff.mp hcall
  obtain ⟨tokens, -, harguments⟩ := Option.bind_eq_some_iff.mp harguments
  obtain rfl : utf16 path = value := path_of_arguments? harguments
  have hquote : '"' ∉ tailText r := fun hmem => absurd (mem_tailText hr hmem) (by decide)
  have hlength := length_pathFromBase_le hliteral hleads
  exact (plainIn_pathFromBase_iff _).mp (Script.plainIn_of_literalFrom hquote hliteral hlength)

theorem denotes_iff {r : Record} (hr : WellSpelled r) :
    Denotes (dependencyLine r).toList r ↔ PlainIn '"' r.relPath.toList :=
  ⟨plainIn_of_denotes hr, denotes_of_plainIn hr⟩

/-! ## Line by line -/

theorem splitOn_manifest_cons (r : Record) (records : List Record) :
    (manifest (r :: records)).toList.splitOn '\n' =
      (dependencyLine r).toList.splitOn '\n' ++ (manifest records).toList.splitOn '\n' := by
  have htext : (manifest (r :: records)).toList =
      (dependencyLine r).toList ++ '\n' :: (manifest records).toList := by
    unfold manifest
    rw [List.map_cons, String.join_cons, String.toList_append, String.toList_append,
      List.append_assoc]
    rfl
  rw [htext, List.splitOn_append_cons_self]

theorem length_lt_splitOn_manifest (records : List Record) :
    records.length < ((manifest records).toList.splitOn '\n').length := by
  induction records with
  | nil => decide
  | cons r records ih =>
    rw [splitOn_manifest_cons, List.length_append, Text.length_splitOn, List.length_cons]
    omega

/-- If there are no more lines than records, each record has one line. -/
theorem splitOn_manifest {records : List Record}
    (h : ((manifest records).toList.splitOn '\n').length = records.length + 1) :
    (manifest records).toList.splitOn '\n' =
      (records.map fun r => (dependencyLine r).toList) ++ [[]] := by
  induction records with
  | nil => rfl
  | cons r records ih =>
    have hrest := length_lt_splitOn_manifest records
    rw [splitOn_manifest_cons, List.length_append, Text.length_splitOn, List.length_cons] at h
    have hline : '\n' ∉ (dependencyLine r).toList := List.count_eq_zero.mp (by omega)
    rw [splitOn_manifest_cons, List.splitOn_eq_singleton hline, ih (by omega)]
    rfl

theorem length_splitOn_manifest {records : List Record} (hspelled : ∀ r ∈ records, WellSpelled r)
    (hplain : ∀ r ∈ records, PlainIn '"' r.relPath.toList) :
    ((manifest records).toList.splitOn '\n').length = records.length + 1 := by
  induction records with
  | nil => rfl
  | cons r records ih =>
    obtain ⟨hr, hrecords⟩ := List.forall_mem_cons.mp hspelled
    obtain ⟨hpath, hpaths⟩ := List.forall_mem_cons.mp hplain
    have hline : '\n' ∉ (dependencyLine r).toList := by
      have hopening : '\n' ∉ "goog.addDependency(".toList := by decide
      have hbase : '\n' ∉ (pathFromBase r.relPath).toList := fun hmem =>
        absurd ((plainIn_pathFromBase_iff _).mpr hpath _ hmem) (by decide)
      have htail : '\n' ∉ tailText r := fun hmem => absurd (mem_tailText hr hmem) (by decide)
      rw [toList_dependencyLine]
      simp only [List.mem_append, List.mem_cons, not_or]
      exact ⟨hopening, by decide, hbase, by decide, htail⟩
    rw [splitOn_manifest_cons, List.splitOn_eq_singleton hline, List.length_append,
      ih hrecords hpaths, List.length_singleton, List.length_cons]
    omega

theorem denotesAll_iff {records : List Record} (hspelled : ∀ r ∈ records, WellSpelled r) :
    DenotesAll (manifest records).toList records ↔
      ∀ r ∈ records, PlainIn '"' r.relPath.toList := by
  constructor
  · rintro ⟨lines, hlines, hdenotes⟩
    have hlength : ((manifest records).toList.splitOn '\n').length = records.length + 1 := by
      rw [hlines, List.length_append, hdenotes.length_eq, List.length_singleton]
    rw [splitOn_manifest hlength] at hlines
    obtain rfl := List.append_cancel_right hlines
    rw [List.forall₂_map_left_iff, List.forall₂_same] at hdenotes
    exact fun r hr => plainIn_of_denotes (hspelled r hr) (hdenotes r hr)
  · intro hplain
    refine ⟨_, splitOn_manifest (length_splitOn_manifest hspelled hplain), ?_⟩
    rw [List.forall₂_map_left_iff, List.forall₂_same]
    exact fun r hr => denotes_of_plainIn (hspelled r hr) (hplain r hr)

/-- In a scanned library the line of a record denotes it exactly if its path stands for itself
between double quotes, and a manifest is made of such lines exactly if all paths do. -/
theorem manifest_denotes_iff {t : Tree} (hnamed : t.Named) {root : Pathname} {lib : Library}
    (hscan : scan t root = .ok lib) :
    (∀ r, lib.IsRecord r →
        (Denotes (dependencyLine r).toList r ↔ PlainIn '"' r.relPath.toList)) ∧
      ∀ records, (∀ r ∈ records, lib.IsRecord r) →
        (DenotesAll (manifest records).toList records ↔
          ∀ r ∈ records, PlainIn '"' r.relPath.toList) :=
  ⟨fun _ hr => denotes_iff (wellSpelled_of_isRecord hnamed hscan hr),
    fun _ hrecords => denotesAll_iff fun r hr =>
      wellSpelled_of_isRecord hnamed hscan (hrecords r hr)⟩

/-- Scripts inside and outside of the directory `goog`, the last with a quote and a character of
two units in its path. -/
def mixedNodes : List (Files.Place × Files.Node) :=
  [(["goog"], .directory), (["goog", "string.js"], script "goog.provide('goog.string')"),
    (["it's"], .directory),
    (["it's", "😀.js"], script "goog.provide('a')goog.provide('b')goog.require('goog.string')")]

def mixedLibrary : Library where
  root := ⟨"lib"⟩
  units :=
    [⟨"goog/string.js", ⟨"lib/goog/string.js"⟩, ["goog.string"], []⟩,
      ⟨"it's/😀.js", ⟨"lib/it's/😀.js"⟩, ["a", "b"], ["goog.string"]⟩]
  providers := ⟨[("goog.string", 0), ("a", 1), ("b", 1)]⟩

/-- The closure of `b`. -/
def mixedRecords : List Record :=
  mixedLibrary.records ++ [⟨[], ["b"], "it's/😀.js", ⟨"lib/it's/😀.js"⟩, .seed⟩]

theorem manifest_denotes_mixed :
    (libraryTree mixedNodes).Named ∧
      scan (libraryTree mixedNodes) ⟨"lib"⟩ = .ok mixedLibrary ∧
      mixedLibrary.closure "b" = .ok mixedRecords ∧
      (∀ r ∈ mixedRecords, Denotes (dependencyLine r).toList r) ∧
      DenotesAll (manifest mixedRecords).toList mixedRecords := by
  have hnamed : (libraryTree mixedNodes).Named := by decide +kernel
  have hscan : scan (libraryTree mixedNodes) ⟨"lib"⟩ = .ok mixedLibrary := by
    rw [scan_libraryTree (by decide +kernel) (by decide +kernel)]
    decide +kernel
  have hclosure : mixedLibrary.closure "b" = .ok mixedRecords := by decide +kernel
  have hrecords : ∀ r ∈ mixedRecords, mixedLibrary.IsRecord r :=
    fun r hr => .inr ⟨"b", mixedRecords, hclosure, hr⟩
  have hplain : ∀ r ∈ mixedRecords, PlainIn '"' r.relPath.toList := by decide +kernel
  obtain ⟨hline, hlines⟩ := manifest_denotes_iff hnamed hscan
  refine ⟨hnamed, hscan, hclosure, ?_, (hlines _ hrecords).mpr hplain⟩
  exact fun r hr => (hline r (hrecords r hr)).mpr (hplain r hr)

/-- A script with a double quote in its path. -/
def quotedNodes : List (Files.Place × Files.Node) :=
  [(["a\"b.js"], script "goog.provide('a')")]

def quotedRecord : Record := ⟨["a"], [], "a\"b.js", ⟨"lib/a\"b.js"⟩, .ordinary⟩

/-- The quote in the path ends the string, and the line is no call at all. -/
theorem quoted_path_not_denoted :
    (libraryTree quotedNodes).Named ∧
      ∃ lib, scan (libraryTree quotedNodes) ⟨"lib"⟩ = .ok lib ∧ lib.records = [quotedRecord] ∧
        dependencyLine quotedRecord = "goog.addDependency(\"../a\"b.js\", ['a'], []);" ∧
        registration? (dependencyLine quotedRecord).toList = none ∧
        ¬Denotes (dependencyLine quotedRecord).toList quotedRecord ∧
        ¬DenotesAll (manifest lib.records).toList lib.records := by
  have hnamed : (libraryTree quotedNodes).Named := by decide +kernel
  have hscan : scan (libraryTree quotedNodes) ⟨"lib"⟩ =
      .ok ⟨⟨"lib"⟩, [⟨"a\"b.js", ⟨"lib/a\"b.js"⟩, ["a"], []⟩], ⟨[("a", 0)]⟩⟩ := by
    rw [scan_libraryTree (by decide) (by decide)]
    decide +kernel
  have hnone : registration? (dependencyLine quotedRecord).toList = none := by decide +kernel
  refine ⟨hnamed, _, hscan, rfl, by decide +kernel, hnone, ?_, fun hall => ?_⟩
  · rintro ⟨path, hcall, -⟩
    rw [hnone] at hcall
    contradiction
  · have hspelled : ∀ r ∈ [quotedRecord], WellSpelled r :=
      fun r hr => wellSpelled_of_isRecord hnamed hscan (.inl hr)
    have hplain := (denotesAll_iff hspelled).mp hall quotedRecord (by decide)
    exact absurd hplain (by decide)

end LiveLisp.Library
