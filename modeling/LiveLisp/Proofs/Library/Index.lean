import LiveLisp.Library.Basic
import Mathlib.Data.List.TakeDrop
/-!
# The index of a library

A scanned library knows the provider of a namespace by its place among the units.  The index and
the units agree: a namespace is indexed at a place exactly if the unit there provides it.  So no
namespace has two providers, and as no unit provides nothing, units are told apart by what they
provide.
-/

namespace LiveLisp.Library

open Files (Pathname Tree)

/-! ## Names in declarations -/

theorem all_isNameChar_of_callAt? {function text name rest : List Char}
    (h : callAt? function text = some (name, rest)) : name.all isNameChar = true := by
  unfold callAt? at h
  repeat' split at h
  all_goals try contradiction
  next hspan _ _ _ _ =>
    obtain ⟨rfl, -⟩ := Prod.mk.inj (Option.some.inj h)
    rw [List.span_eq_takeWhile_dropWhile] at hspan
    rw [← (Prod.mk.inj hspan).1]
    exact List.all_takeWhile

theorem all_isNameChar_of_mem_callsFrom {function text : List Char} {skip : Nat} {ns : String}
    (h : ns ∈ callsFrom function skip text) : ns.toList.all isNameChar = true := by
  induction text generalizing skip with
  | nil => simp [callsFrom] at h
  | cons c text ih =>
    cases skip with
    | succ skip => exact ih h
    | zero =>
      rw [callsFrom] at h
      split at h
      · next name after hcall =>
        rcases List.mem_cons.mp h with rfl | h
        · rw [String.toList_ofList]
          exact all_isNameChar_of_callAt? hcall
        · exact ih h
      · exact ih h

theorem all_isNameChar_of_mem_providesOf {js ns : String} (h : ns ∈ providesOf js) :
    ns.toList.all isNameChar = true := by
  rw [providesOf, distinct, mem_insertAllNew] at h
  exact all_isNameChar_of_mem_callsFrom (h.resolve_left List.not_mem_nil)

/-! ## Agreement of index and units -/

/-- The index leads from a namespace to the place of its provider.  Every unit provides something,
under names as they stand in declarations. -/
structure Indexed (lib : Library) : Prop where
  provider_iff : ∀ ns i,
    lib.providers.get? ns = some i ↔ ∃ u, lib.units[i]? = some u ∧ ns ∈ u.provides
  provides_ne_nil : ∀ u ∈ lib.units, u.provides ≠ []
  spelling : ∀ u ∈ lib.units, ∀ ns ∈ u.provides, ns.toList.all isNameChar = true

theorem indexed_empty (root : Pathname) : Indexed (empty root) where
  provider_iff ns i := by simp [empty]
  provides_ne_nil u hu := absurd hu List.not_mem_nil
  spelling u hu := absurd hu List.not_mem_nil

theorem get?_of_claim {lib : Library} {relPath : String} {i : Nat}
    {providers providers' : Table String Nat} {names : List String}
    (h : lib.claim relPath i providers names = .ok providers') (ns : String) :
    providers'.get? ns = if ns ∈ names then some i else providers.get? ns := by
  induction names generalizing providers with
  | nil =>
    obtain rfl := Except.ok.inj h
    simp
  | cons name names ih =>
    rw [claim] at h
    split at h
    · contradiction
    · rw [ih h, Table.get?_insert]
      by_cases hns : ns ∈ names
      · simp [hns]
      · by_cases heq : name = ns
        · simp [heq]
        · simp [hns, heq, Ne.symm heq]

/-- What is claimed was free. -/
theorem get?_eq_none_of_claim {lib : Library} {relPath : String} {i : Nat}
    {providers providers' : Table String Nat} {names : List String}
    (h : lib.claim relPath i providers names = .ok providers') {ns : String} (hns : ns ∈ names) :
    providers.get? ns = none := by
  induction names generalizing providers with
  | nil => exact absurd hns List.not_mem_nil
  | cons name names ih =>
    rw [claim] at h
    split at h
    · contradiction
    · next hfree =>
      rcases List.mem_cons.mp hns with rfl | hns
      · exact hfree
      · have hafter := ih h hns
        rw [Table.get?_insert] at hafter
        split at hafter
        · contradiction
        · exact hafter

theorem getElem?_concat_eq_some_iff {α : Type} {xs : List α} {x y : α} {i : Nat} :
    (xs ++ [x])[i]? = some y ↔ xs[i]? = some y ∨ i = xs.length ∧ x = y := by
  rcases Nat.lt_trichotomy i xs.length with hlt | heq | hgt
  · rw [List.getElem?_append_left hlt]
    simp [Nat.ne_of_lt hlt]
  · subst heq
    simp
  · rw [List.getElem?_eq_none (by simp; omega), List.getElem?_eq_none (by omega)]
    simp [Nat.ne_of_gt hgt]

theorem Indexed.add {lib lib' : Library} {u : CompiledUnit} (h : Indexed lib)
    (hne : u.provides ≠ []) (hspelling : ∀ ns ∈ u.provides, ns.toList.all isNameChar = true)
    (hadd : lib.add u = .ok lib') : Indexed lib' := by
  unfold Library.add at hadd
  split at hadd
  · next providers hclaim =>
    obtain rfl := Except.ok.inj hadd
    refine ⟨?_, ?_, ?_⟩
    · intro ns i
      change providers.get? ns = some i ↔
        ∃ v, (lib.units ++ [u])[i]? = some v ∧ ns ∈ v.provides
      simp only [getElem?_concat_eq_some_iff]
      rw [get?_of_claim hclaim]
      by_cases hns : ns ∈ u.provides
      · rw [if_pos hns, Option.some.injEq]
        constructor
        · rintro rfl
          exact ⟨u, .inr ⟨rfl, rfl⟩, hns⟩
        · rintro ⟨v, hv | ⟨rfl, rfl⟩, hmem⟩
          · -- a unit that is there already would own the claimed name
            have howned := (h.provider_iff ns i).mpr ⟨v, hv, hmem⟩
            rw [get?_eq_none_of_claim hclaim hns] at howned
            contradiction
          · rfl
      · rw [if_neg hns, h.provider_iff]
        constructor
        · rintro ⟨v, hv, hmem⟩
          exact ⟨v, .inl hv, hmem⟩
        · rintro ⟨v, hv | ⟨rfl, rfl⟩, hmem⟩
          · exact ⟨v, hv, hmem⟩
          · exact absurd hmem hns
    · intro v hv
      rcases List.mem_append.mp hv with hv | hv
      · exact h.provides_ne_nil v hv
      · rwa [List.mem_singleton.mp hv]
    · intro v hv
      rcases List.mem_append.mp hv with hv | hv
      · exact h.spelling v hv
      · rwa [List.mem_singleton.mp hv]
  · contradiction

/-! ## Units read from files -/

/-- Adds units in order. -/
def addUnits (lib : Library) (units : List CompiledUnit) : Except BuildError Library :=
  units.foldlM add lib

theorem addUnits_cons (lib : Library) (u : CompiledUnit) (units : List CompiledUnit) :
    lib.addUnits (u :: units) = lib.add u >>= (·.addUnits units) :=
  List.foldlM_cons ..

theorem addUnits_cons_of_ok {lib lib' : Library} {u : CompiledUnit} (h : lib.add u = .ok lib')
    (units : List CompiledUnit) : lib.addUnits (u :: units) = lib'.addUnits units := by
  rw [addUnits_cons, h]
  rfl

theorem addUnits_cons_of_error {lib : Library} {u : CompiledUnit} {e : BuildError}
    (h : lib.add u = .error e) (units : List CompiledUnit) :
    lib.addUnits (u :: units) = .error e := by
  rw [addUnits_cons, h]
  rfl

theorem add_eq_ok {lib lib' : Library} {u : CompiledUnit} (h : lib.add u = .ok lib') :
    lib'.root = lib.root ∧ lib'.units = lib.units ++ [u] := by
  unfold Library.add at h
  split at h
  · obtain rfl := Except.ok.inj h
    exact ⟨rfl, rfl⟩
  · contradiction

theorem addUnits_eq_ok {lib lib' : Library} {units : List CompiledUnit}
    (h : lib.addUnits units = .ok lib') :
    lib'.root = lib.root ∧ lib'.units = lib.units ++ units := by
  induction units generalizing lib with
  | nil =>
    obtain rfl := Except.ok.inj h
    exact ⟨rfl, (List.append_nil _).symm⟩
  | cons u units ih =>
    cases hadd : lib.add u with
    | error e =>
      rw [addUnits_cons_of_error hadd] at h
      contradiction
    | ok lib₁ =>
      rw [addUnits_cons_of_ok hadd] at h
      obtain ⟨hroot₁, hunits₁⟩ := add_eq_ok hadd
      obtain ⟨hroot, hunits⟩ := ih h
      refine ⟨hroot.trans hroot₁, ?_⟩
      rw [hunits, hunits₁, List.append_assoc, List.singleton_append]

/-- The unit provides something, as the text of a script says. -/
def Declared (u : CompiledUnit) : Prop := u.provides ≠ [] ∧ ∃ js, u.provides = providesOf js

theorem Indexed.add_declared {lib lib' : Library} {u : CompiledUnit} (h : Indexed lib)
    (hu : Declared u) (hadd : lib.add u = .ok lib') : Indexed lib' := by
  obtain ⟨hne, js, hjs⟩ := hu
  refine h.add hne (fun ns hns => ?_) hadd
  rw [hjs] at hns
  exact all_isNameChar_of_mem_providesOf hns

theorem Indexed.addUnits {lib lib' : Library} {units : List CompiledUnit} (h : Indexed lib)
    (hunits : ∀ u ∈ units, Declared u) (hadd : lib.addUnits units = .ok lib') : Indexed lib' := by
  induction units generalizing lib with
  | nil =>
    obtain rfl := Except.ok.inj hadd
    exact h
  | cons u units ih =>
    obtain ⟨hu, hrest⟩ := List.forall_mem_cons.mp hunits
    cases hadd₁ : lib.add u with
    | error e =>
      rw [addUnits_cons_of_error hadd₁] at hadd
      contradiction
    | ok lib₁ =>
      rw [addUnits_cons_of_ok hadd₁] at hadd
      exact ih (h.add_declared hu hadd₁) hrest hadd

/-- The unit is what one of the files says, and it provides something. -/
def ReadFrom (root : Pathname) (files : List (Pathname × List UInt8)) (u : CompiledUnit) : Prop :=
  ∃ path content js, (path, content) ∈ files ∧
    u = ⟨relativeText root path, path, providesOf js, requiresOf js⟩ ∧ u.provides ≠ []

theorem ReadFrom.declared {root : Pathname} {files : List (Pathname × List UInt8)}
    {u : CompiledUnit} (h : ReadFrom root files u) : Declared u := by
  obtain ⟨path, content, js, -, rfl, hne⟩ := h
  exact ⟨hne, js, rfl⟩

theorem ReadFrom.cons {root : Pathname} {files : List (Pathname × List UInt8)} {u : CompiledUnit}
    (h : ReadFrom root files u) (file : Pathname × List UInt8) :
    ReadFrom root (file :: files) u := by
  obtain ⟨path, content, js, hmem, hu⟩ := h
  exact ⟨path, content, js, List.mem_cons_of_mem _ hmem, hu⟩

/-- Files that are taken in come down to units that are added. -/
theorem exists_units_of_addFiles {lib lib' : Library} {files : List (Pathname × List UInt8)}
    (h : lib.addFiles files = .ok lib') :
    ∃ units, lib.addUnits units = .ok lib' ∧ ∀ u ∈ units, ReadFrom lib.root files u := by
  induction files generalizing lib with
  | nil => exact ⟨[], h, by simp⟩
  | cons file files ih =>
    obtain ⟨path, content⟩ := file
    have hskip : lib.addFiles files = .ok lib' → ∃ units, lib.addUnits units = .ok lib' ∧
        ∀ u ∈ units, ReadFrom lib.root ((path, content) :: files) u := by
      intro hrest
      obtain ⟨units, hunits, hread⟩ := ih hrest
      exact ⟨units, hunits, fun u hu => (hread u hu).cons _⟩
    rw [Library.addFiles] at h
    split at h
    · exact hskip h
    · split at h
      · contradiction
      · next js hjs =>
        dsimp only at h
        split at h
        · exact hskip h
        · next hne =>
          split at h
          · next lib₁ hlib₁ =>
            obtain ⟨units, hunits, hread⟩ := ih h
            rw [(add_eq_ok hlib₁).1] at hread
            refine ⟨_ :: units, (addUnits_cons_of_ok hlib₁ units).trans hunits, ?_⟩
            refine List.forall_mem_cons.mpr ⟨⟨path, content, js, by simp, rfl, ?_⟩, ?_⟩
            · simpa using hne
            · exact fun u hu => (hread u hu).cons _
          · contradiction

/-- A scan adds the units that are read from the files below its root. -/
theorem scan_eq_ok {t : Tree} {root : Pathname} {lib : Library} (h : scan t root = .ok lib) :
    lib.root = root ∧ (empty root).addUnits lib.units = .ok lib ∧
      ∃ files, t.filesBelow? root = some files ∧ ∀ u ∈ lib.units, ReadFrom root files u := by
  unfold scan at h
  split at h
  · next files hfiles =>
    obtain ⟨units, hunits, hread⟩ := exists_units_of_addFiles h
    obtain ⟨hroot, hall⟩ := addUnits_eq_ok hunits
    obtain rfl : lib.units = units := hall
    exact ⟨hroot, hunits, files, hfiles, hread⟩
  · contradiction

theorem indexed_of_scan {t : Tree} {root : Pathname} {lib : Library}
    (h : scan t root = .ok lib) : Indexed lib := by
  obtain ⟨-, hunits, files, -, hread⟩ := scan_eq_ok h
  exact (indexed_empty root).addUnits (fun u hu => (hread u hu).declared) hunits

/-! ## Providers -/

namespace Indexed

variable {lib : Library}

theorem provider_eq_ok (h : Indexed lib) {ns : String} {i : Nat} :
    lib.provider ns = .ok i ↔ ∃ u, lib.units[i]? = some u ∧ ns ∈ u.provides := by
  rw [← h.provider_iff, provider]
  cases lib.providers.get? ns <;> simp

/-- Units are told apart by any name they provide. -/
theorem index_unique (h : Indexed lib) {i j : Nat} {u v : CompiledUnit} {ns : String}
    (hu : lib.units[i]? = some u) (hv : lib.units[j]? = some v) (hnu : ns ∈ u.provides)
    (hnv : ns ∈ v.provides) : i = j := by
  have hi := (h.provider_iff ns i).mpr ⟨u, hu, hnu⟩
  have hj := (h.provider_iff ns j).mpr ⟨v, hv, hnv⟩
  rw [hi] at hj
  exact Option.some.inj hj

theorem unit_unique (h : Indexed lib) {u v : CompiledUnit} {ns : String} (hu : u ∈ lib.units)
    (hv : v ∈ lib.units) (hnu : ns ∈ u.provides) (hnv : ns ∈ v.provides) : u = v := by
  obtain ⟨i, hi⟩ := List.mem_iff_getElem?.mp hu
  obtain ⟨j, hj⟩ := List.mem_iff_getElem?.mp hv
  obtain rfl := h.index_unique hi hj hnu hnv
  rw [hi] at hj
  exact Option.some.inj hj

/-- No unit stands at two places. -/
theorem index_of_unit (h : Indexed lib) {i j : Nat} {u : CompiledUnit}
    (hi : lib.units[i]? = some u) (hj : lib.units[j]? = some u) : i = j := by
  obtain ⟨ns, hns⟩ := List.exists_mem_of_ne_nil _ (h.provides_ne_nil u (List.mem_of_getElem? hi))
  exact h.index_unique hi hj hns hns

end Indexed

/-! ## Sample trees -/

/-- A tree with the given nodes below the directory `lib`. -/
def libraryTree (nodes : List (Files.Place × Files.Node)) : Tree where
  cwd := ["home"]
  nodes := ⟨[(["home"], .directory), (["home", "lib"], .directory)] ++
    nodes.map fun node => (["home", "lib"] ++ node.1, node.2)⟩

/-- A script as a file that cannot be run. -/
def script (js : String) : Files.Node := .file (Text.Utf8.encode js) false

theorem below_libraryTree {nodes : List (Files.Place × Files.Node)}
    (hne : ∀ node ∈ nodes, node.1 ≠ [])
    (hsorted : nodes.Pairwise fun a b => Tree.placeBefore a.1 b.1) :
    (libraryTree nodes).below ["home", "lib"] = nodes := by
  have hinside : (nodes.map fun node => (["home", "lib"] ++ node.1, node.2)).filter
      (fun e => ["home", "lib"].isPrefixOf e.1 && ["home", "lib"] != e.1) =
        nodes.map fun node => (["home", "lib"] ++ node.1, node.2) := by
    refine List.filter_eq_self.mpr fun e he => ?_
    obtain ⟨node, hnode, rfl⟩ := List.mem_map.mp he
    simpa using hne node hnode
  have houtside : ([(["home"], .directory), (["home", "lib"], .directory)] :
      List (Files.Place × Files.Node)).filter
        (fun e => ["home", "lib"].isPrefixOf e.1 && ["home", "lib"] != e.1) = [] := by decide
  unfold Tree.below libraryTree
  dsimp only
  rw [List.filter_append, houtside, hinside, List.nil_append, List.map_map]
  have hid : nodes.map ((fun e => (e.1.drop 2, e.2)) ∘
      fun node => (["home", "lib"] ++ node.1, node.2)) = nodes := List.map_id nodes
  exact hid.symm ▸ List.mergeSort_of_pairwise hsorted

/-- The file that a node below `lib` is, if it is one. -/
def fileOf? : Files.Place × Files.Node → Option (Pathname × List UInt8)
  | (_, .directory) => none
  | (names, .file content _) => some (names.foldl Pathname.join ⟨"lib"⟩, content)

/-- Scanning such a tree takes its files in as they stand: sorting, which does not compute in the
kernel, leaves nodes alone that stand in order. -/
theorem scan_libraryTree {nodes : List (Files.Place × Files.Node)}
    (hne : ∀ node ∈ nodes, node.1 ≠ [])
    (hsorted : nodes.Pairwise fun a b => Tree.placeBefore a.1 b.1) :
    scan (libraryTree nodes) ⟨"lib"⟩ =
      (empty ⟨"lib"⟩).addFiles (nodes.filterMap fileOf?) := by
  have hlocate : (libraryTree nodes).locate ⟨"lib"⟩ = .ok (["home", "lib"], some .directory) := by
    rfl
  have hfiles : (libraryTree nodes).filesBelow? ⟨"lib"⟩ = some (nodes.filterMap fileOf?) := by
    unfold Tree.filesBelow?
    rw [hlocate]
    dsimp only
    rw [below_libraryTree hne hsorted]
    congr 2
    funext ⟨names, node⟩
    cases node <;> rfl
  unfold scan
  rw [hfiles]

end LiveLisp.Library
