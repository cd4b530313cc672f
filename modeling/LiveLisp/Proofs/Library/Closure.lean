import LiveLisp.Library.Closure
import LiveLisp.Proofs.Library.Index
import Mathlib.Data.List.Nodup
import Mathlib.Data.List.Perm.Subperm
import Mathlib.Logic.Relation
/-!
# Closures are schedules

The depth-first visit of a unit leaves a list of places in which every unit stands once and after
the units it requires, and it adds nothing but what the unit reaches by its requirements.  A closure
that is found therefore lists exactly the units that its namespace needs, in an order in which they
can be loaded.
-/

namespace LiveLisp.Library

open Files (Pathname Tree)
open Relation (ReflTransGen)

variable {lib : Library}

/-! ## Schedules -/

/-- The namespaces whose providers must come before the unit at a place. -/
def needs (lib : Library) (i : Nat) : List String :=
  ((lib.units[i]?.map CompiledUnit.requires).getD []).filter (· ≠ "goog")

/-- The unit at `j` provides something that the unit at `i` needs. -/
def LeadsTo (lib : Library) (i j : Nat) : Prop := ∃ ns ∈ lib.needs i, lib.provider ns = .ok j

/-- Places in an order in which their units can be loaded. -/
structure Schedule (lib : Library) (order : List Nat) : Prop where
  nodup : order.Nodup
  ready : ∀ before i rest, order = before ++ i :: rest →
    ∀ ns ∈ lib.needs i, ∃ j ∈ before, lib.provider ns = .ok j

theorem schedule_nil : Schedule lib [] where
  nodup := List.nodup_nil
  ready before i rest h := by simp at h

theorem append_singleton_eq_split {α : Type} {xs before rest : List α} {x y : α}
    (h : xs ++ [x] = before ++ y :: rest) :
    (xs = before ∧ x = y) ∨ ∃ rest', xs = before ++ y :: rest' := by
  rcases List.eq_nil_or_concat rest with rfl | ⟨rest', last, rfl⟩
  · obtain ⟨hxs, hx⟩ := List.append_inj' h rfl
    exact .inl ⟨hxs, (List.cons.inj hx).1⟩
  · have h' : xs ++ [x] = (before ++ y :: rest') ++ [last] := by
      rw [h, List.concat_eq_append, List.append_assoc, List.cons_append]
    exact .inr ⟨rest', (List.append_inj' h' rfl).1⟩

theorem Schedule.concat {order : List Nat} {i : Nat} (h : Schedule lib order) (hi : i ∉ order)
    (hneeds : ∀ ns ∈ lib.needs i, ∃ j ∈ order, lib.provider ns = .ok j) :
    Schedule lib (order ++ [i]) := by
  refine ⟨?_, ?_⟩
  · rw [List.nodup_append]
    refine ⟨h.nodup, List.nodup_singleton i, ?_⟩
    intro a ha b hb hab
    rw [List.mem_singleton] at hb
    exact hi (hb ▸ hab ▸ ha)
  · intro before k rest heq
    rcases append_singleton_eq_split heq with ⟨rfl, rfl⟩ | ⟨rest', hrest⟩
    · exact hneeds
    · exact h.ready before k rest' hrest

/-! ## Visits -/

/-- `order'` goes on from `order` to a schedule, by places that are reached and that are not being
visited. -/
structure Extends (lib : Library) (stack order order' : List Nat) (reached : Nat → Prop) :
    Prop where
  schedule : Schedule lib order'
  grows : order <+: order'
  added : ∀ j ∈ order', j ∉ order → j ∉ stack ∧ reached j

namespace Extends

variable {stack order order' order'' : List Nat} {reached reached' : Nat → Prop}

theorem refl (h : Schedule lib order) : Extends lib stack order order reached :=
  ⟨h, List.prefix_refl _, fun _ hj hnot => absurd hj hnot⟩

theorem trans (h : Extends lib stack order order' reached)
    (h' : Extends lib stack order' order'' reached) : Extends lib stack order order'' reached := by
  refine ⟨h'.schedule, h.grows.trans h'.grows, ?_⟩
  intro j hj hnot
  by_cases hmid : j ∈ order'
  · exact h.added j hmid hnot
  · exact h'.added j hj hmid

theorem mono (h : Extends lib stack order order' reached) (himp : ∀ j, reached j → reached' j) :
    Extends lib stack order order' reached' :=
  ⟨h.schedule, h.grows, fun j hj hnot => (h.added j hj hnot).imp_right (himp j)⟩

end Extends

/-- Visits the providers of names one after the other. -/
def visitAll (lib : Library) (fuel : Nat) (stack order : List Nat) (names : List String) :
    Except BuildError (List Nat) :=
  names.foldlM (fun order ns =>
    match lib.provider ns with
    | .ok j => lib.visit fuel stack order j
    | .error e => .error e) order

/-- A unit that is neither done nor being visited comes after what it needs. -/
theorem visit_succ (fuel : Nat) (stack order : List Nat) (i : Nat) :
    lib.visit (fuel + 1) stack order i =
      if order.contains i then .ok order
      else if stack.contains i then
        .error (.cycle (cycleFrom (lib.primaryName i) (stack.map lib.primaryName)))
      else
        match lib.visitAll fuel (stack ++ [i]) order (lib.needs i) with
        | .ok order => .ok (order ++ [i])
        | .error e => .error e := rfl

theorem visitAll_cons {fuel : Nat} {stack order order' : List Nat} {ns : String}
    {names : List String} (h : lib.visitAll fuel stack order (ns :: names) = .ok order') :
    ∃ j middle, lib.provider ns = .ok j ∧ lib.visit fuel stack order j = .ok middle ∧
      lib.visitAll fuel stack middle names = .ok order' := by
  unfold visitAll at h
  rw [List.foldlM_cons] at h
  cases hj : lib.provider ns with
  | error e =>
    simp only [hj] at h
    contradiction
  | ok j =>
    simp only [hj] at h
    cases hmiddle : lib.visit fuel stack order j with
    | error e =>
      rw [hmiddle] at h
      contradiction
    | ok middle =>
      rw [hmiddle] at h
      exact ⟨j, middle, rfl, hmiddle, h⟩

/-- What a visit of the unit at `i` does. -/
structure Visited (lib : Library) (stack order order' : List Nat) (i : Nat) : Prop
    extends Extends lib stack order order' (ReflTransGen lib.LeadsTo i) where
  done : i ∈ order'
  last : i ∉ order → order'.getLast? = some i

/-- The providers of names are visited one by one, if every single visit goes well. -/
theorem extends_of_visitAll {fuel : Nat} {stack : List Nat}
    (hvisit : ∀ {order order' j ns}, lib.provider ns = .ok j → Schedule lib order →
      lib.visit fuel stack order j = .ok order' → Visited lib stack order order' j)
    {order order' : List Nat} {names : List String} (hsched : Schedule lib order)
    (h : lib.visitAll fuel stack order names = .ok order') :
    Extends lib stack order order'
        (fun j => ∃ ns ∈ names, ∃ k, lib.provider ns = .ok k ∧ ReflTransGen lib.LeadsTo k j) ∧
      ∀ ns ∈ names, ∃ k ∈ order', lib.provider ns = .ok k := by
  induction names generalizing order with
  | nil =>
    obtain rfl := Except.ok.inj h
    exact ⟨.refl hsched, fun ns hns => absurd hns List.not_mem_nil⟩
  | cons ns names ih =>
    obtain ⟨j, middle, hj, hmiddle, hrest⟩ := visitAll_cons h
    have hfirst := hvisit hj hsched hmiddle
    obtain ⟨hext, hnames⟩ := ih hfirst.schedule hrest
    refine ⟨(hfirst.toExtends.mono ?_).trans (hext.mono ?_), ?_⟩
    · exact fun k hk => ⟨ns, List.mem_cons_self, j, hj, hk⟩
    · rintro k ⟨m, hm, hreach⟩
      exact ⟨m, List.mem_cons_of_mem _ hm, hreach⟩
    · intro m hm
      rcases List.mem_cons.mp hm with rfl | hm
      · exact ⟨j, hext.grows.subset hfirst.done, hj⟩
      · exact hnames m hm

/-- Units on the stack are different, so there is fuel for every visit that is still to come. -/
theorem stack_length_le {stack : List Nat} {n : Nat} (hnodup : stack.Nodup)
    (hlt : ∀ j ∈ stack, j < n) : stack.length ≤ n := by
  have hsub : stack ⊆ List.range n := fun j hj => List.mem_range.mpr (hlt j hj)
  have hle := (List.subperm_of_subset hnodup hsub).length_le
  rwa [List.length_range] at hle

theorem Indexed.lt_of_provider (h : Indexed lib) {ns : String} {i : Nat}
    (hi : lib.provider ns = .ok i) : i < lib.units.length := by
  obtain ⟨u, hu, -⟩ := h.provider_eq_ok.mp hi
  exact (List.getElem?_eq_some_iff.mp hu).1

theorem visited_of_visit (h : Indexed lib) {fuel : Nat} {stack order order' : List Nat} {i : Nat}
    (hsched : Schedule lib order) (hstack : stack.Nodup)
    (hlt : ∀ j ∈ stack, j < lib.units.length) (hfuel : lib.units.length < fuel + stack.length)
    (hi : i < lib.units.length) (hvisit : lib.visit fuel stack order i = .ok order') :
    Visited lib stack order order' i := by
  induction fuel generalizing stack order order' i with
  | zero =>
    have hle := stack_length_le hstack hlt
    omega
  | succ fuel ih =>
    rw [visit_succ] at hvisit
    split at hvisit
    · next hdone =>
      obtain rfl := Except.ok.inj hvisit
      rw [List.contains_iff_mem] at hdone
      exact ⟨.refl hsched, hdone, fun hnot => absurd hdone hnot⟩
    · next hnew =>
      split at hvisit
      · contradiction
      · next hoff =>
        rw [List.contains_iff_mem] at hnew hoff
        split at hvisit
        · next middle hmiddle =>
          obtain rfl := Except.ok.inj hvisit
          -- while its requirements are visited the unit is on the stack, so none of them adds it
          have hstack' : (stack ++ [i]).Nodup := by
            rw [List.nodup_append]
            refine ⟨hstack, List.nodup_singleton i, ?_⟩
            intro a ha b hb hab
            rw [List.mem_singleton] at hb
            exact hoff (hb ▸ hab ▸ ha)
          have hlt' : ∀ j ∈ stack ++ [i], j < lib.units.length := by
            intro j hj
            rcases List.mem_append.mp hj with hj | hj
            · exact hlt j hj
            · rwa [List.mem_singleton.mp hj]
          have hfuel' : lib.units.length < fuel + (stack ++ [i]).length := by
            rw [List.length_append, List.length_singleton]
            omega
          obtain ⟨hext, hneeds⟩ := extends_of_visitAll
            (fun hj hs hv => ih hs hstack' hlt' hfuel' (h.lt_of_provider hj) hv) hsched hmiddle
          have hfresh : i ∉ middle := by
            intro hmem
            exact (hext.added i hmem hnew).1 (by simp)
          refine ⟨⟨hext.schedule.concat hfresh hneeds, ?_, ?_⟩, ?_, ?_⟩
          · exact hext.grows.trans (List.prefix_append _ _)
          · intro j hj hnot
            rcases List.mem_append.mp hj with hj | hj
            · obtain ⟨hoff', ns, hns, k, hk, hreach⟩ := hext.added j hj hnot
              refine ⟨fun hmem => hoff' (List.mem_append_left _ hmem), ?_⟩
              exact .head ⟨ns, hns, hk⟩ hreach
            · rw [List.mem_singleton.mp hj]
              exact ⟨hoff, .refl⟩
          · exact List.mem_append_right _ (List.mem_singleton_self i)
          · exact fun _ => List.getLast?_concat
        · contradiction

/-! ## Units that need each other -/

/-- `u` requires a namespace that `v` provides.  The namespace of the base script is nobody's. -/
def Requires (lib : Library) (u v : CompiledUnit) : Prop :=
  v ∈ lib.units ∧ ∃ ns ∈ u.requires, ns ≠ "goog" ∧ ns ∈ v.provides

theorem mem_needs {i : Nat} {u : CompiledUnit} {ns : String} (hu : lib.units[i]? = some u) :
    ns ∈ lib.needs i ↔ ns ∈ u.requires ∧ ns ≠ "goog" := by
  simp [needs, hu]

theorem Indexed.requires_of_leadsTo (h : Indexed lib) {i j : Nat} {u : CompiledUnit}
    (hu : lib.units[i]? = some u) (hlead : lib.LeadsTo i j) :
    ∃ v, lib.units[j]? = some v ∧ lib.Requires u v := by
  obtain ⟨ns, hns, hj⟩ := hlead
  obtain ⟨hreq, hgoog⟩ := (mem_needs hu).mp hns
  obtain ⟨v, hv, hprovides⟩ := h.provider_eq_ok.mp hj
  exact ⟨v, hv, List.mem_of_getElem? hv, ns, hreq, hgoog, hprovides⟩

theorem Indexed.reaches_of_leadsTo (h : Indexed lib) {i j : Nat} {u : CompiledUnit}
    (hu : lib.units[i]? = some u) (hlead : ReflTransGen lib.LeadsTo i j) :
    ∃ v, lib.units[j]? = some v ∧ ReflTransGen lib.Requires u v := by
  induction hlead with
  | refl => exact ⟨u, hu, .refl⟩
  | tail _ hlast ih =>
    obtain ⟨v, hv, hreach⟩ := ih
    obtain ⟨w, hw, hreq⟩ := h.requires_of_leadsTo hv hlast
    exact ⟨w, hw, hreach.tail hreq⟩

/-- `units` are what `ns` needs, the provider of `ns` last, in an order in which they can be
loaded. -/
structure ClosureOf (lib : Library) (ns : String) (provider : CompiledUnit)
    (units : List CompiledUnit) : Prop where
  provides : ns ∈ provider.provides
  inside : ∀ u ∈ units, u ∈ lib.units
  nodup : units.Nodup
  supplied : ∀ before u rest, units = before ++ u :: rest →
    ∀ name ∈ u.requires, name ≠ "goog" → ∃ v ∈ before, name ∈ v.provides
  reached : ∀ u ∈ units, ReflTransGen lib.Requires provider u
  last : units.getLast? = some provider

/-- The units of a schedule are in order too. -/
theorem Schedule.supplied (h : Indexed lib) {order : List Nat} (hsched : Schedule lib order)
    {before rest : List CompiledUnit} {u : CompiledUnit}
    (heq : order.filterMap (lib.units[·]?) = before ++ u :: rest) {name : String}
    (hname : name ∈ u.requires) (hgoog : name ≠ "goog") : ∃ v ∈ before, name ∈ v.provides := by
  obtain ⟨left, right, rfl, rfl, hright⟩ := List.filterMap_eq_append_iff.mp heq
  obtain ⟨skipped, i, rest', rfl, hskipped, hu, -⟩ := List.filterMap_eq_cons_iff.mp hright
  have heq' : left ++ (skipped ++ i :: rest') = (left ++ skipped) ++ i :: rest' := by
    rw [List.append_assoc]
  obtain ⟨j, hj, hprovider⟩ :=
    hsched.ready _ i rest' heq' name ((mem_needs hu).mpr ⟨hname, hgoog⟩)
  obtain ⟨v, hv, hprovides⟩ := h.provider_eq_ok.mp hprovider
  refine ⟨v, ?_, hprovides⟩
  rcases List.mem_append.mp hj with hj | hj
  · exact List.mem_filterMap.mpr ⟨j, hj, hv⟩
  · rw [hskipped j hj] at hv
    contradiction

theorem closureOf_of_closure (h : Indexed lib) {ns : String} {records : List Record}
    (hclosure : lib.closure ns = .ok records) :
    ∃ provider units, records = units.map Record.ofUnit ++ [Record.seedOf ns provider] ∧
      ClosureOf lib ns provider units := by
  unfold closure at hclosure
  split at hclosure
  · contradiction
  · next start hstart =>
    split at hclosure
    · contradiction
    · next order horder =>
      obtain ⟨provider, hprovider, hns⟩ := h.provider_eq_ok.mp hstart
      have hvisited : Visited lib [] [] order start :=
        visited_of_visit h schedule_nil List.nodup_nil (fun j hj => absurd hj List.not_mem_nil)
          (by simp) (h.lt_of_provider hstart) horder
      refine ⟨provider, order.filterMap (lib.units[·]?), ?_, ?_⟩
      · rw [← Except.ok.inj hclosure, hprovider]
        rfl
      · refine ⟨hns, ?_, ?_, ?_, ?_, ?_⟩
        · intro u hu
          obtain ⟨i, -, hi⟩ := List.mem_filterMap.mp hu
          exact List.mem_of_getElem? hi
        · exact hvisited.schedule.nodup.filterMap fun i j u hi hj => h.index_of_unit hi hj
        · exact fun before u rest heq name hname hgoog =>
            hvisited.schedule.supplied h heq hname hgoog
        · intro u hu
          obtain ⟨i, hi, hu⟩ := List.mem_filterMap.mp hu
          have hreach := (hvisited.added i hi List.not_mem_nil).2
          obtain ⟨v, hv, hreach⟩ := h.reaches_of_leadsTo hprovider hreach
          rw [hu] at hv
          rwa [Option.some.inj hv]
        · obtain ⟨front, rfl⟩ : ∃ front, order = front ++ [start] :=
            List.getLast?_eq_some_iff.mp (hvisited.last List.not_mem_nil)
          rw [List.filterMap_append]
          simp [hprovider]

theorem ClosureOf.mem_of_requires (h : Indexed lib) {ns : String} {provider : CompiledUnit}
    {units : List CompiledUnit} (hclosure : ClosureOf lib ns provider units)
    {before rest : List CompiledUnit} {u v : CompiledUnit} (heq : units = before ++ u :: rest)
    (hreq : lib.Requires u v) : v ∈ before := by
  obtain ⟨hv, name, hname, hgoog, hprovides⟩ := hreq
  obtain ⟨w, hw, hprovides'⟩ := hclosure.supplied before u rest heq name hname hgoog
  have hinside : w ∈ lib.units := by
    apply hclosure.inside
    rw [heq]
    exact List.mem_append_left _ hw
  rwa [h.unit_unique hv hinside hprovides hprovides']

/-- The records are those of the units that `ns` needs, each once, after all units it requires and
the provider of `ns` last, and then the seed that names the request. -/
def ListsNeeded (lib : Library) (ns : String) (records : List Record) : Prop :=
  ∃ (provider : CompiledUnit) (units : List CompiledUnit),
    records =
      units.map (fun u => ⟨u.provides, u.requires, u.relPath, u.path, .ordinary⟩) ++
        [⟨[], [ns], provider.relPath, provider.path, .seed⟩] ∧
    provider ∈ lib.units ∧ (∀ u ∈ lib.units, ns ∈ u.provides ↔ u = provider) ∧
    (∀ u, u ∈ units ↔ ReflTransGen lib.Requires provider u) ∧
    units.Nodup ∧
    (∀ before u rest, units = before ++ u :: rest → ∀ v, lib.Requires u v → v ∈ before) ∧
    units.getLast? = some provider

/-- In a scanned library a closure that is found lists what its namespace needs. -/
theorem closure_listsNeeded {t : Tree} {root : Pathname} {lib : Library}
    (hscan : scan t root = .ok lib) {ns : String} {records : List Record}
    (hclosure : lib.closure ns = .ok records) : ListsNeeded lib ns records := by
  have h := indexed_of_scan hscan
  obtain ⟨provider, units, rfl, hof⟩ := closureOf_of_closure h hclosure
  have hlast : provider ∈ units := List.mem_of_getLast? hof.last
  have hordered : ∀ before u rest, units = before ++ u :: rest →
      ∀ v, lib.Requires u v → v ∈ before :=
    fun before u rest heq v hreq => hof.mem_of_requires h heq hreq
  refine ⟨provider, units, rfl, hof.inside provider hlast, ?_, ?_, hof.nodup, hordered, hof.last⟩
  · intro u hu
    constructor
    · exact fun hns => h.unit_unique hu (hof.inside provider hlast) hns hof.provides
    · rintro rfl
      exact hof.provides
  · intro u
    refine ⟨hof.reached u, fun hreach => ?_⟩
    -- the list holds the provider and, with a unit, all that it requires
    induction hreach with
    | refl => exact hlast
    | tail _ hreq ih =>
      obtain ⟨before, rest, heq⟩ := List.append_of_mem ih
      rw [heq]
      exact List.mem_append_left _ (hordered before _ rest heq _ hreq)

/-! ## A small library -/

/-- Three scripts; the last requires both others, and one of them the other. -/
def smallScripts : List (Files.Place × Files.Node) :=
  [(["a.js"], .file (Text.Utf8.encode "goog.provide('a')") false),
    (["b.js"], .file (Text.Utf8.encode "goog.provide('b')goog.require('a')") false),
    (["c.js"], .file (Text.Utf8.encode
      "goog.provide('c')goog.provide('d')goog.require('b')goog.require('a')") false)]

def smallTree : Tree where
  cwd := ["home"]
  nodes := ⟨[(["home"], .directory), (["home", "lib"], .directory)] ++
    smallScripts.map fun script => (["home", "lib"] ++ script.1, script.2)⟩

def smallLibrary : Library where
  root := ⟨"lib"⟩
  units :=
    [⟨"a.js", ⟨"lib/a.js"⟩, ["a"], []⟩, ⟨"b.js", ⟨"lib/b.js"⟩, ["b"], ["a"]⟩,
      ⟨"c.js", ⟨"lib/c.js"⟩, ["c", "d"], ["b", "a"]⟩]
  providers := ⟨[("a", 0), ("b", 1), ("c", 2), ("d", 2)]⟩

theorem scan_smallTree : scan smallTree ⟨"lib"⟩ = .ok smallLibrary := by
  have hlocate : smallTree.locate ⟨"lib"⟩ = .ok (["home", "lib"], some .directory) := by
    decide +kernel
  -- sorting does not compute in the kernel, but the scripts stand in order
  have hsorted : smallScripts.Pairwise fun a b => Tree.placeBefore a.1 b.1 := by decide
  have hbelow : smallTree.below ["home", "lib"] = smallScripts :=
    List.mergeSort_of_pairwise hsorted
  unfold scan Tree.filesBelow?
  rw [hlocate]
  dsimp only
  rw [hbelow]
  decide +kernel

theorem closure_listsNeeded_small :
    scan smallTree ⟨"lib"⟩ = .ok smallLibrary ∧
      ∃ records, smallLibrary.closure "d" = .ok records ∧
        records.map Record.provides = [["a"], ["b"], ["c", "d"], []] ∧
        ListsNeeded smallLibrary "d" records :=
  ⟨scan_smallTree, _, rfl, by decide, closure_listsNeeded scan_smallTree rfl⟩

end LiveLisp.Library
