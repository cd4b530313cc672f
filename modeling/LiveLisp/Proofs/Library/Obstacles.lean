import LiveLisp.Proofs.Library.Closure
import Mathlib.Data.List.Chain
/-!
# Why a closure is not found

While the units that a namespace needs are visited, the stack is a path of requirements from its
provider.  A visit can fail in two ways only: a name on the way has no provider, or a requirement
leads back to the stack, and then the names from there on run along a circle.  Since a closure that
is found is a schedule, which holds no circle and lacks no provider, a closure fails exactly if
there is such an obstacle.
-/

namespace LiveLisp.Library

open Files (Pathname Tree)
open Relation (ReflTransGen TransGen)

variable {lib : Library}

/-! ## Places on the stack -/

/-- The unit at a place. -/
def unitAt (lib : Library) (i : Nat) : CompiledUnit := lib.units[i]?.getD default

theorem LeadsTo.exists_unit {i j : Nat} (h : lib.LeadsTo i j) : ∃ u, lib.units[i]? = some u := by
  obtain ⟨ns, hns, -⟩ := h
  cases hu : lib.units[i]? with
  | none => simp [needs, hu] at hns
  | some u => exact ⟨u, rfl⟩

theorem Indexed.requires_unitAt (h : Indexed lib) {i j : Nat} (hlead : lib.LeadsTo i j) :
    lib.Requires (lib.unitAt i) (lib.unitAt j) := by
  obtain ⟨u, hu⟩ := hlead.exists_unit
  obtain ⟨v, hv, hreq⟩ := h.requires_of_leadsTo hu hlead
  simpa [unitAt, hu, hv] using hreq

theorem Indexed.lt_of_reach (h : Indexed lib) {start i : Nat} (hstart : start < lib.units.length)
    (hreach : ReflTransGen lib.LeadsTo start i) : i < lib.units.length := by
  induction hreach with
  | refl => exact hstart
  | tail _ hlast _ =>
    obtain ⟨ns, -, hprovider⟩ := hlast
    exact h.lt_of_provider hprovider

theorem Indexed.head?_provides (h : Indexed lib) {i : Nat} (hi : i < lib.units.length) :
    (lib.unitAt i).provides.head? = some (lib.primaryName i) := by
  have hu : lib.units[i]? = some lib.units[i] := List.getElem?_eq_getElem hi
  obtain ⟨name, names, hnames⟩ :=
    List.exists_cons_of_ne_nil (h.provides_ne_nil _ (List.getElem_mem hi))
  simp [unitAt, primaryName, hu, hnames]

/-- Units are told apart by their primary names. -/
theorem Indexed.primaryName_inj (h : Indexed lib) {i j : Nat} (hi : i < lib.units.length)
    (hj : j < lib.units.length) (hname : lib.primaryName i = lib.primaryName j) : i = j := by
  have hunit : ∀ k < lib.units.length, ∃ u, lib.units[k]? = some u ∧
      lib.primaryName k ∈ u.provides := by
    intro k hk
    have hhead := h.head?_provides hk
    rw [unitAt, List.getElem?_eq_getElem hk] at hhead
    exact ⟨_, List.getElem?_eq_getElem hk, List.mem_of_head? hhead⟩
  obtain ⟨u, hu, hnu⟩ := hunit i hi
  obtain ⟨v, hv, hnv⟩ := hunit j hj
  exact h.index_unique hu hv (hname ▸ hnu) hnv

/-- On a stack of places, the names from a place on are those of what was entered since. -/
theorem cycleFrom_map {before after : List Nat} {i : Nat}
    (hbefore : ∀ j ∈ before, lib.primaryName j ≠ lib.primaryName i) :
    cycleFrom (lib.primaryName i) ((before ++ i :: after).map lib.primaryName) =
      (i :: after ++ [i]).map lib.primaryName := by
  have hinner : ((before ++ i :: after).map lib.primaryName).dropWhile
      (· ≠ lib.primaryName i) = (i :: after).map lib.primaryName := by
    rw [List.map_append, List.dropWhile_append_of_pos]
    · simp
    · simpa using hbefore
  unfold cycleFrom
  rw [hinner]
  simp

/-! ## What stops a visit -/

/-- What makes a visit from `start` fail: a name without provider at a place that it reaches, or
places that lead around in a circle. -/
inductive Stops (lib : Library) (start : Nat) : BuildError → Prop
  | missing {i : Nat} {ns : String} (reached : ReflTransGen lib.LeadsTo start i)
      (needed : ns ∈ lib.needs i) (absent : ∀ j, lib.provider ns ≠ .ok j) :
      Stops lib start (.unknownNamespace ns)
  | circle {i : Nat} {inner : List Nat} (chain : (i :: inner ++ [i]).IsChain lib.LeadsTo)
      (reached : ∀ j ∈ i :: inner, ReflTransGen lib.LeadsTo start j) :
      Stops lib start (.cycle ((i :: inner ++ [i]).map lib.primaryName))

theorem provider_eq_error {ns : String} {e : BuildError} (h : lib.provider ns = .error e) :
    e = .unknownNamespace ns ∧ ∀ j, lib.provider ns ≠ .ok j := by
  refine ⟨?_, fun j hj => by simp [h] at hj⟩
  unfold provider at h
  split at h
  · contradiction
  · exact (Except.error.inj h).symm

/-- The first name that cannot be visited stops the visit of all. -/
theorem visitAll_eq_error {fuel : Nat} {stack order : List Nat} {names : List String}
    {e : BuildError} (h : lib.visitAll fuel stack order names = .error e) :
    ∃ ns ∈ names, lib.provider ns = .error e ∨
      ∃ j order', lib.provider ns = .ok j ∧ lib.visit fuel stack order' j = .error e := by
  induction names generalizing order with
  | nil => exact absurd h (by simp [visitAll, pure, Except.pure])
  | cons ns names ih =>
    unfold visitAll at h
    rw [List.foldlM_cons] at h
    cases hj : lib.provider ns with
    | error e' =>
      simp only [hj] at h
      obtain rfl : e' = e := Except.error.inj h
      exact ⟨ns, List.mem_cons_self, .inl hj⟩
    | ok j =>
      simp only [hj] at h
      cases hvisit : lib.visit fuel stack order j with
      | error e' =>
        rw [hvisit] at h
        obtain rfl : e' = e := Except.error.inj h
        exact ⟨ns, List.mem_cons_self, .inr ⟨j, order, hj, hvisit⟩⟩
      | ok middle =>
        rw [hvisit] at h
        obtain ⟨m, hm, hfails⟩ := ih h
        exact ⟨m, List.mem_cons_of_mem _ hm, hfails⟩

/-- The stack and the place to be visited are a path of requirements, all of it reached. -/
theorem stops_of_visit (h : Indexed lib) {start : Nat} (hstart : start < lib.units.length)
    {fuel : Nat} {stack order : List Nat} {i : Nat} {e : BuildError}
    (hpath : (stack ++ [i]).IsChain lib.LeadsTo)
    (hreach : ∀ j ∈ stack ++ [i], ReflTransGen lib.LeadsTo start j)
    (hvisit : lib.visit fuel stack order i = .error e) : Stops lib start e := by
  induction fuel generalizing stack order i with
  | zero => exact absurd hvisit (by simp [visit])
  | succ fuel ih =>
    rw [visit_succ] at hvisit
    split at hvisit
    · contradiction
    · split at hvisit
      · next honstack =>
        -- the first place on the stack with the name is the place itself
        obtain ⟨before, after, rfl, hbefore⟩ :=
          List.eq_append_cons_of_mem (List.contains_iff_mem.mp honstack)
        have hi : i < lib.units.length := h.lt_of_reach hstart (hreach i (by simp))
        have hnames : ∀ j ∈ before, lib.primaryName j ≠ lib.primaryName i := by
          intro j hj hname
          have hlt := h.lt_of_reach hstart (hreach j (by simp [hj]))
          exact hbefore (h.primaryName_inj hlt hi hname ▸ hj)
        rw [cycleFrom_map hnames] at hvisit
        obtain rfl := Except.error.inj hvisit
        refine .circle (hpath.suffix ⟨before, by simp⟩) fun j hj => hreach j ?_
        rw [List.append_assoc]
        exact List.mem_append_right _ (List.mem_append_left _ hj)
      · split at hvisit
        · contradiction
        · next hall =>
          obtain rfl := Except.error.inj hvisit
          obtain ⟨ns, hns, hmissing | ⟨j, order', hj, hinner⟩⟩ := visitAll_eq_error hall
          · obtain ⟨rfl, habsent⟩ := provider_eq_error hmissing
            exact .missing (hreach i (by simp)) hns habsent
          · have hlead : lib.LeadsTo i j := ⟨ns, hns, hj⟩
            refine ih ?_ ?_ hinner
            · refine hpath.append (List.isChain_singleton j) ?_
              simpa using hlead
            · intro k hk
              rcases List.mem_append.mp hk with hk | hk
              · exact hreach k hk
              · rw [List.mem_singleton.mp hk]
                exact (hreach i (by simp)).tail hlead

/-! ## Obstacles -/

/-- No unit provides `ns`. -/
def Unprovided (lib : Library) (ns : String) : Prop := ∀ u ∈ lib.units, ns ∉ u.provides

/-- `u` provides `ns`, or it is required on the way from the unit that does. -/
def Reaches (lib : Library) (ns : String) (u : CompiledUnit) : Prop :=
  ∃ provider ∈ lib.units, ns ∈ provider.provides ∧ ReflTransGen lib.Requires provider u

/-- A unit on the way from `ns` requires `name`, which no unit provides. -/
def Lacks (lib : Library) (ns name : String) : Prop :=
  name ≠ "goog" ∧ lib.Unprovided name ∧ ∃ u, lib.Reaches ns u ∧ name ∈ u.requires

/-- A unit on the way from `ns` requires itself, directly or through others. -/
def Circular (lib : Library) (ns : String) : Prop :=
  ∃ u, lib.Reaches ns u ∧ TransGen lib.Requires u u

/-- `names` are the primary names of units on the way from `ns`, each requiring a namespace of the
next, from one unit around to the same unit again. -/
def NamesCircle (lib : Library) (ns : String) (names : List String) : Prop :=
  ∃ (u : CompiledUnit) (inner : List CompiledUnit),
    (u :: inner ++ [u]).IsChain lib.Requires ∧ (∀ v ∈ u :: inner, lib.Reaches ns v) ∧
      names.map some = (u :: inner ++ [u]).map fun v => v.provides.head?

theorem transGen_of_circle {α : Type} {r : α → α → Prop} {a : α} {inner : List α} {b : α}
    (h : (a :: inner ++ [b]).IsChain r) : TransGen r a b := by
  induction inner generalizing a with
  | nil => exact .single (List.isChain_pair.mp h)
  | cons c inner ih =>
    obtain ⟨hfirst, hrest⟩ := List.isChain_cons_cons.mp h
    exact .head hfirst (ih hrest)

theorem NamesCircle.circular {ns : String} {names : List String}
    (h : lib.NamesCircle ns names) : lib.Circular ns := by
  obtain ⟨u, inner, hchain, hreach, -⟩ := h
  exact ⟨u, hreach u List.mem_cons_self, transGen_of_circle hchain⟩

theorem Indexed.unprovided_iff (h : Indexed lib) {ns : String} :
    lib.Unprovided ns ↔ ∀ j, lib.provider ns ≠ .ok j := by
  constructor
  · intro hnone j hj
    obtain ⟨u, hu, hns⟩ := h.provider_eq_ok.mp hj
    exact hnone u (List.mem_of_getElem? hu) hns
  · intro hnone u hu hns
    obtain ⟨i, hi⟩ := List.mem_iff_getElem?.mp hu
    exact hnone i (h.provider_eq_ok.mpr ⟨u, hi, hns⟩)

/-- Why the closure of `ns` failed, as the error tells it. -/
inductive Explains (lib : Library) (ns : String) : BuildError → Prop
  | unprovided (h : lib.Unprovided ns) : Explains lib ns (.unknownNamespace ns)
  | lacks {name : String} (h : lib.Lacks ns name) : Explains lib ns (.unknownNamespace name)
  | circle {names : List String} (h : lib.NamesCircle ns names) : Explains lib ns (.cycle names)

theorem Stops.explains (h : Indexed lib) {ns : String} {start : Nat}
    (hstart : lib.provider ns = .ok start) {e : BuildError} (hstops : Stops lib start e) :
    Explains lib ns e := by
  obtain ⟨u, hu, hns⟩ := h.provider_eq_ok.mp hstart
  have hunit : lib.unitAt start = u := by simp [unitAt, hu]
  have hreaches : ∀ {i}, ReflTransGen lib.LeadsTo start i → lib.Reaches ns (lib.unitAt i) := by
    intro i hreach
    refine ⟨u, List.mem_of_getElem? hu, hns, ?_⟩
    rw [← hunit]
    exact hreach.lift lib.unitAt fun _ _ => h.requires_unitAt
  cases hstops with
  | @missing i name hreach hneeded habsent =>
    have hi := h.lt_of_reach (h.lt_of_provider hstart) hreach
    have hunit' : lib.units[i]? = some (lib.unitAt i) := by
      simp [unitAt, List.getElem?_eq_getElem hi]
    obtain ⟨hrequires, hgoog⟩ := (mem_needs hunit').mp hneeded
    exact .lacks ⟨hgoog, h.unprovided_iff.mpr habsent, _, hreaches hreach, hrequires⟩
  | @circle i inner hchain hreach =>
    refine .circle ⟨lib.unitAt i, inner.map lib.unitAt, ?_, ?_, ?_⟩
    · have hunits := (hchain.imp fun _ _ => h.requires_unitAt)
      rw [← List.isChain_map lib.unitAt] at hunits
      simpa using hunits
    · intro v hv
      rw [← List.map_cons] at hv
      obtain ⟨j, hj, rfl⟩ := List.mem_map.mp hv
      exact hreaches (hreach j hj)
    · have hhead : ∀ j ∈ i :: inner ++ [i],
          some (lib.primaryName j) = (lib.unitAt j).provides.head? := by
        intro j hj
        have hj' : j ∈ i :: inner := by
          rcases List.mem_append.mp hj with hj | hj
          · exact hj
          · exact List.mem_singleton.mp hj ▸ List.mem_cons_self
        exact (h.head?_provides (h.lt_of_reach (h.lt_of_provider hstart) (hreach j hj'))).symm
      have hunits : lib.unitAt i :: inner.map lib.unitAt ++ [lib.unitAt i] =
          (i :: inner ++ [i]).map lib.unitAt := by simp
      rw [hunits, List.map_map, List.map_map]
      exact List.map_congr_left hhead

theorem explains_of_closure (h : Indexed lib) {ns : String} {e : BuildError}
    (hclosure : lib.closure ns = .error e) : Explains lib ns e := by
  unfold closure at hclosure
  split at hclosure
  · next e' hmissing =>
    obtain rfl := Except.error.inj hclosure
    obtain ⟨rfl, habsent⟩ := provider_eq_error hmissing
    exact .unprovided (h.unprovided_iff.mpr habsent)
  · next start hstart =>
    split at hclosure
    · next e' hvisit =>
      obtain rfl := Except.error.inj hclosure
      refine Stops.explains h hstart ?_
      refine stops_of_visit h (h.lt_of_provider hstart) (List.isChain_singleton start) ?_ hvisit
      intro j hj
      rw [List.mem_singleton.mp hj]
    · contradiction

/-! ## Closures that are found -/

/-- What a unit of a schedule requires, directly or through others, stands before it. -/
theorem mem_before_of_transGen {units : List CompiledUnit}
    (hordered : ∀ before u rest, units = before ++ u :: rest →
      ∀ v, lib.Requires u v → v ∈ before)
    {before rest : List CompiledUnit} {u v : CompiledUnit} (heq : units = before ++ u :: rest)
    (hreq : TransGen lib.Requires u v) : v ∈ before := by
  induction hreq with
  | single hreq => exact hordered before u rest heq _ hreq
  | tail _ hlast ih =>
    obtain ⟨first, more, rfl⟩ := List.append_of_mem ih
    refine List.mem_append_left _ (hordered first _ (more ++ u :: rest) ?_ _ hlast)
    rw [heq, List.append_assoc, List.cons_append]

theorem ClosureOf.mem_of_reaches (h : Indexed lib) {ns : String} {provider : CompiledUnit}
    {units : List CompiledUnit} (hclosure : ClosureOf lib ns provider units) {u : CompiledUnit}
    (hreach : lib.Reaches ns u) : u ∈ units := by
  obtain ⟨provider', hprovider', hns, hreach⟩ := hreach
  have hlast : provider ∈ units := List.mem_of_getLast? hclosure.last
  obtain rfl := h.unit_unique hprovider' (hclosure.inside _ hlast) hns hclosure.provides
  induction hreach with
  | refl => exact hlast
  | tail _ hreq ih =>
    obtain ⟨before, rest, heq⟩ := List.append_of_mem ih
    rw [heq]
    exact List.mem_append_left _ (hclosure.mem_of_requires h heq hreq)

/-- A closure that is found meets no obstacle. -/
theorem ClosureOf.unobstructed (h : Indexed lib) {ns : String} {provider : CompiledUnit}
    {units : List CompiledUnit} (hclosure : ClosureOf lib ns provider units) :
    ¬lib.Unprovided ns ∧ (∀ name, ¬lib.Lacks ns name) ∧ ¬lib.Circular ns := by
  refine ⟨fun hnone => ?_, fun name hlacks => ?_, fun hcircular => ?_⟩
  · have hlast : provider ∈ units := List.mem_of_getLast? hclosure.last
    exact hnone provider (hclosure.inside _ hlast) hclosure.provides
  · obtain ⟨hgoog, hnone, u, hreach, hname⟩ := hlacks
    obtain ⟨before, rest, heq⟩ := List.append_of_mem (hclosure.mem_of_reaches h hreach)
    obtain ⟨v, hv, hprovides⟩ := hclosure.supplied before u rest heq name hname hgoog
    refine hnone v (hclosure.inside v ?_) hprovides
    rw [heq]
    exact List.mem_append_left _ hv
  · obtain ⟨u, hreach, hcircle⟩ := hcircular
    obtain ⟨before, rest, heq⟩ := List.append_of_mem (hclosure.mem_of_reaches h hreach)
    have hbefore := mem_before_of_transGen
      (fun _ _ _ heq' _ hreq => hclosure.mem_of_requires h heq' hreq) heq hcircle
    have hnodup := hclosure.nodup
    rw [heq, List.nodup_append] at hnodup
    exact hnodup.2.2 u hbefore u List.mem_cons_self rfl

/-- A closure fails exactly if its namespace or one required on the way has no provider or units
on the way require each other in a circle, and the error tells which: a name without provider, or
the names along a circle. -/
theorem closure_error_iff {t : Tree} {root : Pathname} {lib : Library}
    (hscan : scan t root = .ok lib) (ns : String) :
    ((∃ e, lib.closure ns = .error e) ↔
        lib.Unprovided ns ∨ (∃ name, lib.Lacks ns name) ∨ lib.Circular ns) ∧
      ∀ e, lib.closure ns = .error e →
        (∃ name, e = .unknownNamespace name ∧
            (name = ns ∧ lib.Unprovided ns ∨ lib.Lacks ns name)) ∨
          ∃ names, e = .cycle names ∧
            e.message = "Circular dependency: " ++ " -> ".intercalate names ∧
            lib.NamesCircle ns names := by
  have h := indexed_of_scan hscan
  refine ⟨⟨?_, ?_⟩, ?_⟩
  · rintro ⟨e, he⟩
    cases explains_of_closure h he with
    | unprovided hnone => exact .inl hnone
    | lacks hlacks => exact .inr (.inl ⟨_, hlacks⟩)
    | circle hcircle => exact .inr (.inr hcircle.circular)
  · intro hobstacle
    cases hclosure : lib.closure ns with
    | error e => exact ⟨e, rfl⟩
    | ok records =>
      obtain ⟨provider, units, -, hof⟩ := closureOf_of_closure h hclosure
      obtain ⟨hprovided, hcomplete, hacyclic⟩ := hof.unobstructed h
      rcases hobstacle with hnone | ⟨name, hlacks⟩ | hcircular
      · exact absurd hnone hprovided
      · exact absurd hlacks (hcomplete name)
      · exact absurd hcircular hacyclic
  · intro e he
    cases explains_of_closure h he with
    | unprovided hnone => exact .inl ⟨ns, rfl, .inl ⟨rfl, hnone⟩⟩
    | lacks hlacks => exact .inl ⟨_, rfl, .inr hlacks⟩
    | circle hcircle => exact .inr ⟨_, rfl, rfl, hcircle⟩

/-- The first script leads to a circle of the next two, which it is not on and which it enters by
a second name; the last requires a name that none provides. -/
def obstructedNodes : List (Files.Place × Files.Node) :=
  [(["a.js"], script "goog.provide('a')goog.require('d')"),
    (["b.js"], script "goog.provide('b')goog.provide('d')goog.require('c')"),
    (["c.js"], script "goog.provide('c')goog.require('goog')goog.require('d')"),
    (["e.js"], script "goog.provide('e')goog.require('goog')goog.require('f')")]

def obstructedLibrary : Library where
  root := ⟨"lib"⟩
  units :=
    [⟨"a.js", ⟨"lib/a.js"⟩, ["a"], ["d"]⟩, ⟨"b.js", ⟨"lib/b.js"⟩, ["b", "d"], ["c"]⟩,
      ⟨"c.js", ⟨"lib/c.js"⟩, ["c"], ["goog", "d"]⟩, ⟨"e.js", ⟨"lib/e.js"⟩, ["e"], ["goog", "f"]⟩]
  providers := ⟨[("a", 0), ("b", 1), ("d", 1), ("c", 2), ("e", 3)]⟩

theorem scan_obstructedNodes :
    scan (libraryTree obstructedNodes) ⟨"lib"⟩ = .ok obstructedLibrary := by
  rw [scan_libraryTree (by decide) (by decide)]
  decide +kernel

theorem closure_error_obstructed :
    scan (libraryTree obstructedNodes) ⟨"lib"⟩ = .ok obstructedLibrary ∧
      obstructedLibrary.closure "a" = .error (.cycle ["b", "c", "b"]) ∧
      (obstructedLibrary.Unprovided "a" ∨ (∃ name, obstructedLibrary.Lacks "a" name) ∨
        obstructedLibrary.Circular "a") ∧
      obstructedLibrary.NamesCircle "a" ["b", "c", "b"] ∧
      obstructedLibrary.closure "e" = .error (.unknownNamespace "f") ∧
      obstructedLibrary.Lacks "e" "f" := by
  have hcircle : obstructedLibrary.closure "a" = .error (.cycle ["b", "c", "b"]) := by
    decide +kernel
  have hmissing : obstructedLibrary.closure "e" = .error (.unknownNamespace "f") := by
    decide +kernel
  obtain ⟨hfails, hcause⟩ := closure_error_iff scan_obstructedNodes "a"
  obtain ⟨-, hcause'⟩ := closure_error_iff scan_obstructedNodes "e"
  refine ⟨scan_obstructedNodes, hcircle, hfails.mp ⟨_, hcircle⟩, ?_, hmissing, ?_⟩
  · rcases hcause _ hcircle with ⟨name, heq, -⟩ | ⟨names, heq, -, hnames⟩
    · contradiction
    · rwa [BuildError.cycle.inj heq]
  · rcases hcause' _ hmissing with ⟨name, heq, ⟨rfl, -⟩ | hlacks⟩ | ⟨names, heq, -⟩
    · exact absurd heq (by decide)
    · rwa [BuildError.unknownNamespace.inj heq]
    · contradiction

end LiveLisp.Library
