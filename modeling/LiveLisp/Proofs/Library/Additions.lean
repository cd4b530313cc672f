import LiveLisp.Proofs.Library.Obstacles
/-!
# Units added one after the other

Adding a unit writes its namespaces into the index before the unit stands at its place.  No unit
names a namespace twice, so whatever is found while a unit is being added was claimed by an earlier
one, and the index leads to a place that is taken.  Units that share no namespace are therefore all
added, and the index tells them apart; otherwise adding stops at the first unit with a namespace of
an earlier one.

That no read misses is said with reads that check: they have a failure of their own for a place
that is not taken, and come to the same as those that do not check.
-/

namespace LiveLisp.Library

open Files (Pathname)

variable {lib : Library}

/-! ## Reads that check -/

/-- How an operation with checked reads fails: as the operation itself does, at a place where no
unit stands, or at a unit that provides nothing. -/
inductive Fault where
  | build (cause : BuildError)
  | outOfRange (i : Nat)
  | nameless

/-- The outcome of an operation in which no read missed. -/
def checked {α : Type} (x : Except BuildError α) : Except Fault α := x.mapError .build

/-- The unit at a place. -/
def unitOf (lib : Library) (i : Nat) : Except Fault CompiledUnit :=
  match lib.units[i]? with
  | some u => .ok u
  | none => .error (.outOfRange i)

/-- The first namespace of a unit. -/
def firstName (u : CompiledUnit) : Except Fault String :=
  match u.provides.head? with
  | some name => .ok name
  | none => .error .nameless

/-- Claims namespaces; the unit that a namespace belongs to is read with a check. -/
def claimChecked (lib : Library) (relPath : String) (i : Nat) (providers : Table String Nat) :
    List String → Except Fault (Table String Nat)
  | [] => .ok providers
  | ns :: rest =>
    match providers.get? ns with
    | some other => do
      let first ← lib.unitOf other
      throw (.build (.duplicateProvide ns first.relPath relPath))
    | none => lib.claimChecked relPath i (providers.insert ns i) rest

/-- Adds a unit with checked reads. -/
def addChecked (lib : Library) (u : CompiledUnit) : Except Fault Library := do
  let providers ← lib.claimChecked u.relPath lib.units.length lib.providers u.provides
  return { lib with units := lib.units ++ [u], providers := providers }

/-- Visits a unit depth first with checked reads: every visit reads its unit, and one that goes on
reads the first namespace as well. -/
def visitChecked (lib : Library) : Nat → List Nat → List Nat → Nat → Except Fault (List Nat)
  | 0, _, order, _ => .ok order
  | fuel + 1, stack, order, i => do
    let u ← lib.unitOf i
    if order.contains i then return order
    let name ← firstName u
    if stack.contains i then
      throw (.build (.cycle (cycleFrom name (stack.map lib.primaryName))))
    let order ← (u.requires.filter (· ≠ "goog")).foldlM (fun order ns => do
      let j ← checked (lib.provider ns)
      lib.visitChecked fuel (stack ++ [i]) order j) order
    return order ++ [i]

/-- The records of a closure with checked reads. -/
def closureChecked (lib : Library) (ns : String) : Except Fault (List Record) := do
  let root ← checked (lib.provider ns)
  let order ← lib.visitChecked (lib.units.length + 1) [] [] root
  let units ← order.mapM lib.unitOf
  let provider ← lib.unitOf root
  return units.map Record.ofUnit ++ [Record.seedOf ns provider]

/-- The records of all places with checked reads. -/
def recordsChecked (lib : Library) : Except Fault (List Record) := do
  let units ← (List.range lib.units.length).mapM lib.unitOf
  return units.map Record.ofUnit

theorem unitOf_eq_ok {i : Nat} {u : CompiledUnit} (h : lib.units[i]? = some u) :
    lib.unitOf i = .ok u := by
  rw [unitOf, h]

/-- A loop of steps that miss nothing misses nothing. -/
theorem foldlM_checked {α β : Type} {f : β → α → Except Fault β} {g : β → α → Except BuildError β}
    {xs : List α} (h : ∀ b, ∀ x ∈ xs, f b x = checked (g b x)) (b : β) :
    xs.foldlM f b = checked (xs.foldlM g b) := by
  induction xs generalizing b with
  | nil => rfl
  | cons x xs ih =>
    have hrest := ih fun b y hy => h b y (List.mem_cons_of_mem _ hy)
    rw [List.foldlM_cons, List.foldlM_cons, h b x List.mem_cons_self]
    cases g b x with
    | error e => rfl
    | ok b' => exact hrest b'

theorem mapM_unitOf {places : List Nat} (h : ∀ i ∈ places, i < lib.units.length) :
    places.mapM lib.unitOf = .ok (places.filterMap (lib.units[·]?)) := by
  induction places with
  | nil => rfl
  | cons i places ih =>
    obtain ⟨hi, hplaces⟩ := List.forall_mem_cons.mp h
    have hu : lib.units[i]? = some lib.units[i] := List.getElem?_eq_getElem hi
    rw [List.mapM_cons, unitOf_eq_ok hu, ih hplaces, List.filterMap_cons_some hu]
    rfl

/-! ## Visits and records -/

theorem Indexed.visitChecked_eq (h : Indexed lib) {fuel : Nat} {stack order : List Nat} {i : Nat}
    (hi : i < lib.units.length) :
    lib.visitChecked fuel stack order i = checked (lib.visit fuel stack order i) := by
  induction fuel generalizing stack order i with
  | zero => rfl
  | succ fuel ih =>
    have hu : lib.units[i]? = some lib.units[i] := List.getElem?_eq_getElem hi
    have hname : firstName lib.units[i] = .ok (lib.primaryName i) := by
      have hhead := h.head?_provides hi
      rw [unitAt, hu, Option.getD_some] at hhead
      rw [firstName, hhead]
    have hneeds : lib.units[i].requires.filter (· ≠ "goog") = lib.needs i := by simp [needs, hu]
    -- a requirement leads to the place of its provider, which is taken
    have hall : (lib.needs i).foldlM (fun order ns => do
          let j ← checked (lib.provider ns)
          lib.visitChecked fuel (stack ++ [i]) order j) order =
        checked (lib.visitAll fuel (stack ++ [i]) order (lib.needs i)) := by
      refine foldlM_checked (fun order ns _ => ?_) order
      cases hj : lib.provider ns with
      | error e => rfl
      | ok j => exact ih (h.lt_of_provider hj)
    rw [visit_succ, visitChecked, unitOf_eq_ok hu]
    dsimp only [bind, Except.bind] at hall ⊢
    split
    · rfl
    · rw [hname]
      dsimp only
      split
      · rfl
      · rw [hneeds, hall]
        cases lib.visitAll fuel (stack ++ [i]) order (lib.needs i) <;> rfl

theorem Indexed.closureChecked_eq (h : Indexed lib) (ns : String) :
    lib.closureChecked ns = checked (lib.closure ns) := by
  unfold closureChecked closure
  cases hroot : lib.provider ns with
  | error e => rfl
  | ok root =>
    have hlt := h.lt_of_provider hroot
    have hu : lib.units[root]? = some lib.units[root] := List.getElem?_eq_getElem hlt
    change (do
      let order ← lib.visitChecked (lib.units.length + 1) [] [] root
      let units ← order.mapM lib.unitOf
      let provider ← lib.unitOf root
      return units.map Record.ofUnit ++ [Record.seedOf ns provider]) = _
    rw [h.visitChecked_eq hlt]
    dsimp only
    cases horder : lib.visit (lib.units.length + 1) [] [] root with
    | error e => rfl
    | ok order =>
      have hvisited : Visited lib [] [] order root :=
        visited_of_visit h schedule_nil List.nodup_nil (fun j hj => absurd hj List.not_mem_nil)
          (by simp) hlt horder
      have hinside : ∀ i ∈ order, i < lib.units.length := fun i hi =>
        h.lt_of_reach hlt (hvisited.added i hi List.not_mem_nil).2
      change (do
        let units ← order.mapM lib.unitOf
        let provider ← lib.unitOf root
        return units.map Record.ofUnit ++ [Record.seedOf ns provider]) = _
      rw [mapM_unitOf hinside, unitOf_eq_ok hu, hu]
      rfl

theorem filterMap_getElem?_range {α : Type} (xs : List α) :
    (List.range xs.length).filterMap (xs[·]?) = xs := by
  have hreads : (List.range xs.length).map (xs[·]?) = xs.map some :=
    List.ext_getElem (by simp) (by simp)
  calc (List.range xs.length).filterMap (xs[·]?)
      = ((List.range xs.length).map (xs[·]?)).filterMap id := by
        rw [List.filterMap_map, Function.id_comp]
    _ = xs := by rw [hreads, List.filterMap_map, Function.id_comp, List.filterMap_some]

theorem recordsChecked_eq (lib : Library) : lib.recordsChecked = checked (.ok lib.records) := by
  unfold recordsChecked
  rw [mapM_unitOf fun i hi => List.mem_range.mp hi, filterMap_getElem?_range]
  rfl

/-! ## Adding a unit -/

/-- No namespace is provided by both units. -/
def ShareNothing (u v : CompiledUnit) : Prop := ∀ ns ∈ u.provides, ns ∉ v.provides

/-- `ns` is the first namespace of `u` that one of the units provides, and `earlier` does. -/
def Clashes (units : List CompiledUnit) (u earlier : CompiledUnit) (ns : String) : Prop :=
  earlier ∈ units ∧ ns ∈ earlier.provides ∧
    ∃ front back, u.provides = front ++ ns :: back ∧ ∀ m ∈ front, ∀ v ∈ units, m ∉ v.provides

/-- A claim that fails met a namespace that was taken, after others that were free. -/
theorem claim_eq_error {relPath : String} {i : Nat} {providers : Table String Nat}
    {names : List String} {e : BuildError} (hnodup : names.Nodup)
    (h : lib.claim relPath i providers names = .error e) :
    ∃ front ns back other, names = front ++ ns :: back ∧
      (∀ m ∈ front, providers.get? m = none) ∧ providers.get? ns = some other ∧
      e = .duplicateProvide ns ((lib.units[other]?.map CompiledUnit.relPath).getD "") relPath := by
  induction names generalizing providers with
  | nil => contradiction
  | cons name names ih =>
    obtain ⟨hname, hnodup⟩ := List.nodup_cons.mp hnodup
    rw [claim] at h
    split at h
    · next other hother =>
      exact ⟨[], name, names, other, rfl, by simp, hother, (Except.error.inj h).symm⟩
    · next hfree =>
      obtain ⟨front, ns, back, other, rfl, hfront, hother, rfl⟩ := ih hnodup h
      refine ⟨name :: front, ns, back, other, rfl, ?_, ?_, rfl⟩
      · refine List.forall_mem_cons.mpr ⟨hfree, fun m hm => ?_⟩
        have hm := hfront m hm
        rw [Table.get?_insert] at hm
        split at hm
        · contradiction
        · exact hm
      · have hne : name ≠ ns := by
          rintro rfl
          exact hname (by simp)
        rwa [Table.get?_insert, if_neg hne] at hother

/-- As names are claimed once, those still to be claimed are looked up as they were before. -/
theorem claimChecked_eq {relPath : String} {i : Nat} {providers : Table String Nat}
    {names : List String} (hnodup : names.Nodup)
    (htaken : ∀ ns ∈ names, ∀ j, providers.get? ns = some j → j < lib.units.length) :
    lib.claimChecked relPath i providers names = checked (lib.claim relPath i providers names) := by
  induction names generalizing providers with
  | nil => rfl
  | cons name names ih =>
    obtain ⟨hname, hnodup⟩ := List.nodup_cons.mp hnodup
    obtain ⟨hfirst, hrest⟩ := List.forall_mem_cons.mp htaken
    rw [claimChecked, claim]
    cases hother : providers.get? name with
    | some other =>
      have hlt := hfirst other hother
      have hu : lib.units[other]? = some lib.units[other] := List.getElem?_eq_getElem hlt
      dsimp only
      rw [unitOf_eq_ok hu, hu]
      rfl
    | none =>
      refine ih hnodup fun ns hns j hj => hrest ns hns j ?_
      have hne : name ≠ ns := by
        rintro rfl
        exact hname hns
      rwa [Table.get?_insert, if_neg hne] at hj

theorem Indexed.addChecked_eq (h : Indexed lib) {u : CompiledUnit} (hnodup : u.provides.Nodup) :
    lib.addChecked u = checked (lib.add u) := by
  have htaken : ∀ ns ∈ u.provides, ∀ j, lib.providers.get? ns = some j →
      j < lib.units.length := by
    intro ns _ j hj
    obtain ⟨v, hv, -⟩ := (h.provider_iff ns j).mp hj
    exact (List.getElem?_eq_some_iff.mp hv).1
  unfold addChecked Library.add
  rw [claimChecked_eq hnodup htaken]
  cases lib.claim u.relPath lib.units.length lib.providers u.provides <;> rfl

theorem Indexed.get?_eq_none_iff (h : Indexed lib) {ns : String} :
    lib.providers.get? ns = none ↔ ∀ v ∈ lib.units, ns ∉ v.provides := by
  constructor
  · intro hnone v hv hns
    obtain ⟨i, hi⟩ := List.mem_iff_getElem?.mp hv
    have hsome := (h.provider_iff ns i).mpr ⟨v, hi, hns⟩
    rw [hnone] at hsome
    contradiction
  · intro hfree
    cases hi : lib.providers.get? ns with
    | none => rfl
    | some i =>
      obtain ⟨v, hv, hns⟩ := (h.provider_iff ns i).mp hi
      exact absurd hns (hfree v (List.mem_of_getElem? hv))

/-- A unit is added if it shares no namespace with those that are there. -/
theorem Indexed.shareNothing_of_add (h : Indexed lib) {lib' : Library} {u : CompiledUnit}
    (hadd : lib.add u = .ok lib') {v : CompiledUnit} (hv : v ∈ lib.units) : ShareNothing v u := by
  intro ns hns hmem
  unfold Library.add at hadd
  split at hadd
  · next providers hclaim =>
    exact h.get?_eq_none_iff.mp (get?_eq_none_of_claim hclaim hmem) v hv hns
  · contradiction

/-- Otherwise the first namespace that is shared and its owner are told. -/
theorem Indexed.clashes_of_add (h : Indexed lib) {u : CompiledUnit} (hnodup : u.provides.Nodup)
    {e : BuildError} (hadd : lib.add u = .error e) : ∃ earlier ns, Clashes lib.units u earlier ns ∧
      e = .duplicateProvide ns earlier.relPath u.relPath := by
  unfold Library.add at hadd
  split at hadd
  · contradiction
  · next e' hclaim =>
    obtain rfl := Except.error.inj hadd
    obtain ⟨front, ns, back, other, hnames, hfront, hother, rfl⟩ := claim_eq_error hnodup hclaim
    obtain ⟨earlier, hearlier, hns⟩ := (h.provider_iff ns other).mp hother
    refine ⟨earlier, ns, ⟨List.mem_of_getElem? hearlier, hns, front, back, hnames, ?_⟩, ?_⟩
    · exact fun m hm => h.get?_eq_none_iff.mp (hfront m hm)
    · rw [hearlier]
      rfl

/-! ## Adding units -/

/-- Adds units in order with checked reads. -/
def addUnitsChecked (lib : Library) (units : List CompiledUnit) : Except Fault Library :=
  units.foldlM addChecked lib

theorem nodup_providesOf (js : String) : (providesOf js).Nodup :=
  nodup_insertAllNew List.nodup_nil

theorem Declared.nodup {u : CompiledUnit} (h : Declared u) : u.provides.Nodup := by
  obtain ⟨-, js, hjs⟩ := h
  exact hjs ▸ nodup_providesOf js

theorem Indexed.addUnitsChecked_eq (h : Indexed lib) {units : List CompiledUnit}
    (hunits : ∀ u ∈ units, Declared u) :
    lib.addUnitsChecked units = checked (lib.addUnits units) := by
  induction units generalizing lib with
  | nil => rfl
  | cons u units ih =>
    obtain ⟨hu, hrest⟩ := List.forall_mem_cons.mp hunits
    have hstep : lib.addUnitsChecked (u :: units) =
        lib.addChecked u >>= (·.addUnitsChecked units) := List.foldlM_cons ..
    rw [hstep, h.addChecked_eq hu.nodup]
    cases hadd : lib.add u with
    | error e =>
      rw [addUnits_cons_of_error hadd]
      rfl
    | ok lib' =>
      rw [addUnits_cons_of_ok hadd]
      exact ih (h.add_declared hu hadd) hrest

/-- The units that stand in the index go before those to be added. -/
theorem Indexed.addUnits_cases (h : Indexed lib) (hshare : lib.units.Pairwise ShareNothing)
    {units : List CompiledUnit} (hunits : ∀ u ∈ units, Declared u) :
    (∃ lib', lib.addUnits units = .ok lib' ∧ lib'.units.Pairwise ShareNothing) ∨
      ∃ before u after earlier ns, units = before ++ u :: after ∧
        (lib.units ++ before).Pairwise ShareNothing ∧ Clashes (lib.units ++ before) u earlier ns ∧
        lib.addUnits units = .error (.duplicateProvide ns earlier.relPath u.relPath) := by
  induction units generalizing lib with
  | nil => exact .inl ⟨lib, rfl, hshare⟩
  | cons u units ih =>
    obtain ⟨hu, hrest⟩ := List.forall_mem_cons.mp hunits
    cases hadd : lib.add u with
    | error e =>
      obtain ⟨earlier, ns, hclash, rfl⟩ := h.clashes_of_add hu.nodup hadd
      refine .inr ⟨[], u, units, earlier, ns, rfl, ?_, ?_, addUnits_cons_of_error hadd units⟩
      · rwa [List.append_nil]
      · rwa [List.append_nil]
    | ok lib₁ =>
      have hunits₁ := (add_eq_ok hadd).2
      have hshare₁ : lib₁.units.Pairwise ShareNothing := by
        rw [hunits₁, List.pairwise_append]
        refine ⟨hshare, List.pairwise_singleton _ u, fun v hv w hw => ?_⟩
        rw [List.mem_singleton.mp hw]
        exact h.shareNothing_of_add hadd hv
      rw [addUnits_cons_of_ok hadd]
      rcases ih (h.add_declared hu hadd) hshare₁ hrest with hall |
        ⟨before, w, after, earlier, ns, rfl, hbefore, hclash, herror⟩
      · exact .inl hall
      · rw [hunits₁, List.append_assoc, List.singleton_append] at hbefore hclash
        exact .inr ⟨u :: before, w, after, earlier, ns, rfl, hbefore, hclash, herror⟩

/-- `lib` holds the units in their order, and leads from a namespace to the place of the unit that
provides it. -/
structure IndexOf (lib : Library) (units : List CompiledUnit) : Prop where
  units_eq : lib.units = units
  provider_iff : ∀ ns i,
    lib.providers.get? ns = some i ↔ ∃ u, units[i]? = some u ∧ ns ∈ u.provides
  shareNothing : units.Pairwise ShareNothing
  provides_ne_nil : ∀ u ∈ units, u.provides ≠ []

/-- Units are all added, and then the index is theirs, or adding them stops at the first unit that
provides a namespace of an earlier one.  No read misses, neither while they are added nor later. -/
theorem addUnits_indexes_or_clashes (root : Pathname) {units : List CompiledUnit}
    (hunits : ∀ u ∈ units, Declared u) :
    (empty root).addUnitsChecked units = checked ((empty root).addUnits units) ∧
      ((∃ lib, (empty root).addUnits units = .ok lib ∧ IndexOf lib units ∧
          (∀ ns, lib.closureChecked ns = checked (lib.closure ns)) ∧
          lib.recordsChecked = checked (.ok lib.records)) ∨
        ∃ before u after earlier ns, units = before ++ u :: after ∧ before.Pairwise ShareNothing ∧
          Clashes before u earlier ns ∧
          (empty root).addUnits units =
            .error (.duplicateProvide ns earlier.relPath u.relPath)) := by
  have hempty := indexed_empty root
  refine ⟨hempty.addUnitsChecked_eq hunits, ?_⟩
  rcases hempty.addUnits_cases List.Pairwise.nil hunits with ⟨lib, hok, hshare⟩ |
    ⟨before, u, after, earlier, ns, hsplit, hbefore, hclash, herror⟩
  · have h := hempty.addUnits hunits hok
    obtain rfl : lib.units = units := (addUnits_eq_ok hok).2
    have hindex : IndexOf lib lib.units := ⟨rfl, h.provider_iff, hshare, h.provides_ne_nil⟩
    exact .inl ⟨lib, hok, hindex, h.closureChecked_eq, recordsChecked_eq lib⟩
  · exact .inr ⟨before, u, after, earlier, ns, hsplit, hbefore, hclash, herror⟩

/-- Two units that share nothing, and one whose second and third namespace the first provides. -/
def rivalUnits : List CompiledUnit :=
  [⟨"x.js", ⟨"lib/x.js"⟩, ["a", "b"], []⟩, ⟨"y.js", ⟨"lib/y.js"⟩, ["c"], ["a"]⟩,
    ⟨"z.js", ⟨"lib/z.js"⟩, ["d", "b", "a"], ["c"]⟩]

theorem declared_rivalUnits : ∀ u ∈ rivalUnits, Declared u := by
  refine List.forall_mem_cons.mpr ⟨⟨by decide, ?_⟩, List.forall_mem_cons.mpr ⟨⟨by decide, ?_⟩,
    List.forall_mem_singleton.mpr ⟨by decide, ?_⟩⟩⟩
  · exact ⟨"goog.provide('a')goog.provide('b')goog.provide('a')", by decide +kernel⟩
  · exact ⟨"goog.provide('c')", by decide +kernel⟩
  · exact ⟨"goog.provide('d')goog.provide('b')goog.provide('a')", by decide +kernel⟩

theorem addUnits_rivalUnits :
    (∀ u ∈ rivalUnits, Declared u) ∧
      (∃ lib, (empty ⟨"lib"⟩).addUnits (rivalUnits.take 2) = .ok lib ∧
        IndexOf lib (rivalUnits.take 2) ∧ lib.closureChecked "c" = checked (lib.closure "c")) ∧
      (empty ⟨"lib"⟩).addUnits rivalUnits = .error (.duplicateProvide "b" "x.js" "z.js") ∧
      (empty ⟨"lib"⟩).addUnitsChecked rivalUnits =
        checked (.error (.duplicateProvide "b" "x.js" "z.js")) ∧
      ∃ before u after earlier ns, rivalUnits = before ++ u :: after ∧
        before.Pairwise ShareNothing ∧ Clashes before u earlier ns ∧
        BuildError.duplicateProvide ns earlier.relPath u.relPath =
          .duplicateProvide "b" "x.js" "z.js" := by
  have hfirst : ∀ u ∈ rivalUnits.take 2, Declared u :=
    fun u hu => declared_rivalUnits u (List.mem_of_mem_take hu)
  have herror : (empty ⟨"lib"⟩).addUnits rivalUnits =
      .error (.duplicateProvide "b" "x.js" "z.js") := by decide +kernel
  obtain ⟨hchecked, hcases⟩ := addUnits_indexes_or_clashes ⟨"lib"⟩ declared_rivalUnits
  refine ⟨declared_rivalUnits, ?_, herror, herror ▸ hchecked, ?_⟩
  · rcases (addUnits_indexes_or_clashes ⟨"lib"⟩ hfirst).2 with ⟨lib, hok, hindex, hclosure, -⟩ |
      ⟨before, u, after, earlier, ns, -, -, -, hfails⟩
    · exact ⟨lib, hok, hindex, hclosure "c"⟩
    · have hadded : ((empty ⟨"lib"⟩).addUnits (rivalUnits.take 2)).isOk = true := by
        decide +kernel
      rw [hfails] at hadded
      contradiction
  · rcases hcases with ⟨lib, hok, -⟩ |
      ⟨before, u, after, earlier, ns, hsplit, hshare, hclash, hfails⟩
    · rw [herror] at hok
      contradiction
    · rw [herror] at hfails
      exact ⟨before, u, after, earlier, ns, hsplit, hshare, hclash, (Except.error.inj hfails).symm⟩

end LiveLisp.Library
