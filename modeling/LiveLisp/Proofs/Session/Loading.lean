import LiveLisp.Backend.Scripted
import LiveLisp.Proofs.Library.Closure
import LiveLisp.Proofs.Session.Steps
/-!
# Loading in order

Whatever namespaces a session is asked to load, and whatever the backend answers, no unit is
delivered twice, and a unit is delivered only after all it requires.  What carries this is that the
names kept as loaded are those of the delivered units, also after a call that stopped midway.  A
namespace that was loaded stays so: loading it again does nothing.
-/

namespace LiveLisp.Session

open Analysis (coreNs)
open Fallible
open Files (Tree Pathname)
open Library (CompiledUnit Record)

variable {α α' β : Type}

/-! ## Deliveries in the log -/

/-- The call hands a unit to the runtime: its file is loaded, or it is made known in place. -/
def Exchange.HandsOver (u : CompiledUnit) : Exchange → Prop
  | .load provides url _ => provides = u.provides ∧ url = u.path
  | .evaluate file line code _ =>
    file = u.relPath ∧ line = 1 ∧ code = Library.dependencyLine (.ofUnit u)
  | .setup .. | .tearDown _ => False

/-- The backend answered with success. -/
def Exchange.isSuccess : Exchange → Bool
  | .setup _ (.ok _) | .load _ _ (.ok _) | .tearDown (.ok _) => true
  | .evaluate _ _ _ (.ok result) => result.isSuccess
  | _ => false

/-- The unit was handed over with success. -/
def Delivered (log : List Exchange) (u : CompiledUnit) : Prop :=
  ∃ e ∈ log, e.HandsOver u ∧ e.isSuccess = true

theorem Delivered.mono {log log' : List Exchange} {u : CompiledUnit} (h : Delivered log u)
    (hsub : log ⊆ log') : Delivered log' u := by
  obtain ⟨e, he, hover⟩ := h
  exact ⟨e, hsub he, hover⟩

theorem delivered_concat {log : List Exchange} {e : Exchange} {u : CompiledUnit} :
    Delivered (log ++ [e]) u ↔ Delivered log u ∨ e.HandsOver u ∧ e.isSuccess = true := by
  simp only [Delivered, List.mem_append, List.mem_singleton, or_and_right, exists_or,
    exists_eq_left]

/-- All that the unit requires was delivered, the core namespace apart, which the runtime has. -/
def Supplied (lib : Library) (log : List Exchange) (u : CompiledUnit) : Prop :=
  ∀ name ∈ u.requires, name ≠ "goog" →
    ∃ v ∈ lib.units, name ∈ v.provides ∧ (v.provides = [coreNs] ∨ Delivered log v)

/-- The log holds nothing but calls that hand units over, and with success no unit twice, and each
after all it requires. -/
structure InOrder (lib : Library) (log : List Exchange) : Prop where
  handsOver : ∀ e ∈ log, ∃ u ∈ lib.units, e.HandsOver u
  once : ∀ before e rest, log = before ++ e :: rest → ∀ u ∈ lib.units,
    e.HandsOver u → e.isSuccess = true → ¬Delivered before u
  supplied : ∀ before e rest, log = before ++ e :: rest → ∀ u ∈ lib.units,
    e.HandsOver u → e.isSuccess = true → Supplied lib before u

/-! ## Units told apart by their calls -/

theorem toList_nameArray_cons (name : String) (names : List String) :
    ∃ tail, (Library.nameArray (name :: names)).toList =
      '[' :: '\x27' :: (name.toList ++ '\x27' :: tail) := by
  cases names with
  | nil => simp [Library.nameArray]
  | cons next names => simp [Library.nameArray, String.toList_intercalate]

variable {lib : Library}

/-- The line that makes a unit known has its path first and then what it provides. -/
theorem toList_dependencyLine {r : Record} {name : String} {names : List String}
    (h : r.provides = name :: names) :
    ∃ tail, (Library.dependencyLine r).toList =
      ("goog.addDependency(\"" ++ Library.pathFromBase r.relPath ++ "\", ").toList ++
        ('[' :: '\x27' :: (name.toList ++ '\x27' :: tail)) := by
  obtain ⟨tail, htail⟩ := toList_nameArray_cons name names
  unfold Library.dependencyLine
  -- the fixed texts are put away, or rewriting would look into them
  generalize "goog.addDependency(\"" = opening, "\", " = comma, ", " = separator, ");" = closing
  rw [h]
  refine ⟨tail ++ (separator ++ (Library.nameArray r.requires ++ closing)).toList, ?_⟩
  simp only [String.toList_append, htail, List.cons_append, List.append_assoc]

/-- Two units that are made known in the same way share a name. -/
theorem unit_eq_of_dependencyLine (h : lib.Indexed) {u v : CompiledUnit} (hu : u ∈ lib.units)
    (hv : v ∈ lib.units) (hpath : u.relPath = v.relPath)
    (hline : Library.dependencyLine (.ofUnit u) = Library.dependencyLine (.ofUnit v)) :
    u = v := by
  obtain ⟨a, as, has⟩ := List.exists_cons_of_ne_nil (h.provides_ne_nil u hu)
  obtain ⟨b, bs, hbs⟩ := List.exists_cons_of_ne_nil (h.provides_ne_nil v hv)
  have hau : a ∈ u.provides := by simp [has]
  have hbv : b ∈ v.provides := by simp [hbs]
  obtain ⟨s, hs⟩ := toList_dependencyLine (r := .ofUnit u) has
  obtain ⟨t, ht⟩ := toList_dependencyLine (r := .ofUnit v) hbs
  have hquoted : a.toList ++ '\x27' :: s = b.toList ++ '\x27' :: t := by
    rw [hline, ht] at hs
    change (_ ++ Library.pathFromBase v.relPath ++ _).toList ++ _ =
      (_ ++ Library.pathFromBase u.relPath ++ _).toList ++ _ at hs
    rw [hpath] at hs
    have hrest := List.append_cancel_left hs
    exact (List.cons.inj (List.cons.inj hrest).2).2.symm
  have hquote : ∀ {name : String}, name.toList.all Library.isNameChar = true →
      '\x27' ∉ name.toList :=
    fun hname hmem => absurd (List.all_eq_true.mp hname _ hmem) (by decide)
  have hab : a = b := String.toList_inj.mp
    (Text.append_mark_inj (hquote (h.spelling u hu a hau)) (hquote (h.spelling v hv b hbv))
      hquoted).1
  subst hab
  exact h.unit_unique hu hv hau hbv

theorem unit_eq_of_handsOver (h : lib.Indexed) {e : Exchange} {u v : CompiledUnit}
    (hu : u ∈ lib.units) (hv : v ∈ lib.units) (heu : e.HandsOver u) (hev : e.HandsOver v) :
    u = v := by
  cases e with
  | setup | tearDown => exact absurd heu id
  | load provides url answer =>
    obtain ⟨name, hname⟩ := List.exists_mem_of_ne_nil _ (h.provides_ne_nil u hu)
    exact h.unit_unique hu hv hname (hev.1 ▸ heu.1 ▸ hname)
  | evaluate file line code answer =>
    exact unit_eq_of_dependencyLine h hu hv (heu.1.symm.trans hev.1) (heu.2.2.symm.trans hev.2.2)

/-! ## One unit -/

theorem exchange_cases (entry : Except Backend.Failure α → Exchange) (call : Backend.Call β α)
    (s : Session β) :
    (∃ a s', exchange entry call s = .ok a s' ∧ s'.loaded = s.loaded ∧
        s'.exchanges = s.exchanges ++ [entry (.ok a)]) ∨
      ∃ f s', exchange entry call s = .error (.backend f) s' ∧ s'.loaded = s.loaded ∧
        s'.exchanges = s.exchanges ++ [entry (.error f)] := by
  unfold exchange
  cases call s.world with
  | ok a w => exact .inl ⟨a, _, rfl, rfl, rfl⟩
  | error f w => exact .inr ⟨f, _, rfl, rfl, rfl⟩

/-- Handing a unit over takes one call, or none if its file cannot be laid out, and it succeeds
exactly if the call does. -/
theorem deliverUnit_cases (c : Setting β) (u : CompiledUnit) (s : Session β) :
    (∃ err s', deliverUnit c (.ofUnit u) s = .error err s' ∧ s'.loaded = s.loaded ∧
        s'.exchanges = s.exchanges) ∨
      (∃ err e s', deliverUnit c (.ofUnit u) s = .error err s' ∧ s'.loaded = s.loaded ∧
        s'.exchanges = s.exchanges ++ [e] ∧ e.HandsOver u ∧ e.isSuccess = false) ∨
      ∃ e s', deliverUnit c (.ofUnit u) s = .ok () s' ∧ s'.loaded = s.loaded ∧
        s'.exchanges = s.exchanges ++ [e] ∧ e.HandsOver u ∧ e.isSuccess = true := by
  unfold deliverUnit
  cases c.options.outputDir with
  | none =>
    rcases exchange_cases (.load u.provides u.path) (c.backend.load u.provides u.path) s with
      ⟨a, s', hrun, hloaded, hlog⟩ | ⟨f, s', hrun, hloaded, hlog⟩
    · exact .inr (.inr ⟨_, s', hrun, hloaded, hlog, ⟨rfl, rfl⟩, rfl⟩)
    · exact .inr (.inl ⟨_, _, s', hrun, hloaded, hlog, ⟨rfl, rfl⟩, rfl⟩)
  | some dir =>
    dsimp only
    have hkept : (after (onFiles (Library.materialize (.ofUnit u) dir)) s).loaded = s.loaded ∧
        (after (onFiles (Library.materialize (.ofUnit u) dir)) s).exchanges = s.exchanges := by
      unfold after onFiles
      cases Library.materialize (.ofUnit u) dir s.world.files <;> exact ⟨rfl, rfl⟩
    cases hlaid : onFiles (Library.materialize (.ofUnit u) dir) s with
    | error err s₁ =>
      rw [after_of_error hlaid] at hkept
      exact .inl ⟨err, s₁, bind_of_error hlaid, hkept⟩
    | ok path s₁ =>
      rw [after_of_ok hlaid] at hkept
      rw [bind_of_ok hlaid, ← hkept.1, ← hkept.2]
      rcases exchange_cases (.evaluate u.relPath 1 (Library.dependencyLine (.ofUnit u)))
          (c.backend.evaluate u.relPath 1 (Library.dependencyLine (.ofUnit u))) s₁ with
        ⟨result, s', hrun, hloaded, hlog⟩ | ⟨f, s', hrun, hloaded, hlog⟩
      · have hsend : send c (Record.ofUnit u).relPath 1
            (Library.dependencyLine (.ofUnit u)) s₁ = .ok result s' := hrun
        rw [bind_of_ok hsend]
        cases hresult : result.isSuccess with
        | true => exact .inr (.inr ⟨_, s', rfl, hloaded, hlog, ⟨rfl, rfl, rfl⟩, hresult⟩)
        | false => exact .inr (.inl ⟨_, _, s', rfl, hloaded, hlog, ⟨rfl, rfl, rfl⟩, hresult⟩)
      · exact .inr (.inl ⟨_, _, s', bind_of_error hrun, hloaded, hlog, ⟨rfl, rfl, rfl⟩, rfl⟩)

/-! ## What loading keeps -/

theorem inOrder_nil : InOrder lib [] where
  handsOver e he := absurd he List.not_mem_nil
  once before e rest h := by simp at h
  supplied before e rest h := by simp at h

theorem InOrder.concat (hidx : lib.Indexed) {log : List Exchange} (h : InOrder lib log)
    {e : Exchange} {u : CompiledUnit} (hu : u ∈ lib.units) (hover : e.HandsOver u)
    (hsuccess : e.isSuccess = true → ¬Delivered log u ∧ Supplied lib log u) :
    InOrder lib (log ++ [e]) := by
  refine ⟨?_, ?_, ?_⟩
  · intro x hx
    rcases List.mem_append.mp hx with hx | hx
    · exact h.handsOver x hx
    · rw [List.mem_singleton.mp hx]
      exact ⟨u, hu, hover⟩
  · intro before x rest heq v hv hvover hx
    rcases Library.append_singleton_eq_split heq with ⟨rfl, rfl⟩ | ⟨rest', hrest⟩
    · rw [unit_eq_of_handsOver hidx hv hu hvover hover]
      exact (hsuccess hx).1
    · exact h.once before x rest' hrest v hv hvover hx
  · intro before x rest heq v hv hvover hx
    rcases Library.append_singleton_eq_split heq with ⟨rfl, rfl⟩ | ⟨rest', hrest⟩
    · rw [unit_eq_of_handsOver hidx hv hu hvover hover]
      exact (hsuccess hx).2
    · exact h.supplied before x rest' hrest v hv hvover hx

/-- The log is in order, and the names kept as loaded are those of the delivered units. -/
structure LoadedInOrder (lib : Library) (s : Session β) : Prop where
  log : InOrder lib s.exchanges
  names : ∀ name, name ∈ s.loaded ↔
    ∃ u ∈ lib.units, name ∈ u.provides ∧ Delivered s.exchanges u

/-- Nothing but units of the core namespace and delivered ones is passed over. -/
theorem LoadedInOrder.isSettled_iff (hidx : lib.Indexed) {s : Session β}
    (h : LoadedInOrder lib s) {u : CompiledUnit} (hu : u ∈ lib.units) :
    isSettled s.loaded (.ofUnit u) = true ↔
      u.provides = [coreNs] ∨ Delivered s.exchanges u := by
  have hall : u.provides.all s.loaded.contains = true ↔ Delivered s.exchanges u := by
    simp only [List.all_eq_true, List.contains_iff_mem]
    constructor
    · intro hloaded
      obtain ⟨name, hname⟩ := List.exists_mem_of_ne_nil _ (hidx.provides_ne_nil u hu)
      obtain ⟨v, hv, hprovides, hdelivered⟩ := (h.names name).mp (hloaded name hname)
      rwa [hidx.unit_unique hu hv hname hprovides]
    · exact fun hdelivered name hname => (h.names name).mpr ⟨u, hu, hname, hdelivered⟩
  rw [← hall]
  simp [isSettled, Record.providesOnly, Record.ofUnit]

section Delivery

variable {s s' : Session β} {e : Exchange} {u : CompiledUnit}

/-- A failed call is logged and changes nothing else. -/
theorem LoadedInOrder.of_failed (hidx : lib.Indexed) (h : LoadedInOrder lib s)
    (hloaded : s'.loaded = s.loaded) (hlog : s'.exchanges = s.exchanges ++ [e])
    (hu : u ∈ lib.units) (hover : e.HandsOver u) (hfailed : e.isSuccess = false) :
    LoadedInOrder lib s' := by
  refine ⟨?_, ?_⟩
  · rw [hlog]
    exact h.log.concat hidx hu hover fun hok => absurd hok (by simp [hfailed])
  · intro name
    rw [hloaded, hlog, h.names]
    simp only [delivered_concat, hfailed, Bool.false_eq_true, and_false, or_false]

/-- With a unit that is delivered its names are loaded. -/
theorem LoadedInOrder.of_delivered (hidx : lib.Indexed) (h : LoadedInOrder lib s)
    (hloaded : s'.loaded = s.loaded ++ u.provides) (hlog : s'.exchanges = s.exchanges ++ [e])
    (hu : u ∈ lib.units) (hover : e.HandsOver u) (hok : e.isSuccess = true)
    (hnew : ¬Delivered s.exchanges u) (hsupplied : Supplied lib s.exchanges u) :
    LoadedInOrder lib s' := by
  refine ⟨?_, ?_⟩
  · rw [hlog]
    exact h.log.concat hidx hu hover fun _ => ⟨hnew, hsupplied⟩
  · intro name
    rw [hloaded, hlog, List.mem_append, h.names]
    simp only [delivered_concat, hok, and_true]
    constructor
    · rintro (⟨v, hv, hname, hdelivered⟩ | hname)
      · exact ⟨v, hv, hname, .inl hdelivered⟩
      · exact ⟨u, hu, hname, .inr hover⟩
    · rintro ⟨v, hv, hname, hdelivered | hvover⟩
      · exact .inl ⟨v, hv, hname, hdelivered⟩
      · rw [unit_eq_of_handsOver hidx hv hu hvover hover] at hname
        exact .inr hname

/-- A unit that is new and has what it requires is handed over in order. -/
theorem LoadedInOrder.deliverUnit (hidx : lib.Indexed) (c : Setting β) (h : LoadedInOrder lib s)
    (hu : u ∈ lib.units) (hnew : ¬Delivered s.exchanges u)
    (hsupplied : Supplied lib s.exchanges u) :
    (∃ err s', deliverUnit c (.ofUnit u) s = .error err s' ∧ LoadedInOrder lib s') ∨
      ∃ s', deliverUnit c (.ofUnit u) s = .ok () s' ∧ s.exchanges ⊆ s'.exchanges ∧
        Delivered s'.exchanges u ∧
        LoadedInOrder lib { s' with loaded := s'.loaded ++ u.provides } := by
  rcases deliverUnit_cases c u s with ⟨err, s', hrun, hloaded, hlog⟩ |
    ⟨err, e, s', hrun, hloaded, hlog, hover, hfailed⟩ | ⟨e, s', hrun, hloaded, hlog, hover, hok⟩
  · refine .inl ⟨err, s', hrun, ?_, ?_⟩
    · rw [hlog]
      exact h.log
    · rw [hlog, hloaded]
      exact h.names
  · exact .inl ⟨err, s', hrun, h.of_failed hidx hloaded hlog hu hover hfailed⟩
  · refine .inr ⟨s', hrun, ?_, ?_, ?_⟩
    · rw [hlog]
      exact List.subset_append_left _ _
    · rw [hlog]
      exact delivered_concat.mpr (.inr ⟨hover, hok⟩)
    · refine h.of_delivered hidx ?_ hlog hu hover hok hnew hsupplied
      change s'.loaded ++ u.provides = s.loaded ++ u.provides
      rw [hloaded]

end Delivery

/-! ## Units of a closure -/

section Records

variable {c : Setting β} {r : Record} {rest : List Record} {s s' : Session β}

theorem deliverAll_of_settled (h : isSettled s.loaded r = true) :
    deliverAll c (r :: rest) s = deliverAll c rest s := by
  rw [deliverAll]
  refine (bind_of_ok rfl).trans ?_
  rw [if_pos h]

theorem deliverAll_of_error {err : SessionError} (h : isSettled s.loaded r = false)
    (hunit : deliverUnit c r s = .error err s') :
    deliverAll c (r :: rest) s = .error err s' := by
  rw [deliverAll]
  refine (bind_of_ok rfl).trans ?_
  rw [if_neg (by simp [h]), bind_of_error hunit]

theorem deliverAll_of_ok (h : isSettled s.loaded r = false)
    (hunit : deliverUnit c r s = .ok () s') :
    deliverAll c (r :: rest) s =
      (deliverAll c rest >>= fun n => pure (n + 1))
        { s' with loaded := s'.loaded ++ r.provides } := by
  rw [deliverAll]
  refine (bind_of_ok rfl).trans ?_
  rw [if_neg (by simp [h]), bind_of_ok hunit]
  exact bind_of_ok rfl

end Records

/-- Units of a closure are delivered in order, from wherever the ones before them are settled. -/
theorem LoadedInOrder.deliverAll (hidx : lib.Indexed) (c : Setting β) {ns : String}
    {provider : CompiledUnit} {units : List CompiledUnit}
    (hclosure : lib.ClosureOf ns provider units) {before rest : List CompiledUnit}
    (heq : units = before ++ rest) {s : Session β} (h : LoadedInOrder lib s)
    (hbefore : ∀ v ∈ before, v.provides = [coreNs] ∨ Delivered s.exchanges v) :
    LoadedInOrder lib
      (after (deliverAll c (rest.map .ofUnit ++ [.seedOf ns provider])) s) := by
  induction rest generalizing before s with
  | nil =>
    have hseed : Session.deliverAll c [.seedOf ns provider] s = .ok 0 s :=
      deliverAll_of_settled rfl
    rw [List.map_nil, List.nil_append, after_of_ok hseed]
    exact h
  | cons u rest ih =>
    have heq' : units = (before ++ [u]) ++ rest := by rw [heq, List.append_assoc]; rfl
    have hu : u ∈ lib.units := hclosure.inside u (by simp [heq])
    have hsupplied : Supplied lib s.exchanges u := by
      intro name hname hgoog
      obtain ⟨v, hv, hprovides⟩ := hclosure.supplied before u rest heq name hname hgoog
      exact ⟨v, hclosure.inside v (by simp [heq, hv]), hprovides, hbefore v hv⟩
    rw [List.map_cons, List.cons_append]
    by_cases hsettled : isSettled s.loaded (.ofUnit u) = true
    · have hdone := (h.isSettled_iff hidx hu).mp hsettled
      unfold after
      rw [deliverAll_of_settled hsettled]
      refine ih heq' h ?_
      intro v hv
      rcases List.mem_append.mp hv with hv | hv
      · exact hbefore v hv
      · rwa [List.mem_singleton.mp hv]
    · have hnew : ¬Delivered s.exchanges u :=
        fun hd => hsettled ((h.isSettled_iff hidx hu).mpr (.inr hd))
      rw [Bool.not_eq_true] at hsettled
      rcases h.deliverUnit hidx c hu hnew hsupplied with ⟨err, s', hunit, h'⟩ |
        ⟨s', hunit, hgrown, hdelivered, h'⟩
      · rw [after_of_error (deliverAll_of_error hsettled hunit)]
        exact h'
      · unfold after
        rw [deliverAll_of_ok hsettled hunit]
        change LoadedInOrder lib (after (_ >>= fun n => pure (n + 1)) _)
        rw [after_bind_pure]
        refine ih heq' h' ?_
        intro v hv
        rcases List.mem_append.mp hv with hv | hv
        · exact (hbefore v hv).imp_right fun hd => hd.mono hgrown
        · rw [List.mem_singleton.mp hv]
          exact .inr hdelivered

/-! ## Calls of the loader -/

/-- A request to load one namespace, or several. -/
inductive LoadCall where
  | one (ns : String)
  | several (names : List String)

def LoadCall.run (c : Setting β) : LoadCall → Run β Nat
  | .one ns => loadNamespace c ns
  | .several names => loadDependencies c names

/-- The session after requests, each made whatever came of the ones before. -/
def afterCalls (c : Setting β) (calls : List LoadCall) (s : Session β) : Session β :=
  calls.foldl (fun s call => after (call.run c) s) s

section Calls

variable {c : Setting β} {s s' : Session β}

theorem LoadedInOrder.loadNamespace (hidx : c.library.Indexed) (h : LoadedInOrder c.library s)
    (ns : String) : LoadedInOrder c.library (after (loadNamespace c ns) s) := by
  unfold Session.loadNamespace
  cases hclosure : c.library.closure ns with
  | error e => exact h
  | ok records =>
    obtain ⟨provider, units, rfl, hof⟩ := Library.closureOf_of_closure hidx hclosure
    exact h.deliverAll hidx c hof (List.nil_append _).symm
      fun v hv => absurd hv List.not_mem_nil

theorem LoadedInOrder.loadEach (hidx : c.library.Indexed) (h : LoadedInOrder c.library s)
    (names : List String) : LoadedInOrder c.library (after (loadEach c names) s) := by
  induction names generalizing s with
  | nil => exact h
  | cons ns names ih =>
    have hfirst := h.loadNamespace hidx ns
    rw [Session.loadEach]
    cases hrun : Session.loadNamespace c ns s with
    | error e s₁ =>
      rw [after_of_error hrun] at hfirst
      rwa [after_of_error (bind_of_error hrun)]
    | ok n s₁ =>
      rw [after_of_ok hrun] at hfirst
      unfold after
      rw [bind_of_ok hrun]
      change LoadedInOrder c.library (after (_ >>= fun m => pure (n + m)) s₁)
      rw [after_bind_pure]
      exact ih hfirst

theorem LoadedInOrder.afterCalls (hidx : c.library.Indexed) (h : LoadedInOrder c.library s)
    (calls : List LoadCall) : LoadedInOrder c.library (afterCalls c calls s) := by
  induction calls generalizing s with
  | nil => exact h
  | cons call calls ih =>
    refine ih ?_
    cases call with
    | one ns => exact h.loadNamespace hidx ns
    | several names => exact h.loadEach hidx (distinct names)

/-! ## Loading again -/

theorem background_loaded : Background fun s s' : Session β => s.loaded ⊆ s'.loaded where
  refl _ := List.Subset.refl _
  trans h h' := List.Subset.trans h h'
  world _ _ := List.Subset.refl _
  exchange _ _ _ := List.Subset.refl _
  env _ _ := List.Subset.refl _
  loaded _ _ := List.subset_append_left _ _
  tracer _ _ := List.Subset.refl _
  output _ := List.Subset.refl _
  input _ _ := List.Subset.refl _

theorem isSettled_mono {loaded loaded' : List String} {r : Record} (hsub : loaded ⊆ loaded')
    (h : isSettled loaded r = true) : isSettled loaded' r = true := by
  simp only [isSettled, Bool.or_eq_true, List.all_eq_true, List.contains_iff_mem] at h ⊢
  exact h.imp_right fun hall name hname => hsub (hall name hname)

/-- Records that were gone through are settled. -/
theorem isSettled_of_deliverAll {records : List Record} {n : Nat}
    (h : deliverAll c records s = .ok n s') : ∀ r ∈ records, isSettled s'.loaded r = true := by
  induction records generalizing s n with
  | nil => exact fun r hr => absurd hr List.not_mem_nil
  | cons r rest ih =>
    have hgrown : ∀ {s₁ : Session β} {m : Nat}, deliverAll c rest s₁ = .ok m s' →
        s₁.loaded ⊆ s'.loaded := by
      intro s₁ m hrun
      have hkept := background_loaded.deliverAll c rest s₁
      rwa [after_of_ok hrun] at hkept
    have hfirst : ∃ s₁ m, deliverAll c rest s₁ = .ok m s' ∧ isSettled s₁.loaded r = true := by
      cases hsettled : isSettled s.loaded r with
      | true =>
        rw [deliverAll_of_settled hsettled] at h
        exact ⟨s, n, h, hsettled⟩
      | false =>
        cases hunit : deliverUnit c r s with
        | error err s₁ =>
          rw [deliverAll_of_error hsettled hunit] at h
          contradiction
        | ok u s₁ =>
          rw [deliverAll_of_ok hsettled hunit] at h
          obtain ⟨m, s₂, hrest, hpure⟩ := bind_eq_ok.mp h
          obtain ⟨-, rfl⟩ := pure_eq_ok.mp hpure
          have hall : r.provides.all (s₁.loaded ++ r.provides).contains = true := by
            simp only [List.all_eq_true, List.contains_iff_mem]
            exact fun name hname => List.mem_append_right _ hname
          exact ⟨_, m, hrest, by simp only [isSettled, hall, Bool.or_true]⟩
    obtain ⟨s₁, m, hrest, hsettled⟩ := hfirst
    intro x hx
    rcases List.mem_cons.mp hx with rfl | hx
    · exact isSettled_mono (hgrown hrest) hsettled
    · exact ih hrest x hx

theorem deliverAll_of_all_settled {records : List Record}
    (h : ∀ r ∈ records, isSettled s.loaded r = true) : deliverAll c records s = .ok 0 s := by
  induction records with
  | nil => rfl
  | cons r rest ih =>
    rw [deliverAll_of_settled (h r List.mem_cons_self)]
    exact ih fun x hx => h x (List.mem_cons_of_mem _ hx)

theorem loadNamespace_again {ns : String} {n : Nat} {s₁ s₂ : Session β}
    (h : loadNamespace c ns s = .ok n s₁) (hsub : s₁.loaded ⊆ s₂.loaded) :
    loadNamespace c ns s₂ = .ok 0 s₂ := by
  unfold loadNamespace at h ⊢
  cases hclosure : c.library.closure ns with
  | error e =>
    rw [hclosure] at h
    exact absurd h throw_ne_ok
  | ok records =>
    rw [hclosure] at h
    exact deliverAll_of_all_settled fun r hr =>
      isSettled_mono hsub (isSettled_of_deliverAll h r hr)

theorem loaded_subset_afterCalls (calls : List LoadCall) :
    s.loaded ⊆ (afterCalls c calls s).loaded := by
  induction calls generalizing s with
  | nil => exact List.Subset.refl _
  | cons call calls ih =>
    have hcall : s.loaded ⊆ (after (call.run c) s).loaded := by
      cases call with
      | one ns => exact background_loaded.loadNamespace c ns s
      | several names => exact background_loaded.loadEach c (distinct names) s
    exact List.Subset.trans hcall ih

end Calls

/-- Requests to load, in any number and with any answers, deliver units in order; and a namespace
that was loaded is loaded again, at any later time, without a call. -/
theorem loading_inOrder {t : Tree} {root : Pathname} (c : Setting β)
    (hscan : Library.scan t root = .ok c.library) (files : Tree) (backend : β)
    (calls : List LoadCall) :
    InOrder c.library (afterCalls c calls (fresh c files backend)).exchanges ∧
      ∀ ns n s₁, loadNamespace c ns (afterCalls c calls (fresh c files backend)) = .ok n s₁ →
        ∀ later, loadNamespace c ns (afterCalls c later s₁) = .ok 0 (afterCalls c later s₁) := by
  have hidx := Library.indexed_of_scan hscan
  have hfresh : LoadedInOrder c.library (fresh c files backend) := by
    refine ⟨inOrder_nil, fun name => ?_⟩
    simp [fresh, Delivered]
  refine ⟨(hfresh.afterCalls hidx calls).log, ?_⟩
  intro ns n s₁ hrun later
  exact loadNamespace_again hrun (loaded_subset_afterCalls later)

/-- A session over the small library with a backend that cannot load its last unit. -/
def brokenSetting : Setting (List (Except Backend.Failure Backend.Result)) :=
  .ofBackend (({ Backend.Script.silent with unloadable := [("c", "broken")] }).backend none none)
    Library.smallLibrary .none fun _ => 0

theorem loading_inOrder_broken :
    let calls : List LoadCall := [.one "d", .several ["b", "d"], .one "a"]
    let s := afterCalls brokenSetting calls (fresh brokenSetting default [])
    Library.scan Library.smallTree ⟨"lib"⟩ = .ok brokenSetting.library ∧
      s.exchanges.map Exchange.isSuccess = [true, true, false, false] ∧
      InOrder brokenSetting.library s.exchanges ∧
      ∀ ns n s₁, loadNamespace brokenSetting ns s = .ok n s₁ → ∀ later,
        loadNamespace brokenSetting ns (afterCalls brokenSetting later s₁) =
          .ok 0 (afterCalls brokenSetting later s₁) :=
  ⟨Library.scan_smallTree, by decide +kernel,
    loading_inOrder brokenSetting Library.scan_smallTree default [] _⟩

end LiveLisp.Session
