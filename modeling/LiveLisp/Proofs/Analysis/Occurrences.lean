import LiveLisp.Proofs.Analysis.Failure
/-!
# Occurrences of symbols

Definitions and evaluated symbols of a form, in the order in which they stand in the source.  A
form determines them, with the names that are bound around each symbol and the names whose
definitions its analysis comes after: whatever is defined before it, but for the last branch of a
conditional, which is analyzed before the test and the first branch.
-/

namespace LiveLisp.Analysis

open Fallible
open Munge (munge)
open Text (Position)

/-! ## Occurrences -/

/-- A symbol that is evaluated. -/
structure Occurrence where
  scope : Scope
  pos : Position
  symbol : Symbol
  /-- The names whose definitions in the form are analyzed before it. -/
  known : List String
  /-- The names that are defined in the test or the first branch of a conditional in whose last
  branch it stands. -/
  overtaken : List String

/-- What a form does on the way, in the order of the source. -/
inductive Event where
  | define (name : String)
  | occurs (o : Occurrence)

namespace Event

def name? : Event → Option String
  | .define name => some name
  | .occurs _ => none

/-- The same behind more definitions. -/
def behind (names : List String) : Event → Event
  | .define name => .define name
  | .occurs o => .occurs { o with known := names ++ o.known }

/-- The same with definitions before it in the source that are analyzed later. -/
def overtaking (names : List String) : Event → Event
  | .define name => .define name
  | .occurs o => .occurs { o with overtaken := names ++ o.overtaken }

end Event

/-- The names that are defined. -/
def defined (es : List Event) : List String := es.filterMap Event.name?

/-- One after the other, in the source as in the analysis. -/
def chain (es fs : List Event) : List Event := es ++ fs.map (Event.behind (defined es))

def chainAll {α : Type} (events : α → List Event) : List α → List Event
  | [] => []
  | x :: xs => chain (events x) (chainAll events xs)

/-! ## Events by form -/

section EventsBy

variable (events : Scope → Form → List Event)

def defineEvents (scope : Scope) (args : List Form) : List Event :=
  (definitionParts args).elim [] fun (name, init) =>
    name.plainName?.elim [] fun name =>
      chain [.define name] (chainAll (events scope) init.toList)

def condEvents (scope : Scope) (args : List Form) : List Event :=
  (condParts args).elim [] fun (test, thenBranch, elseBranch) =>
    let first := chain (events scope test) (events scope thenBranch)
    let last := chainAll (events scope) elseBranch.toList
    -- the last branch is analyzed first
    first.map (Event.behind (defined last)) ++ last.map (Event.overtaking (defined first))

def bindingEvents (scope : Scope) : List (Form × Form) → List Event
  | [] => []
  | (name, init) :: rest =>
    name.plainName?.elim [] fun name =>
      chain (events scope init) (bindingEvents (scope.bind name) rest)

def bindEvents (scope : Scope) : List Form → List Event
  | .vector _ items :: body =>
    (Form.pairUp items).elim [] fun pairs =>
      chain (bindingEvents events scope pairs)
        (chainAll (events (scope.bindAll (boundNames pairs))) body)
  | _ => []

def funcEvents (scope : Scope) (args : List Form) : List Event :=
  (namedFunction? args).elim [] fun
    | (name, .vector _ params :: body) =>
      (parameterNames? params).elim [] fun (names, rest) =>
        chainAll (events (scope.bindAll (name.toList ++ names ++ rest.toList))) body
    | _ => []

def clauseEvents (scope : Scope) : List Form → List Event
  | [] => []
  | form :: rest =>
    let items := (form.list?.getD []).drop 1
    if form.isHeadedBy "catch" then
      match items with
      | _ :: binding :: body =>
        binding.plainName?.elim [] fun name =>
          chain (chainAll (events (scope.bind name)) body) (clauseEvents scope rest)
      | _ => []
    else chain (chainAll (events scope) items) (clauseEvents scope rest)

def guardEvents (scope : Scope) (args : List Form) : List Event :=
  let (body, clauses) := args.span (fun form => !isClause form)
  chain (chainAll (events scope) body) (clauseEvents events scope clauses)

def dotEvents (scope : Scope) (args : List Form) : List Event :=
  (dotParts? args).elim [] fun (target, member, args) =>
    member.plainName?.elim [] fun _ => chainAll (events scope) (target :: args)

def specialEvents (scope : Scope) (special : Special) (args : List Form) : List Event :=
  match special with
  | .ns | .quote => []
  | .define => defineEvents events scope args
  | .cond => condEvents events scope args
  | .bind => bindEvents events scope args
  | .func => funcEvents events scope args
  | .guard => guardEvents events scope args
  | .dot => dotEvents events scope args
  | .block | .assign | .throw | .new => chainAll (events scope) args

def symbolEvent (scope : Scope) (pos : Position) (symbol : Symbol) : Event :=
  .occurs ⟨scope, pos, symbol, [], []⟩

def listEvents (scope : Scope) (head : Form) (args : List Form) : List Event :=
  match specialHead? scope head with
  | some special => specialEvents events scope special args
  | none =>
    match memberHead? scope head with
    | some _ => chainAll (events scope) args
    | none =>
      match constructorHead? head with
      | some ctor => chain [symbolEvent scope head.pos ctor] (chainAll (events scope) args)
      | none => chainAll (events scope) (head :: args)

def formEvents (scope : Scope) : Form → List Event
  | .atom pos (.symbol symbol) => [symbolEvent scope pos symbol]
  | .atom .. | .list _ [] => []
  | .vector _ items | .set _ items => chainAll (events scope) items
  | .map _ entries => chainAll (events scope) (entries.flatMap fun e => [e.1, e.2])
  | .list _ (head :: args) => listEvents events scope head args

end EventsBy

/-- The events of a form no deeper than `depth`. -/
def eventsTo : Nat → Scope → Form → List Event
  | 0, _, _ => []
  | depth + 1, scope, form => formEvents (eventsTo depth) scope form

/-- The events of a top-level form in the namespace `ns`.  A declaration has none. -/
def eventsOf (ns : String) (form : Form) : List Event :=
  if form.isHeadedBy "ns" then [] else eventsTo form.depth ⟨ns, [], munge⟩ form

/-! ## Names before a symbol -/

section Defined

variable (es fs : List Event) (names : List String)

theorem mem_defined {es : List Event} {name : String} :
    name ∈ defined es ↔ .define name ∈ es := by
  rw [defined, List.mem_filterMap]
  constructor
  · rintro ⟨e, he, hname⟩
    cases e with
    | define other => rwa [← Option.some.inj hname]
    | occurs => contradiction
  · intro he
    exact ⟨_, he, rfl⟩

@[simp] theorem defined_append : defined (es ++ fs) = defined es ++ defined fs :=
  List.filterMap_append ..

@[simp] theorem defined_map_behind : defined (es.map (Event.behind names)) = defined es := by
  have hname : Event.name? ∘ Event.behind names = Event.name? := by
    funext e
    cases e <;> rfl
  rw [defined, List.filterMap_map, hname]
  rfl

@[simp] theorem defined_map_overtaking :
    defined (es.map (Event.overtaking names)) = defined es := by
  have hname : Event.name? ∘ Event.overtaking names = Event.name? := by
    funext e
    cases e <;> rfl
  rw [defined, List.filterMap_map, hname]
  rfl

@[simp] theorem defined_chain : defined (chain es fs) = defined es ++ defined fs := by
  rw [chain, defined_append, defined_map_behind]

end Defined

/-- The symbols know whatever is defined before them, in `before` or among the events, unless it is
overtaken; and only that is. -/
def OrderedFrom (before : List String) : List Event → Prop
  | [] => True
  | .define name :: rest => OrderedFrom (before ++ [name]) rest
  | .occurs o :: rest =>
    (∀ x ∈ before, x ∈ o.known ∨ x ∈ o.overtaken) ∧ (∀ x ∈ o.overtaken, x ∈ before) ∧
      OrderedFrom before rest

section Ordered

variable {before : List String} {es fs : List Event}

theorem orderedFrom_append :
    OrderedFrom before (es ++ fs) ↔
      OrderedFrom before es ∧ OrderedFrom (before ++ defined es) fs := by
  induction es generalizing before with
  | nil => simp [OrderedFrom, defined]
  | cons e es ih =>
    cases e with
    | define name =>
      rw [List.cons_append, OrderedFrom, ih, OrderedFrom, List.append_assoc]
      rfl
    | occurs o =>
      rw [List.cons_append, OrderedFrom, ih, OrderedFrom, and_assoc, and_assoc]
      rfl

theorem OrderedFrom.behind (h : OrderedFrom before es) (names : List String) :
    OrderedFrom before (es.map (Event.behind names)) := by
  induction es generalizing before with
  | nil => trivial
  | cons e es ih =>
    cases e with
    | define name => exact ih h
    | occurs o =>
      obtain ⟨hknown, hovertaken, hrest⟩ := h
      refine ⟨fun x hx => ?_, hovertaken, ih hrest⟩
      exact (hknown x hx).imp_left (List.mem_append_right _)

/-- What comes next in the source as in the analysis knows what was defined. -/
theorem OrderedFrom.after (h : OrderedFrom before es) (names : List String) :
    OrderedFrom (names ++ before) (es.map (Event.behind names)) := by
  induction es generalizing before with
  | nil => trivial
  | cons e es ih =>
    cases e with
    | define name =>
      have hrest := @ih (before ++ [name]) h
      rwa [← List.append_assoc] at hrest
    | occurs o =>
      obtain ⟨hknown, hovertaken, hrest⟩ := h
      refine ⟨fun x hx => ?_, fun x hx => List.mem_append_right _ (hovertaken x hx), ih hrest⟩
      rcases List.mem_append.mp hx with hx | hx
      · exact .inl (List.mem_append_left _ hx)
      · exact (hknown x hx).imp_left (List.mem_append_right _)

theorem OrderedFrom.overtaking (h : OrderedFrom before es) (names : List String) :
    OrderedFrom (names ++ before) (es.map (Event.overtaking names)) := by
  induction es generalizing before with
  | nil => trivial
  | cons e es ih =>
    cases e with
    | define name =>
      have hrest := @ih (before ++ [name]) h
      rwa [← List.append_assoc] at hrest
    | occurs o =>
      obtain ⟨hknown, hovertaken, hrest⟩ := h
      refine ⟨fun x hx => ?_, fun x hx => ?_, ih hrest⟩
      · rcases List.mem_append.mp hx with hx | hx
        · exact .inr (List.mem_append_left _ hx)
        · exact (hknown x hx).imp_right (List.mem_append_right _)
      · rcases List.mem_append.mp hx with hx | hx
        · exact List.mem_append_left _ hx
        · exact List.mem_append_right _ (hovertaken x hx)

theorem OrderedFrom.chain (hes : OrderedFrom [] es) (hfs : OrderedFrom [] fs) :
    OrderedFrom [] (chain es fs) := by
  refine orderedFrom_append.mpr ⟨hes, ?_⟩
  have hafter := hfs.after (defined es)
  rwa [List.append_nil] at hafter

theorem orderedFrom_chainAll {α : Type} {events : α → List Event} {xs : List α}
    (h : ∀ x ∈ xs, OrderedFrom [] (events x)) : OrderedFrom [] (chainAll events xs) := by
  induction xs with
  | nil => trivial
  | cons x xs ih =>
    obtain ⟨hx, hxs⟩ := List.forall_mem_cons.mp h
    exact hx.chain (ih hxs)

theorem orderedFrom_elim {α : Type} {events : α → List Event} (answer : Option α)
    (h : ∀ a, OrderedFrom [] (events a)) : OrderedFrom [] (answer.elim [] events) := by
  cases answer with
  | none => trivial
  | some a => exact h a

/-- The definitions before a symbol in the source. -/
theorem OrderedFrom.of_split (h : OrderedFrom before es) {front back : List Event}
    {o : Occurrence} (heq : es = front ++ .occurs o :: back) :
    (∀ x ∈ before ++ defined front, x ∈ o.known ∨ x ∈ o.overtaken) ∧
      ∀ x ∈ o.overtaken, x ∈ before ++ defined front := by
  subst heq
  obtain ⟨-, hknown, hovertaken, -⟩ := orderedFrom_append.mp h
  exact ⟨hknown, hovertaken⟩

end Ordered

theorem ordered_symbolEvent (scope : Scope) (pos : Position) (symbol : Symbol) :
    OrderedFrom [] [symbolEvent scope pos symbol] :=
  ⟨by simp, by simp, trivial⟩

section OrderedBy

variable {events : Scope → Form → List Event}
  (h : ∀ scope form, OrderedFrom [] (events scope form))
include h

theorem ordered_all (scope : Scope) (forms : List Form) :
    OrderedFrom [] (chainAll (events scope) forms) :=
  orderedFrom_chainAll fun form _ => h scope form

theorem ordered_bindingEvents (scope : Scope) (pairs : List (Form × Form)) :
    OrderedFrom [] (bindingEvents events scope pairs) := by
  induction pairs generalizing scope with
  | nil => trivial
  | cons pair rest ih =>
    obtain ⟨name, init⟩ := pair
    exact orderedFrom_elim _ fun name => (h scope init).chain (ih (scope.bind name))

theorem ordered_clauseEvents (scope : Scope) (forms : List Form) :
    OrderedFrom [] (clauseEvents events scope forms) := by
  induction forms with
  | nil => trivial
  | cons form rest ih =>
    unfold clauseEvents
    dsimp only
    split
    · split
      · exact orderedFrom_elim _ fun name => (ordered_all h _ _).chain ih
      · trivial
    · exact (ordered_all h _ _).chain ih

theorem ordered_specialEvents (scope : Scope) (special : Special) (args : List Form) :
    OrderedFrom [] (specialEvents events scope special args) := by
  cases special with
  | ns | quote => trivial
  | block | assign | throw | new => exact ordered_all h scope args
  | define =>
    refine orderedFrom_elim _ fun parts => orderedFrom_elim _ fun name => ?_
    have hname : OrderedFrom [] [.define name] := trivial
    exact hname.chain (ordered_all h scope _)
  | cond =>
    refine orderedFrom_elim _ fun parts => ?_
    have hfirst := (h scope parts.1).chain (h scope parts.2.1)
    have hlast := (ordered_all h scope parts.2.2.toList).overtaking
      (defined (chain (events scope parts.1) (events scope parts.2.1)))
    refine orderedFrom_append.mpr ⟨hfirst.behind _, ?_⟩
    rw [defined_map_behind, List.nil_append]
    rwa [List.append_nil] at hlast
  | bind =>
    change OrderedFrom [] (bindEvents events scope args)
    unfold bindEvents
    split
    · exact orderedFrom_elim _ fun pairs =>
        (ordered_bindingEvents h scope pairs).chain (ordered_all h _ _)
    · trivial
  | func =>
    refine orderedFrom_elim _ fun r => ?_
    split
    · exact orderedFrom_elim _ fun names => ordered_all h _ _
    · trivial
  | guard => exact (ordered_all h scope _).chain (ordered_clauseEvents h scope _)
  | dot => exact orderedFrom_elim _ fun parts => orderedFrom_elim _ fun _ => ordered_all h scope _

theorem ordered_formEvents (scope : Scope) (form : Form) :
    OrderedFrom [] (formEvents events scope form) := by
  cases form with
  | atom pos value =>
    cases value with
    | symbol symbol => exact ordered_symbolEvent scope pos symbol
    | _ => trivial
  | vector pos items | set pos items => exact ordered_all h scope items
  | map pos entries => exact ordered_all h scope _
  | list pos items =>
    cases items with
    | nil => trivial
    | cons head args =>
      change OrderedFrom [] (listEvents events scope head args)
      unfold listEvents
      split
      · exact ordered_specialEvents h scope _ args
      · split
        · exact ordered_all h scope args
        · split
          · exact (ordered_symbolEvent scope _ _).chain (ordered_all h scope args)
          · exact ordered_all h scope (head :: args)

end OrderedBy

theorem ordered_eventsTo (depth : Nat) (scope : Scope) (form : Form) :
    OrderedFrom [] (eventsTo depth scope form) := by
  induction depth generalizing scope form with
  | zero => trivial
  | succ depth ih => exact ordered_formEvents ih scope form

theorem ordered_eventsOf (ns : String) (form : Form) : OrderedFrom [] (eventsOf ns form) := by
  unfold eventsOf
  split
  · trivial
  · exact ordered_eventsTo _ _ _

end LiveLisp.Analysis
