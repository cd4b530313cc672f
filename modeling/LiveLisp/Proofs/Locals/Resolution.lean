import LiveLisp.Proofs.Locals.Script
/-!
# What locals denote

A use of a local means a binding of its name: by the rules of the source the innermost one around
it, by the rules of the script the one whose value the variable of its identifier holds.  The two
agree exactly where no binding takes hold of a use that it does not bind.

Bindings are told apart by the number of bindings around them.
-/

namespace LiveLisp.Locals

open Munge (munge)

/-! ## The two rules -/

/-- The binding that a name means by the rules of the source. `names` are the names bound around
it, innermost first. -/
def bindingOf (names : List String) (x : String) : Option Nat :=
  match names with
  | [] => none
  | y :: rest => if y = x then some rest.length else bindingOf rest x

/-- Variables by identifier, innermost first, with the binding whose value a variable holds. A
variable holds none before it is assigned, and none that can be relied on when it may have been
assigned again. -/
abbrev Vars := List (String × Option Nat)

/-- The binding whose value the variable of a local holds. -/
def Vars.holds (vars : Vars) (x : String) : Option Nat := (vars.lookup (munge x)).join

/-- Variables that hold no binding. -/
def unassigned (names : List String) : Vars := names.map fun x => (munge x, none)

/-- The variables of names bound one inside the other, innermost first, inside `depth` others. -/
def assigned (depth : Nat) : List String → Vars
  | [] => []
  | x :: rest => (munge x, some (depth + rest.length)) :: assigned depth rest

/-- The variables around a stretch of script: as code that runs at once finds them, and as
functions find them that run later. -/
structure Frame where
  now : Vars
  later : Vars

/-- What code that runs at once, or later, finds. -/
def Frame.view (frame : Frame) (deferred : Bool) : Vars :=
  if deferred then frame.later else frame.now

/-- Inside bindings that are assigned when they come into being. -/
def Frame.bind (frame : Frame) (depth : Nat) (names : List String) : Frame :=
  ⟨assigned depth names ++ frame.now, assigned depth names ++ frame.later⟩

/-- The names a function binds, innermost first: a rest parameter hides a parameter of the same
identifier, a later parameter an earlier one, and every parameter the name of the function. -/
def functionNames (name : Option String) (params : List String) (rest : Option String) :
    List String :=
  (name.toList ++ params ++ rest.toList).reverse

/-- The variables that a function declares. Each is a variable of the whole function. -/
def Block.declared : Block → List String
  | .body _ => []
  | .var name _ rest => name :: rest.declared

/-- One use of a local. -/
structure Use where
  name : String
  /-- The binding it means in the source. -/
  means : Option Nat
  /-- The binding whose value it has in the script. -/
  denotes : Option Nat
  deriving DecidableEq, Repr

mutual

/-- The uses of locals in a stretch of script, from left to right. -/
def Code.uses (names : List String) (frame : Frame) : Code → List Use
  | .text _ => []
  | .name x => [⟨x, bindingOf names x, frame.now.holds x⟩]
  | .seq first second => first.uses names frame ++ second.uses names frame
  | .called _ block _ =>
    block.uses names ⟨unassigned block.declared ++ frame.now, frame.later⟩
  | .func name params rest body =>
    let bound := functionNames name params rest
    body.uses (bound ++ names) (Frame.bind ⟨frame.later, frame.later⟩ names.length bound)
  | .handler x body => body.uses (x :: names) (frame.bind names.length [x])

/-- The uses of locals in a function. Until a variable is declared, functions that run later may
find it assigned. -/
def Block.uses (names : List String) (frame : Frame) : Block → List Use
  | .body code => code.uses names frame
  | .var x init rest =>
    init.uses names ⟨frame.now, unassigned (x :: rest.declared) ++ frame.later⟩ ++
      rest.uses (x :: names) (frame.bind names.length [x])

end

/-- The uses of locals in a whole script. -/
def Code.allUses (code : Code) : List Use := code.uses [] ⟨[], []⟩

/-- Whether a use means and denotes one and the same binding. -/
def Use.Kept (u : Use) : Prop := ∃ b, u.means = some b ∧ u.denotes = some b

/-! ## Uses that are taken hold of -/

/-- A use of a name that is bound outside; it is deferred if it stands in a function that runs
later. -/
structure FreeUse where
  name : String
  deferred : Bool
  deriving DecidableEq, Repr

mutual

/-- The uses in a stretch of script of names bound outside of it. -/
def Code.free : Code → List FreeUse
  | .text _ => []
  | .name x => [⟨x, false⟩]
  | .seq first second => first.free ++ second.free
  | .called _ block _ => block.free
  | .func name params rest body =>
    (body.free.filter fun u => u.name ∉ functionNames name params rest).map
      fun u => { u with deferred := true }
  | .handler x body => body.free.filter fun u => u.name ≠ x

def Block.free : Block → List FreeUse
  | .body code => code.free
  | .var x init rest => init.free ++ rest.free.filter fun u => u.name ≠ x

end

/-- No binding of `names`, innermost first, has the identifier of `x` without being the innermost
one of that name. -/
def Clear (names : List String) (x : String) : Prop :=
  ∀ y ∈ names.takeWhile (· ≠ x), munge y ≠ munge x

mutual

/-- No binding in a stretch of script takes hold of a use that it does not bind. -/
def Code.NoCapture : Code → Prop
  | .text _ | .name _ => True
  | .seq first second => first.NoCapture ∧ second.NoCapture
  | .called _ block _ => block.NoCapture []
  | .func name params rest body =>
    body.NoCapture ∧ ∀ u ∈ body.free, Clear (functionNames name params rest) u.name
  | .handler x body => body.NoCapture ∧ ∀ u ∈ body.free, Clear [x] u.name

/-- No variable of a function takes hold of a use that it does not bind. `own` are the variables
declared before. A use of one of them has its value unless it is deferred; any other use in the
value of a variable is taken hold of by every variable of its identifier declared there or
after. -/
def Block.NoCapture (own : List String) : Block → Prop
  | .body code => code.NoCapture
  | .var x init rest =>
    init.NoCapture ∧
      (∀ u ∈ init.free, (u.name ∉ own ∨ u.deferred = true) →
        ∀ y ∈ x :: rest.declared, munge y ≠ munge u.name) ∧
      (∀ u ∈ rest.free, Clear [x] u.name) ∧
      rest.NoCapture (x :: own)

end

/-! ## Agreement -/

/-- Whether a name means and its variable holds one and the same binding. -/
def KeptIn (names : List String) (vars : Vars) (x : String) : Prop :=
  ∃ b, bindingOf names x = some b ∧ vars.holds x = some b

theorem bindingOf_lt {names : List String} {x : String} {b : Nat}
    (h : bindingOf names x = some b) : b < names.length := by
  induction names with
  | nil => simp [bindingOf] at h
  | cons y names ih =>
    rw [bindingOf] at h
    split at h
    · obtain rfl := Option.some.inj h
      simp
    · have hlt := ih h
      rw [List.length_cons]
      omega

theorem Vars.holds_cons_of_eq {x y : String} (h : munge y = munge x) (b : Option Nat)
    (vars : Vars) : Vars.holds ((munge y, b) :: vars) x = b := by
  simp [Vars.holds, h]

theorem Vars.holds_cons_of_ne {x y : String} (h : munge y ≠ munge x) (b : Option Nat)
    (vars : Vars) : Vars.holds ((munge y, b) :: vars) x = vars.holds x := by
  have hne : (munge x == munge y) = false := by simpa using fun he : munge x = munge y => h he.symm
  simp [Vars.holds, List.lookup_cons, hne]

@[simp] theorem clear_nil (x : String) : Clear [] x := by simp [Clear]

theorem clear_cons_self (names : List String) (x : String) : Clear (x :: names) x := by
  simp [Clear]

theorem clear_cons_of_ne {x y : String} (h : y ≠ x) (names : List String) :
    Clear (y :: names) x ↔ munge y ≠ munge x ∧ Clear names x := by
  simp [Clear, h]

theorem Clear.of_not_mem {names : List String} {x : String} (h : Clear names x)
    (hx : x ∉ names) : ∀ y ∈ names, munge y ≠ munge x := by
  induction names with
  | nil => simp
  | cons z names ih =>
    have hne : z ≠ x := fun he => hx (by simp [he])
    obtain ⟨hz, hrest⟩ := (clear_cons_of_ne hne names).mp h
    intro y hy
    rcases List.mem_cons.mp hy with rfl | hy
    · exact hz
    · exact ih hrest (fun hmem => hx (by simp [hmem])) y hy

/-- Among bindings that are assigned, a name is kept if the innermost binding of its identifier is
one of its name; without any of its name it is kept if it is outside. -/
theorem keptIn_assigned (inner names : List String) (vars : Vars) (x : String) :
    KeptIn (inner ++ names) (assigned names.length inner ++ vars) x ↔
      Clear inner x ∧ (x ∈ inner ∨ KeptIn names vars x) := by
  induction inner with
  | nil => simp [assigned]
  | cons y inner ih =>
    rw [List.cons_append, assigned, List.cons_append]
    by_cases hyx : y = x
    · subst hyx
      have hkept : KeptIn (y :: (inner ++ names)) ((munge y, some (names.length + inner.length)) ::
          (assigned names.length inner ++ vars)) y := by
        refine ⟨names.length + inner.length, ?_, Vars.holds_cons_of_eq rfl _ _⟩
        simp [bindingOf, Nat.add_comm]
      simp [hkept, clear_cons_self]
    · have hmeans : bindingOf (y :: (inner ++ names)) x = bindingOf (inner ++ names) x := by
        simp [bindingOf, hyx]
      rw [clear_cons_of_ne hyx]
      by_cases hsame : munge y = munge x
      · -- the variable belongs to a binding further in than every binding of the name
        have hlost : ¬ KeptIn (y :: (inner ++ names)) ((munge y,
            some (names.length + inner.length)) :: (assigned names.length inner ++ vars)) x := by
          rintro ⟨b, hb, hholds⟩
          rw [hmeans] at hb
          rw [Vars.holds_cons_of_eq hsame] at hholds
          have hlt := bindingOf_lt hb
          rw [List.length_append] at hlt
          obtain rfl := Option.some.inj hholds
          omega
        exact iff_of_false hlost fun h => h.1.1 hsame
      · have hholds := Vars.holds_cons_of_ne hsame (some (names.length + inner.length))
          (assigned names.length inner ++ vars)
        have hne : x ≠ y := fun he => hyx he.symm
        simp only [KeptIn, hmeans, hholds] at ih ⊢
        rw [ih]
        simp [hsame, hne]

/-- A variable that is not assigned keeps no name of its identifier. -/
theorem keptIn_unassigned (declared names : List String) (vars : Vars) (x : String) :
    KeptIn names (unassigned declared ++ vars) x ↔
      (∀ y ∈ declared, munge y ≠ munge x) ∧ KeptIn names vars x := by
  induction declared with
  | nil => simp [unassigned]
  | cons y declared ih =>
    have hcons : unassigned (y :: declared) ++ vars =
        (munge y, none) :: (unassigned declared ++ vars) := rfl
    rw [hcons]
    by_cases hsame : munge y = munge x
    · have hholds := Vars.holds_cons_of_eq hsame none (unassigned declared ++ vars)
      refine iff_of_false ?_ fun h => h.1 y (by simp) hsame
      rintro ⟨b, -, hb⟩
      rw [hholds] at hb
      exact absurd hb (by simp)
    · have hholds := Vars.holds_cons_of_ne hsame none (unassigned declared ++ vars)
      simp only [KeptIn, hholds] at ih ⊢
      rw [ih]
      simp [hsame]

/-- Bindings that are assigned around a frame. -/
theorem keptIn_bind (frame : Frame) (names inner : List String) (deferred : Bool) (x : String) :
    KeptIn (inner ++ names) ((frame.bind names.length inner).view deferred) x ↔
      Clear inner x ∧ (x ∈ inner ∨ KeptIn names (frame.view deferred) x) := by
  have hview : (frame.bind names.length inner).view deferred =
      assigned names.length inner ++ frame.view deferred := by
    cases deferred <;> rfl
  rw [hview, keptIn_assigned]

/-- A stretch of script inside bindings, if it is known when its uses are kept. -/
theorem kept_bind_iff {c : Code} {names inner : List String} {frame : Frame}
    (h : (∀ u ∈ c.uses (inner ++ names) (frame.bind names.length inner), u.Kept) ↔
      c.NoCapture ∧ ∀ u ∈ c.free,
        KeptIn (inner ++ names) ((frame.bind names.length inner).view u.deferred) u.name) :
    (∀ u ∈ c.uses (inner ++ names) (frame.bind names.length inner), u.Kept) ↔
      (c.NoCapture ∧ ∀ u ∈ c.free, Clear inner u.name) ∧
        ∀ u ∈ c.free, u.name ∉ inner → KeptIn names (frame.view u.deferred) u.name := by
  rw [h]
  simp only [keptIn_bind]
  constructor
  · rintro ⟨hc, hfree⟩
    refine ⟨⟨hc, fun u hu => (hfree u hu).1⟩, fun u hu hout => ?_⟩
    exact (hfree u hu).2.resolve_left hout
  · rintro ⟨⟨hc, hclear⟩, hfree⟩
    refine ⟨hc, fun u hu => ⟨hclear u hu, ?_⟩⟩
    by_cases hin : u.name ∈ inner
    · exact .inl hin
    · exact .inr (hfree u hu hin)

/-! ### Functions with variables -/

/-- The frame of a function that has assigned `own` of its variables `declared`. -/
def Frame.declaring (frame : Frame) (depth : Nat) (own declared : List String) : Frame :=
  ⟨assigned depth own ++ (unassigned declared ++ frame.now), assigned depth own ++ frame.later⟩

theorem keptIn_declaring (frame : Frame) (names own declared : List String) (deferred : Bool)
    (x : String) :
    KeptIn (own ++ names) ((frame.declaring names.length own declared).view deferred) x ↔
      Clear own x ∧ (x ∈ own ∨ ((deferred = false → ∀ y ∈ declared, munge y ≠ munge x) ∧
        KeptIn names (frame.view deferred) x)) := by
  cases deferred with
  | false =>
    have hview : (frame.declaring names.length own declared).view false =
        assigned names.length own ++ (unassigned declared ++ frame.view false) := rfl
    rw [hview, keptIn_assigned, keptIn_unassigned]
    simp
  | true =>
    have hview : (frame.declaring names.length own declared).view true =
        assigned names.length own ++ frame.view true := rfl
    rw [hview, keptIn_assigned]
    simp

theorem Frame.declaring_bind (frame : Frame) (names own declared : List String) (x : String) :
    (frame.declaring names.length own declared).bind (own ++ names).length [x] =
      frame.declaring names.length (x :: own) declared := by
  have hlength : (own ++ names).length = names.length + own.length := by
    rw [List.length_append, Nat.add_comm]
  simp [Frame.declaring, Frame.bind, assigned, hlength]

section Declaring

variable {names own declared : List String} {frame : Frame}

/-- A use after the last variable has been declared. -/
theorem keptIn_body_iff (hown : ∀ y ∈ declared, y ∈ own) (u : FreeUse) :
    KeptIn (own ++ names) ((frame.declaring names.length own declared).view u.deferred) u.name ↔
      Clear own u.name ∧ (u.name ∈ own ∨ KeptIn names (frame.view u.deferred) u.name) := by
  rw [keptIn_declaring]
  constructor
  · rintro ⟨hclear, hin | ⟨-, hout⟩⟩
    · exact ⟨hclear, .inl hin⟩
    · exact ⟨hclear, .inr hout⟩
  · rintro ⟨hclear, hkept⟩
    refine ⟨hclear, ?_⟩
    by_cases hin : u.name ∈ own
    · exact .inl hin
    · exact .inr ⟨fun _ y hy => hclear.of_not_mem hin y (hown y hy), hkept.resolve_left hin⟩

/-- A use in the value of a variable when the variables `pending` are still to be assigned. -/
theorem keptIn_init_iff {pending : List String} (hpending : ∀ y ∈ pending, y ∈ declared)
    (hown : ∀ y ∈ declared, y ∈ own ∨ y ∈ pending) (u : FreeUse) :
    KeptIn (own ++ names) ((Frame.mk (frame.declaring names.length own declared).now
        (unassigned pending ++ (frame.declaring names.length own declared).later)).view u.deferred)
        u.name ↔
      ((u.name ∉ own ∨ u.deferred = true) → ∀ y ∈ pending, munge y ≠ munge u.name) ∧
        Clear own u.name ∧ (u.name ∈ own ∨ KeptIn names (frame.view u.deferred) u.name) := by
  obtain ⟨x, deferred⟩ := u
  have hkept := keptIn_declaring frame names own declared deferred x
  cases deferred with
  | true =>
    have hview : (Frame.mk (frame.declaring names.length own declared).now
        (unassigned pending ++ (frame.declaring names.length own declared).later)).view true =
        unassigned pending ++ (frame.declaring names.length own declared).view true := rfl
    rw [hview, keptIn_unassigned, hkept]
    simp
  | false =>
    have hview : (Frame.mk (frame.declaring names.length own declared).now
        (unassigned pending ++ (frame.declaring names.length own declared).later)).view false =
        (frame.declaring names.length own declared).view false := rfl
    rw [hview, hkept]
    simp only [forall_const, Bool.false_eq_true, or_false]
    constructor
    · rintro ⟨hclear, hin | ⟨hfree, hout⟩⟩
      · exact ⟨fun hnot => absurd hin hnot, hclear, .inl hin⟩
      · exact ⟨fun _ y hy => hfree y (hpending y hy), hclear, .inr hout⟩
    · rintro ⟨hfree, hclear, hkept⟩
      refine ⟨hclear, ?_⟩
      by_cases hin : x ∈ own
      · exact .inl hin
      · refine .inr ⟨fun y hy => ?_, hkept.resolve_left hin⟩
        rcases hown y hy with hy | hy
        · exact hclear.of_not_mem hin y hy
        · exact hfree hin y hy

/-- A use after a variable `x` has been declared. -/
theorem clear_cons_iff {x : String} (y : String) {P : Prop} :
    (Clear (x :: own) y ∧ (y ∈ x :: own ∨ P)) ↔
      Clear [x] y ∧ (y ≠ x → Clear own y ∧ (y ∈ own ∨ P)) := by
  by_cases hyx : y = x
  · subst hyx
    simp [clear_cons_self]
  · have hne : x ≠ y := fun he => hyx he.symm
    rw [clear_cons_of_ne hne, clear_cons_of_ne hne]
    simp [hyx, and_assoc]

end Declaring

mutual

/-- The uses in a stretch of script are kept exactly if nothing inside takes hold of one, and those
that mean something outside are kept there. -/
theorem Code.kept_iff (c : Code) (names : List String) (frame : Frame) :
    (∀ u ∈ c.uses names frame, u.Kept) ↔
      c.NoCapture ∧ ∀ u ∈ c.free, KeptIn names (frame.view u.deferred) u.name := by
  match c with
  | .text _ => simp [Code.uses, Code.NoCapture, Code.free]
  | .name x =>
    simp only [Code.uses, Code.NoCapture, Code.free, List.mem_singleton, forall_eq, true_and]
    rfl
  | .seq first second =>
    have hfirst := Code.kept_iff first names frame
    have hsecond := Code.kept_iff second names frame
    simp only [Code.uses, Code.NoCapture, Code.free, List.forall_mem_append, hfirst, hsecond]
    exact and_and_and_comm
  | .called _ block _ =>
    have hblock := Block.kept_iff block [] block.declared names frame (by simp) (by simp)
    simpa [Code.uses, Code.NoCapture, Code.free, Frame.declaring, assigned] using hblock
  | .func name params rest body =>
    have hbody := kept_bind_iff (Code.kept_iff body (functionNames name params rest ++ names)
      (Frame.bind ⟨frame.later, frame.later⟩ names.length (functionNames name params rest)))
    have hview : ∀ d, Frame.view ⟨frame.later, frame.later⟩ d = frame.view true := by
      intro d
      cases d <;> rfl
    simp only [hview] at hbody
    simp only [Code.uses, Code.NoCapture, Code.free, hbody, List.forall_mem_map, List.mem_filter,
      decide_eq_true_eq, and_imp]
  | .handler x body =>
    have hbody := kept_bind_iff
      (Code.kept_iff body ([x] ++ names) (frame.bind names.length [x]))
    simp only [List.singleton_append, List.mem_singleton] at hbody
    simp only [Code.uses, Code.NoCapture, Code.free, hbody, List.mem_filter, decide_eq_true_eq,
      and_imp, ne_eq]

theorem Block.kept_iff (b : Block) (own declared names : List String) (frame : Frame)
    (hdeclared : ∀ y ∈ b.declared, y ∈ declared)
    (hown : ∀ y ∈ declared, y ∈ own ∨ y ∈ b.declared) :
    (∀ u ∈ b.uses (own ++ names) (frame.declaring names.length own declared), u.Kept) ↔
      b.NoCapture own ∧ ∀ u ∈ b.free, Clear own u.name ∧
        (u.name ∈ own ∨ KeptIn names (frame.view u.deferred) u.name) := by
  match b with
  | .body code =>
    have hcode := Code.kept_iff code (own ++ names) (frame.declaring names.length own declared)
    have hin : ∀ y ∈ declared, y ∈ own := fun y hy =>
      (hown y hy).resolve_right (by simp [Block.declared])
    simp only [Block.uses, Block.NoCapture, Block.free, hcode, keptIn_body_iff hin]
  | .var x init rest =>
    have hpending : ∀ y ∈ x :: rest.declared, y ∈ declared := hdeclared
    have hleft : ∀ y ∈ declared, y ∈ own ∨ y ∈ x :: rest.declared := hown
    have hinit := Code.kept_iff init (own ++ names)
      ⟨(frame.declaring names.length own declared).now, unassigned (x :: rest.declared) ++
        (frame.declaring names.length own declared).later⟩
    have hrest := Block.kept_iff rest (x :: own) declared names frame
      (fun y hy => hpending y (by simp [hy])) (by
        intro y hy
        have hmem := hleft y hy
        simp only [List.mem_cons] at hmem ⊢
        rcases hmem with h | h | h <;> simp [h])
    simp only [keptIn_init_iff hpending hleft] at hinit
    simp only [clear_cons_iff, List.cons_append] at hrest
    simp only [Block.uses, Block.NoCapture, Block.free, List.forall_mem_append, hinit,
      Frame.declaring_bind, hrest]
    simp only [List.mem_filter, decide_eq_true_eq, and_imp, forall_and]
    constructor
    · rintro ⟨⟨hc, htaken, hclear, hkept⟩, hr, hx, hclear', hkept'⟩
      exact ⟨⟨hc, htaken, hx, hr⟩, ⟨hclear, hkept⟩, hclear', hkept'⟩
    · rintro ⟨⟨hc, htaken, hx, hr⟩, ⟨hclear, hkept⟩, hclear', hkept'⟩
      exact ⟨⟨hc, htaken, hclear, hkept⟩, hr, hx, hclear', hkept'⟩

end

/-! ## Whole scripts -/

theorem isSome_bindingOf {names : List String} {x : String} (h : x ∈ names) :
    (bindingOf names x).isSome = true := by
  induction names with
  | nil => simp at h
  | cons y names ih =>
    rw [bindingOf]
    split
    · rfl
    · next hne => exact ih ((List.mem_cons.mp h).resolve_left fun he => hne he.symm)

/-- Every name that is free in a stretch of script is one of `names`. -/
def BoundIn (names : List String) (c : Code) : Prop := ∀ u ∈ c.free, u.name ∈ names

/-- Every name that is free in a function is one of `names`. -/
def BlockBoundIn (names : List String) (b : Block) : Prop := ∀ u ∈ b.free, u.name ∈ names

mutual

/-- Where every free name is bound, every use means a binding. -/
theorem Code.isSome_means (c : Code) {names : List String} (frame : Frame) (h : BoundIn names c) :
    ∀ u ∈ c.uses names frame, u.means.isSome = true := by
  match c with
  | .text _ => simp [Code.uses]
  | .name x =>
    have hx : x ∈ names := h ⟨x, false⟩ (by simp [Code.free])
    simpa [Code.uses] using isSome_bindingOf hx
  | .seq first second =>
    have hfirst := first.isSome_means frame fun u hu =>
      h u (List.mem_append_left second.free hu)
    have hsecond := second.isSome_means frame fun u hu =>
      h u (List.mem_append_right first.free hu)
    exact List.forall_mem_append.mpr ⟨hfirst, hsecond⟩
  | .called _ block _ => exact block.isSome_means _ h
  | .func name params rest body =>
    refine body.isSome_means _ fun u hu => ?_
    by_cases hin : u.name ∈ functionNames name params rest
    · exact List.mem_append_left names hin
    · refine List.mem_append_right _ (h { u with deferred := true } ?_)
      simp only [Code.free, List.mem_map, List.mem_filter, decide_eq_true_eq]
      exact ⟨u, ⟨hu, hin⟩, rfl⟩
  | .handler x body =>
    refine body.isSome_means _ fun u hu => ?_
    by_cases hin : u.name = x
    · simp [hin]
    · exact List.mem_cons_of_mem x (h u (by simp [Code.free, hu, hin]))

theorem Block.isSome_means (b : Block) {names : List String} (frame : Frame)
    (h : BlockBoundIn names b) : ∀ u ∈ b.uses names frame, u.means.isSome = true := by
  match b with
  | .body code => exact code.isSome_means frame h
  | .var x init rest =>
    refine List.forall_mem_append.mpr ⟨?_, ?_⟩
    · exact init.isSome_means _ fun u hu => h u (List.mem_append_left _ hu)
    · refine rest.isSome_means _ fun u hu => ?_
      by_cases hin : u.name = x
      · simp [hin]
      · exact List.mem_cons_of_mem x (h u (by simp [Block.free, hu, hin]))

end

/-- In a script without free names every use means a binding. -/
theorem Code.isSome_means_allUses {c : Code} (h : BoundIn [] c) :
    ∀ u ∈ c.allUses, u.means.isSome = true :=
  c.isSome_means _ h

/-- In a script without free names every use denotes what it means exactly if no binding takes hold
of a use that it does not bind. -/
theorem Code.denotes_eq_means_iff {c : Code} (h : BoundIn [] c) :
    (∀ u ∈ c.allUses, u.denotes = u.means) ↔ c.NoCapture := by
  have hmeans := Code.isSome_means_allUses h
  have hkept := Code.kept_iff c [] ⟨[], []⟩
  have hfree : c.free = [] := List.eq_nil_iff_forall_not_mem.mpr fun u hu => by simpa using h u hu
  rw [hfree] at hkept
  simp only [List.not_mem_nil, false_implies, implies_true, and_true] at hkept
  rw [← hkept]
  constructor
  · intro hall u hu
    obtain ⟨b, hb⟩ := Option.isSome_iff_exists.mp (hmeans u hu)
    exact ⟨b, hb, by rw [hall u hu, hb]⟩
  · intro hall u hu
    obtain ⟨b, hmean, hdenote⟩ := hall u hu
    rw [hmean, hdenote]

end LiveLisp.Locals
