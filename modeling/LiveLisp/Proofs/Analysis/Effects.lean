import LiveLisp.Analysis.Expression
import LiveLisp.Proofs.Fallible
/-!
# Steps of an analysis

Apart from its result an analysis defines names, needs namespaces to be known, and refuses what is
malformed.  It ends at the first need that is not met and at the first refusal, and what was defined
before that stays.
-/

namespace LiveLisp

theorem Table.put_of_lookup {κ α : Type} [DecidableEq κ] {key : κ} {value : α}
    {es : List (κ × α)} (h : lookup key es = some value) : put key value es = es := by
  induction es with
  | nil => simp [lookup] at h
  | cons e rest ih =>
    obtain ⟨k, v⟩ := e
    rw [lookup] at h
    rw [put]
    split at h
    · next hk => rw [if_pos hk, Option.some.inj h]
    · next hk => rw [if_neg hk, ih h]

namespace Analysis

open Fallible
open Munge (munge)
open Text (Position)

/-! ## Definitions of a namespace -/

namespace Env

/-- The names defined in a namespace. -/
def defs (env : Env) (ns : String) : List String := ((env.namespace? ns).getD (.fresh ns)).defs

/-- The environment with more names defined in a namespace. -/
def defineAll (env : Env) (ns : String) (names : List String) : Env :=
  names.foldl (fun env name => env.define ns name) env

/-- Whether symbols of the namespace `other` can be used in `ns`. -/
def reaches (env : Env) (ns other : String) : Bool :=
  other = "js" || (((env.namespace? ns).getD (.fresh ns)).aliases.get? other).isSome ||
    env.contains other || isScriptLibrary other

variable {env : Env} {ns : String}

theorem namespace?_define (env : Env) (ns name other : String) :
    (env.define ns name).namespace? other =
      if ns = other then
        some { (env.namespace? ns).getD (.fresh ns) with defs := insertNew (env.defs ns) name }
      else env.namespace? other :=
  Table.get?_insert ..

theorem defs_define (env : Env) (ns name : String) :
    (env.define ns name).defs ns = insertNew (env.defs ns) name := by
  rw [defs, namespace?_define, if_pos rfl]
  rfl

/-- Making a namespace known says nothing new about it. -/
theorem getD_namespace?_register (env : Env) (ns : String) :
    ((env.register ns).namespace? ns).getD (.fresh ns) = (env.namespace? ns).getD (.fresh ns) := by
  rw [register]
  split
  · rfl
  · next hunknown =>
    have hnone : env.namespace? ns = none := by
      simpa [contains, Table.contains, namespace?] using hunknown
    rw [hnone, namespace?, Table.get?_insert, if_pos rfl]
    rfl

theorem contains_define (h : env.contains ns = true) (name other : String) :
    (env.define ns name).contains other = env.contains other := by
  rw [contains, define, update, Table.contains_insert]
  by_cases hother : ns = other
  · rw [← hother]
    simp only [decide_true, Bool.true_or]
    exact h.symm
  · simp [hother, contains]

theorem reaches_define (h : env.contains ns = true) (name other : String) :
    (env.define ns name).reaches ns other = env.reaches ns other := by
  rw [reaches, contains_define h, namespace?_define, if_pos rfl]
  rfl

theorem define_of_mem {name : String} (h : env.contains ns = true) (hname : name ∈ env.defs ns) :
    env.define ns name = env := by
  obtain ⟨info, hinfo⟩ : ∃ info, env.namespace? ns = some info :=
    Option.isSome_iff_exists.mp h
  have hdefs : insertNew info.defs name = info.defs := by
    rw [defs, hinfo] at hname
    exact if_pos hname
  rw [define, update, hinfo]
  simp only [Option.getD_some, hdefs]
  exact congrArg Env.mk (congrArg Table.mk (Table.put_of_lookup hinfo))

theorem defineAll_cons (env : Env) (ns name : String) (names : List String) :
    env.defineAll ns (name :: names) = (env.define ns name).defineAll ns names := rfl

theorem defineAll_append (env : Env) (ns : String) (names more : List String) :
    env.defineAll ns (names ++ more) = (env.defineAll ns names).defineAll ns more :=
  List.foldl_append ..

theorem contains_defineAll (h : env.contains ns = true) (names : List String) (other : String) :
    (env.defineAll ns names).contains other = env.contains other := by
  induction names generalizing env with
  | nil => rfl
  | cons name names ih =>
    have hknown : (env.define ns name).contains ns = true := (contains_define h name ns).trans h
    rw [defineAll_cons, ih hknown, contains_define h]

theorem reaches_defineAll (h : env.contains ns = true) (names : List String) (other : String) :
    (env.defineAll ns names).reaches ns other = env.reaches ns other := by
  induction names generalizing env with
  | nil => rfl
  | cons name names ih =>
    have hknown : (env.define ns name).contains ns = true := (contains_define h name ns).trans h
    rw [defineAll_cons, ih hknown, reaches_define h]

theorem mem_defs_defineAll {names : List String} {name : String} :
    name ∈ (env.defineAll ns names).defs ns ↔ name ∈ env.defs ns ∨ name ∈ names := by
  induction names generalizing env with
  | nil => simp [defineAll]
  | cons first names ih =>
    rw [defineAll_cons, ih, defs_define, mem_insertNew, List.mem_cons, or_assoc]

/-- Definitions change nothing exactly if they are there already. -/
theorem defineAll_eq_self_iff (h : env.contains ns = true) {names : List String} :
    env.defineAll ns names = env ↔ ∀ name ∈ names, name ∈ env.defs ns := by
  constructor
  · intro hsame name hname
    rw [← hsame]
    exact mem_defs_defineAll.mpr (.inr hname)
  · intro hall
    induction names with
    | nil => rfl
    | cons name names ih =>
      rw [defineAll_cons, define_of_mem h (hall name List.mem_cons_self)]
      exact ih fun other hother => hall other (List.mem_cons_of_mem _ hother)

end Env

/-! ## Steps -/

/-- What an analysis does as far as the environment is concerned. -/
inductive Step where
  | define (name : String)
  | need (ns : String)
  | refuse
  deriving DecidableEq, Repr

/-- Whether the analysis in `ns` ends with this step. -/
def Step.fails (env : Env) (ns : String) : Step → Bool
  | .define _ => false
  | .need other => !env.reaches ns other
  | .refuse => true

def Step.name? : Step → Option String
  | .define name => some name
  | .need _ | .refuse => none

/-- The names that are defined before the first step that fails. -/
def begun (env : Env) (ns : String) (steps : List Step) : List String :=
  (steps.takeWhile fun step => !step.fails env ns).filterMap Step.name?

theorem Step.fails_defineAll {env : Env} {ns : String} (h : env.contains ns = true)
    (names : List String) (step : Step) :
    step.fails (env.defineAll ns names) ns = step.fails env ns := by
  cases step with
  | define | refuse => rfl
  | need other => rw [fails, fails, Env.reaches_defineAll h]

section Begun

variable {env env' : Env} {ns : String} {steps : List Step}

theorem begun_cons (step : Step) (steps : List Step) :
    begun env ns (step :: steps) =
      if step.fails env ns then [] else step.name?.toList ++ begun env ns steps := by
  rw [begun, begun, List.takeWhile_cons]
  cases step.fails env ns with
  | true => rfl
  | false => cases step <;> rfl

theorem begun_congr (h : ∀ step : Step, step.fails env' ns = step.fails env ns) :
    begun env' ns steps = begun env ns steps := by
  induction steps with
  | nil => rfl
  | cons step steps ih => rw [begun_cons, begun_cons, h, ih]

theorem begun_append_of_all (more : List Step) (h : ∀ step ∈ steps, step.fails env ns = false) :
    begun env ns (steps ++ more) = begun env ns steps ++ begun env ns more := by
  induction steps with
  | nil => rfl
  | cons step steps ih =>
    have hfirst : ¬step.fails env ns = true := by
      rw [h step List.mem_cons_self]
      exact Bool.false_ne_true
    rw [List.cons_append, begun_cons, begun_cons, if_neg hfirst, if_neg hfirst,
      ih fun other hother => h other (List.mem_cons_of_mem _ hother), List.append_assoc]

theorem begun_append_of_fails (more : List Step)
    (h : ∃ step ∈ steps, step.fails env ns = true) :
    begun env ns (steps ++ more) = begun env ns steps := by
  obtain ⟨step, hstep, hfails⟩ := h
  induction steps with
  | nil => contradiction
  | cons first steps ih =>
    rw [List.cons_append, begun_cons, begun_cons]
    by_cases hfirst : first.fails env ns = true
    · rw [if_pos hfirst, if_pos hfirst]
    · have hrest : step ∈ steps := by
        rcases List.mem_cons.mp hstep with rfl | hrest
        · exact absurd hfails hfirst
        · exact hrest
      rw [if_neg hfirst, if_neg hfirst, ih hrest]

end Begun

/-! ## Computations that take steps -/

section Takes

variable {α β : Type} {ns : String} {x : Analyzing α} {steps more : List Step} {P : α → Prop}
  {Q : β → Prop}

/-- What comes of steps: a result in `P`, or a failure. -/
inductive Taken (ns : String) (env : Env) (steps : List Step) (P : α → Prop) :
    EStateM.Result CompileError Env α → Prop
  | ok {a : α} {env' : Env} (hall : ∀ step ∈ steps, step.fails env ns = false)
    (henv : env' = env.defineAll ns (begun env ns steps)) (ha : P a) :
    Taken ns env steps P (.ok a env')
  | failed {e : CompileError} {env' : Env} (hfails : ∃ step ∈ steps, step.fails env ns = true)
    (henv : env' = env.defineAll ns (begun env ns steps)) : Taken ns env steps P (.error e env')

/-- The computation takes these steps wherever `ns` is known. -/
def Takes (ns : String) (x : Analyzing α) (steps : List Step) (P : α → Prop) : Prop :=
  ∀ env, env.contains ns = true → Taken ns env steps P (x env)

theorem takes_pure {a : α} (ha : P a) : Takes ns (pure a) [] P :=
  fun _ _ => .ok (by simp) rfl ha

theorem takes_throw (e : CompileError) : Takes ns (throw e) [.refuse] P :=
  fun _ _ => .failed ⟨.refuse, List.mem_singleton_self _, rfl⟩ rfl

theorem takes_define (name : String) :
    Takes ns (modify fun env => env.define ns name) [.define name] fun _ => True :=
  fun _ _ => .ok (by simp [Step.fails]) rfl trivial

theorem Takes.bind (hx : Takes ns x steps P) {k : α → Analyzing β}
    (hk : ∀ a, P a → Takes ns (k a) more Q) : Takes ns (x >>= k) (steps ++ more) Q := by
  intro env hknown
  have hfirst := hx env hknown
  cases hrun : x env with
  | error e env₁ =>
    rw [hrun] at hfirst
    rw [bind_of_error hrun]
    cases hfirst with
    | failed hfails henv =>
      obtain ⟨step, hstep, hf⟩ := hfails
      refine .failed ⟨step, List.mem_append_left _ hstep, hf⟩ ?_
      rw [henv, begun_append_of_fails more ⟨step, hstep, hf⟩]
  | ok a env₁ =>
    rw [hrun] at hfirst
    rw [bind_of_ok hrun]
    cases hfirst with
    | ok hall henv ha =>
      subst henv
      have hknown₁ := (Env.contains_defineAll hknown (begun env ns steps) ns).trans hknown
      -- what was defined so far does not change which steps fail
      have hsame : ∀ step : Step, step.fails (env.defineAll ns (begun env ns steps)) ns =
          step.fails env ns := Step.fails_defineAll hknown _
      have hbegun : begun (env.defineAll ns (begun env ns steps)) ns more = begun env ns more :=
        begun_congr hsame
      have henv : (env.defineAll ns (begun env ns steps)).defineAll ns
          (begun (env.defineAll ns (begun env ns steps)) ns more) =
          env.defineAll ns (begun env ns (steps ++ more)) := by
        rw [hbegun, begun_append_of_all more hall, Env.defineAll_append]
      have hsecond := hk a ha _ hknown₁
      generalize k a (env.defineAll ns (begun env ns steps)) = r at hsecond
      cases hsecond with
      | ok hall' henv' hb =>
        refine .ok ?_ (henv'.trans henv) hb
        intro step hstep
        rcases List.mem_append.mp hstep with hstep | hstep
        · exact hall step hstep
        · rw [← hsame]
          exact hall' step hstep
      | failed hfails henv' =>
        obtain ⟨step, hstep, hf⟩ := hfails
        rw [hsame] at hf
        exact .failed ⟨step, List.mem_append_right _ hstep, hf⟩ (henv'.trans henv)

/-- The result is given in another form at the end. -/
theorem Takes.map (hx : Takes ns x steps P) {f : α → β} (hf : ∀ a, P a → Q (f a)) :
    Takes ns (x >>= fun a => pure (f a)) steps Q := by
  rw [← List.append_nil steps]
  exact hx.bind fun a ha => takes_pure (hf a ha)

/-- The steps that go with an answer, or a refusal. -/
def accepting (answer : Option α) (steps : α → List Step) : List Step :=
  answer.elim [.refuse] steps

/-- The computation gives this answer, or fails if there is none, and leaves the environment
alone. -/
def Answers (x : Analyzing α) (answer : Option α) : Prop :=
  ∀ env, (∀ a, answer = some a → x env = .ok a env) ∧
    (answer = none → ∃ e, x env = .error e env)

theorem answers_pure (a : α) : Answers (pure a) (some a) := by
  intro env
  refine ⟨?_, by simp⟩
  rintro b ⟨⟩
  rfl

theorem answers_throw (e : CompileError) : Answers (throw e : Analyzing α) none :=
  fun _ => ⟨by simp, fun _ => ⟨e, rfl⟩⟩

theorem Answers.bind {answer : Option α} (hx : Answers x answer) {k : α → Analyzing β}
    {next : α → Option β} (hk : ∀ a, Answers (k a) (next a)) :
    Answers (x >>= k) (answer.bind next) := by
  intro env
  cases answer with
  | none =>
    obtain ⟨e, he⟩ := (hx env).2 rfl
    exact ⟨by simp, fun _ => ⟨e, bind_of_error he⟩⟩
  | some a =>
    rw [bind_of_ok ((hx env).1 a rfl)]
    exact hk a env

theorem Answers.takes {answer : Option α} (hx : Answers x answer) {k : α → Analyzing β}
    {next : α → List Step} (hk : ∀ a, answer = some a → Takes ns (k a) (next a) Q) :
    Takes ns (x >>= k) (accepting answer next) Q := by
  intro env hknown
  cases answer with
  | none =>
    obtain ⟨e, he⟩ := (hx env).2 rfl
    rw [bind_of_error he]
    exact takes_throw e env hknown
  | some a =>
    rw [bind_of_ok ((hx env).1 a rfl)]
    exact hk a rfl env hknown

end Takes

end Analysis

end LiveLisp
