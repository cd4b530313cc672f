import LiveLisp.Proofs.Session.Presence
import LiveLisp.Proofs.Session.Sustained
/-!
# Traces of a run

Seen from outside a turn of the prompt is the form that was read, if one was, and the calls that the
backend got.  The points of a run are told by the turns that were taken up to them: they lie at and
between the prompts, between two forms of a file that is being loaded, and before and after.
-/

namespace LiveLisp.Session

open Backend (Result)
open Fallible

variable {α β : Type}

/-! ## Turns from outside -/

/-- A turn of the prompt: the form that was read, and the calls that were made. -/
structure Deal where
  form? : Option Form
  calls : List Exchange

/-- The form that is read next. -/
def nextForm? (s : Session β) : Option Form :=
  match Reading.read s.state.prompt s.input with
  | .ok (.form form) _ => some form
  | _ => none

/-- The turn that leads from `s` to `s'`. -/
def dealt (s s' : Session β) : Deal := ⟨nextForm? s, s'.exchanges.drop s.exchanges.length⟩

theorem nextForm?_of_read {s : Session β} {form : Form} {input : Reading.Cursor}
    (h : Reading.read s.state.prompt s.input = .ok (.form form) input) :
    nextForm? s = some form := by
  simp only [nextForm?, h]

/-- A turn deals with the form that was read; without one, or asked to quit, it does nothing but
read and print. -/
theorem after_turn_cases (c : Setting β) (s : Session β) :
    ((∀ form, nextForm? s = some form → isQuit form = true) ∧
        ∃ input, Unmoved { s with input := input } (after (turn c builtins) s)) ∨
      ∃ form input, Reading.read s.state.prompt s.input = .ok (.form form) input ∧
        isQuit form = false ∧
        Unmoved (after (dispatch c builtins form) { s with input := input })
          (after (turn c builtins) s) := by
  have hrun := advance_eq c builtins s
  have hturn := unmoved_turn c builtins s
  -- what is not dealt with is not moved by the turn if it is not moved before the flush
  have hidle : ∀ input, Unmoved { s with input := input } (after (advance c builtins) s) →
      ∃ input, Unmoved { s with input := input } (after (turn c builtins) s) :=
    fun input hmoved => ⟨input, displays_unmoved.trans hmoved hturn⟩
  cases hread : Reading.read s.state.prompt s.input with
  | error e input =>
    rw [hread] at hrun
    refine .inl ⟨by simp [nextForm?, hread], hidle input ?_⟩
    cases e with
    | input reason =>
      rw [after_of_error hrun]
      exact displays_unmoved.refl _
    | _ =>
      unfold after
      rw [hrun]
      exact displays_unmoved.bind (displays_unmoved.printText _)
        (fun _ => displays_unmoved.pure (none : Option Exit)) _
  | ok outcome input =>
    rw [hread] at hrun
    cases outcome with
    | lineStart | streamEnd =>
      refine .inl ⟨by simp [nextForm?, hread], hidle input ?_⟩
      rw [after_of_ok hrun]
      exact displays_unmoved.refl _
    | form form =>
      dsimp only at hrun
      by_cases hquit : isQuit form = true
      · rw [if_pos hquit] at hrun
        refine .inl ⟨?_, hidle input ?_⟩
        · intro form' hform'
          rw [nextForm?_of_read hread] at hform'
          rwa [← Option.some.inj hform']
        · rw [after_of_ok hrun]
          exact displays_unmoved.refl _
      · rw [if_neg hquit] at hrun
        refine .inr ⟨form, input, rfl, by simpa using hquit, ?_⟩
        rw [← after_bind_pure (dispatch c builtins form) fun _ => (none : Option Exit)]
        simp only [after, hrun] at hturn ⊢
        exact hturn

/-- The run that began at `s₀` stands at the prompt in `s` after these turns, the last one first. -/
inductive Traced (c : Setting β) (lines : List Reading.Line) (s₀ : Session β) :
    List Deal → Nat → Session β → Prop
  | first {s s' : Session β} (h : opening c s₀ = .ok () s)
    (hflush : flush { s with input := .ofLines lines } = .ok () s') :
    Traced c lines s₀ [] ((Reading.Cursor.ofLines lines).size + 2) s'
  | next {deals : List Deal} {fuel : Nat} {s s' : Session β}
    (h : Traced c lines s₀ deals (fuel + 1) s) (hturn : turn c builtins s = .ok none s') :
    Traced c lines s₀ (dealt s s' :: deals) fuel s'

/-- A session that a run comes by, after these turns, the last one first. -/
inductive Point (c : Setting β) (lines : List Reading.Line) (s₀ : Session β) :
    List Deal → Session β → Prop
  | start : Point c lines s₀ [] s₀
  | opened : Point c lines s₀ [] (after (opening c) s₀)
  | flushed {s : Session β} (h : opening c s₀ = .ok () s) :
    Point c lines s₀ [] (after flush { s with input := .ofLines lines })
  | prompt {deals : List Deal} {fuel : Nat} {s : Session β} (h : Traced c lines s₀ deals fuel s) :
    Point c lines s₀ deals s
  | inFile {deals : List Deal} {fuel : Nat} {s s' : Session β} {form : Form}
    {input : Reading.Cursor} {path : Files.Pathname} {forms : List Form}
    (h : Traced c lines s₀ deals (fuel + 1) s)
    (hread : Reading.read s.state.prompt s.input = .ok (.form form) input)
    (hheaded : form.isHeadedBy "load-file" = true) (hpath : fileArgument form = .ok path)
    (hforms : sourceForms s.world.files path = .ok forms)
    (hin : InFile c path.text forms { s with input := input } s') : Point c lines s₀ deals s'
  | turned {deals : List Deal} {fuel : Nat} {s : Session β}
    (h : Traced c lines s₀ deals (fuel + 1) s) :
    Point c lines s₀ (dealt s (after (turn c builtins) s) :: deals) (after (turn c builtins) s)
  | closed {deals : List Deal} (h : Point c lines s₀ deals (after (start c builtins lines) s₀)) :
    Point c lines s₀ deals (after (runSession c builtins lines) s₀)

section Run

variable {c : Setting β} {lines : List Reading.Line} {s₀ s : Session β} {deals : List Deal}
  {fuel : Nat}

theorem Traced.atPrompt (h : Traced c lines s₀ deals fuel s) :
    AtPrompt c builtins lines s₀ fuel s := by
  induction h with
  | first h hflush => exact .first h hflush
  | next _ hturn ih => exact ih.next hturn

theorem Traced.point_after_loop (h : Traced c lines s₀ deals fuel s) :
    ∃ deals', Point c lines s₀ deals' (after (loop c builtins fuel) s) := by
  induction fuel generalizing s deals with
  | zero => exact ⟨deals, .prompt h⟩
  | succ fuel ih =>
    have hpoint := Point.turned h
    rw [loop_succ]
    cases hturn : turn c builtins s with
    | error e s' =>
      rw [after_of_error hturn] at hpoint
      rw [after_of_error (bind_of_error hturn)]
      exact ⟨_, hpoint⟩
    | ok exit s' =>
      rw [after_of_ok hturn] at hpoint
      unfold after
      rw [bind_of_ok hturn]
      cases exit with
      | some exit => exact ⟨_, hpoint⟩
      | none => exact ih (h.next hturn)

/-- The end of a run is a point of it. -/
theorem exists_point_runSession (c : Setting β) (lines : List Reading.Line) (s₀ : Session β) :
    ∃ deals, Point c lines s₀ deals (after (runSession c builtins lines) s₀) := by
  obtain ⟨deals, hpoint⟩ : ∃ deals,
      Point c lines s₀ deals (after (Session.start c builtins lines) s₀) := by
    cases hopening : opening c s₀ with
    | error e s =>
      have hrun : Session.start c builtins lines s₀ = .error e s := by
        rw [start_eq]
        exact bind_of_error hopening
      rw [after_of_error hrun, ← after_of_error hopening]
      exact ⟨[], .opened⟩
    | ok u s =>
      cases hflush : flush { s with input := .ofLines lines } with
      | error e s' =>
        rw [after_of_error (start_of_refused hopening hflush), ← after_of_error hflush]
        exact ⟨[], .flushed hopening⟩
      | ok u s' =>
        have hfirst : Traced c lines s₀ [] _ s' := .first hopening hflush
        have hstart := hfirst.atPrompt.start_eq
        unfold after
        rw [hstart]
        exact hfirst.point_after_loop
  exact ⟨deals, .closed hpoint⟩

end Run

/-! ## Evaluations -/

theorem background_state : Background fun s s' : Session β => s'.state = s.state where
  refl _ := rfl
  trans h h' := h'.trans h
  world _ _ := rfl
  exchange _ _ _ := rfl
  env _ _ := rfl
  loaded _ _ := rfl
  tracer _ _ := rfl
  output _ := rfl
  input _ _ := rfl

/-- No namespace is forgotten. -/
theorem sustained_grows (c : Setting β) :
    Sustained c fun s s' : Session β => s.env.Grows s'.env := by
  have hquiet : Quiet fun s s' : Session β => s.env.Grows s'.env :=
    { refl := fun s => .refl s.env
      trans := fun h h' => h.trans h'
      world := fun s _ => .refl s.env
      exchange := fun s _ _ => .refl s.env
      tracer := fun s _ => .refl s.env
      output := fun s => .refl s.env
      input := fun s _ => .refl s.env }
  have hloads : Loads fun α (x : Run β α) => Keeps (fun s s' => s.env.Grows s'.env) x :=
    { toComposes := hquiet.composes
      loaded := fun _ s => .refl s.env }
  exact
    { toQuiet := hquiet
      learn := fun _ _ h => h
      state := fun s _ => .refl s.env
      load := hloads.loadNamespace c }

theorem isHeadedBy_apply {wrap : Wrap} (h : wrap ≠ .identity) (form : Form) :
    (wrap.apply form).isHeadedBy "ns" = false := by
  cases wrap with
  | identity => contradiction
  | printOnly =>
    change (Symbol.ofText "pr-str").isPlain "ns" = false
    decide
  | record =>
    change (Symbol.ofText "try").isPlain "ns" = false
    decide

/-- What comes of sending a fragment. -/
inductive Sent (file : String) (line : Nat) (code : String) (s : Session β) :
    EStateM.Result SessionError (Session β) Result → Prop
  | lost {f : Backend.Failure} {s' : Session β}
    (hlog : s'.exchanges = s.exchanges ++ [.evaluate file line code (.error f)])
    (hstate : s'.state = s.state) : Sent file line code s (.error (.backend f) s')
  | answered {result : Result} {s' : Session β}
    (hlog : s'.exchanges = s.exchanges ++ [.evaluate file line code (.ok result)])
    (hstate : s'.state = s.state) : Sent file line code s (.ok result s')

theorem sent_send (c : Setting β) (file : String) (line : Nat) (code : String) (s : Session β) :
    Sent file line code s (send c file line code s) := by
  unfold send exchange
  cases c.backend.evaluate file line code s.world with
  | ok result w => exact .answered rfl rfl
  | error f w => exact .lost rfl rfl

/-! ## Special forms -/

/-- The names that head the built-in special forms. -/
def specialNames : List String :=
  ["in-ns", "require", "require-macros", "load-file", "load-namespace"]

def isSpecial (form : Form) : Bool := specialNames.any form.isHeadedBy

theorem handler?_builtins_eq_none_iff {form : Form} :
    handler? (β := β) builtins form = none ↔ isSpecial form = false := by
  rw [Option.eq_none_iff_forall_ne_some, ← Bool.not_eq_true, isSpecial, List.any_eq_true]
  constructor
  · rintro h ⟨name, hmem, hheaded⟩
    obtain ⟨handler, hget⟩ : ∃ handler, (builtins (β := β)).get? name = some handler := by
      simp only [specialNames, List.mem_cons, List.not_mem_nil, or_false] at hmem
      rcases hmem with rfl | rfl | rfl | rfl | rfl <;> exact ⟨_, rfl⟩
    exact h handler (handler?_eq_some_iff.mpr ⟨name, hheaded, hget⟩)
  · intro h handler hhandler
    obtain ⟨name, hheaded, hget⟩ := handler?_eq_some_iff.mp hhandler
    have hmem := List.mem_map_of_mem (f := Prod.fst) (Table.mem_entries_of_get? hget)
    exact h ⟨name, hmem, hheaded⟩

end LiveLisp.Session
