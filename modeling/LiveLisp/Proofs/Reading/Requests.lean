import LiveLisp.Proofs.Reading.Calls
/-!
# When lines are asked for

A read asks for a line only when it has come to the end of the one before.  To see this, let the
input fail where the line would come: then the read fails at the end of a line.
-/

namespace LiveLisp.Reading

open Fallible
open Readers (within)

/-! ## Reads before they settle -/

/-- A read without what it does at last about the rest of the line. -/
def Readers.begin (r : Readers) (prompt : String) : Reader Outcome := do
  match ← r.approach prompt with
  | .lineStart => return .lineStart
  | .streamEnd => return .streamEnd
  | .body => return .form (← r.form)

/-- What is done at last about the rest of the line: after a form it is passed over if it is blank,
and after a failure it is dropped. -/
def settle : EStateM.Result ReadError Cursor Outcome → EStateM.Result ReadError Cursor Outcome
  | .ok (.form f) c => .ok (.form f) (skipLineEnd c)
  | .ok outcome c => .ok outcome c
  | .error e c => .error e c.discardLine

/-- A read up to the place where it ends. -/
def unsettled (prompt : String) : Reader Outcome := fun c => (within c.steps).begin prompt c

section Begin

variable {c c' : Cursor} {prompt : String}

theorem Readers.Agree.begin {n : Nat} {r r' : Readers} (h : Readers.Agree n r r')
    (hr : ∀ {c c' found}, r.approach prompt c = .ok found c' → c'.size ≤ c.size)
    (hn : c.steps ≤ n) : r.begin prompt c = r'.begin prompt c := by
  unfold Cursor.steps at hn
  refine bind_congr_of_ok (h.approach prompt c (by omega)) fun found c₁ happroach => ?_
  have hle := hr happroach
  cases found with
  | lineStart => rfl
  | streamEnd => rfl
  | body => exact bind_congr_of_ok (h.form c₁ (by omega)) fun _ _ _ => rfl

theorem size_approach_le {fuel : Nat} {found : Approach}
    (h : approach prompt fuel c = .ok found c') : c'.size ≤ c.size :=
  ((onward_past.approach prompt fuel).of_ok h).size

theorem begin_of_le {fuel : Nat} (h : c.steps ≤ fuel) :
    (within fuel).begin prompt c = unsettled prompt c :=
  ((agree_of_le h).begin size_approach_le (Nat.le_refl _)).symm

/-- Whatever calls would do that are more than `n` deep, a read does not come to them. -/
theorem begin_iterate (r : Readers) {n : Nat} (h : c.steps ≤ n) :
    (Readers.unfold^[n] r).begin prompt c = unsettled prompt c := by
  rw [← begin_of_le h]
  exact ((agree_iterate n r).begin size_approach_le h).symm

theorem fetch_eq_error {e : ReadError} (h : fetch prompt c = .error e c') :
    c'.rest = c.rest ∧ ∃ reason, e = .input reason := by
  cases hended : c.ended with
  | true => simp [fetch_of_ended hended] at h
  | false =>
    cases hpending : c.pending with
    | nil => simp [fetch_of_nil hended hpending] at h
    | cons line more =>
      cases line with
      | text cs => simp [fetch_of_text hended hpending] at h
      | failed reason =>
        rw [fetch_of_failed hended hpending] at h
        obtain ⟨rfl, rfl⟩ := EStateM.Result.error.inj h
        exact ⟨rfl, reason, rfl⟩

/-- Going to the next form fails only where the input does. -/
theorem approach_eq_error {e : ReadError} (h : approach prompt c.steps c = .error e c') :
    c'.rest = [] ∧ ∃ reason, e = .input reason := by
  obtain ⟨c₁, -, harrives⟩ := arrives_approach prompt c.size_lt_steps
  rw [h] at harrives
  cases harrives with
  | failed hrest hfetch =>
    obtain ⟨hsame, hreason⟩ := fetch_eq_error hfetch
    exact ⟨hsame.trans hrest, hreason⟩

theorem discardLine_of_nil (h : c.rest = []) : c.discardLine = c := by
  cases c
  cases h
  rfl

theorem read_eq_settle (prompt : String) (c : Cursor) :
    read prompt c = settle (unsettled prompt c) := by
  unfold read unsettled Readers.begin
  cases happroach : approach prompt c.steps c with
  | error e c₁ =>
    rw [bind_of_error (x := (within c.steps).approach prompt) happroach]
    simp only [settle, discardLine_of_nil (approach_eq_error happroach).1]
  | ok found c₁ =>
    rw [bind_of_ok (x := (within c.steps).approach prompt) happroach]
    have hle := size_approach_le happroach
    cases found with
    | lineStart => rfl
    | streamEnd => rfl
    | body =>
      have hsteps : readForm c.steps c₁ = readForm c₁.steps c₁ :=
        readForm_of_le (by unfold Cursor.steps; omega)
      dsimp only
      cases hform : readForm c₁.steps c₁ with
      | ok f c₂ => rw [bind_of_ok (x := (within c.steps).form) (hsteps.trans hform)]; rfl
      | error e c₂ => rw [bind_of_error (x := (within c.steps).form) (hsteps.trans hform)]; rfl

/-- Nothing is left of the line on which a read failed. -/
theorem rest_of_read_error {e : ReadError} (h : read prompt c = .error e c') : c'.rest = [] := by
  rw [read_eq_settle] at h
  cases hrun : unsettled prompt c with
  | ok outcome c₁ => cases outcome <;> simp [hrun, settle] at h
  | error e₁ c₁ =>
    rw [hrun] at h
    obtain ⟨-, rfl⟩ := EStateM.Result.error.inj h
    rfl

end Begin

/-! ## Input that fails -/

/-- The same place, with the input to fail after the lines `front`. -/
def Cursor.stop (front : List Line) (reason : String) (c : Cursor) : Cursor :=
  { c with pending := front ++ [.failed reason] }

/-- Of the lines to come, `front` may still be asked for before the input fails in place of `back`;
`total` requests will have been made then. -/
structure Cursor.Allows (back : List Line) (total : Nat) (front : List Line) (c : Cursor) :
    Prop where
  pending : c.pending = front ++ back
  ended : c.ended = false
  prompts : c.prompts.length + front.length = total

theorem Cursor.Allows.advance {back front : List Line} {total : Nat} {c : Cursor}
    (h : c.Allows back total front) (n : Nat) : (c.advance n).Allows back total front :=
  ⟨h.pending, h.ended, h.prompts⟩

theorem Cursor.Allows.discardLine {back front : List Line} {total : Nat} {c : Cursor}
    (h : c.Allows back total front) : c.discardLine.Allows back total front :=
  ⟨h.pending, h.ended, h.prompts⟩

/-- What comes of reading where the input fails in place of `back`, beside what comes of it where
it does not: the same, or the failure, at the end of a line. -/
inductive Halted {α : Type} (back : List Line) (total : Nat) (reason : String) :
    EStateM.Result ReadError Cursor α → EStateM.Result ReadError Cursor α → Prop
  | ok {a : α} {c : Cursor} {front : List Line} (h : c.Allows back total front) :
    Halted back total reason (.ok a c) (.ok a (c.stop front reason))
  | error {e : ReadError} {c : Cursor} {front : List Line} (h : c.Allows back total front) :
    Halted back total reason (.error e c) (.error e (c.stop front reason))
  | asked {r : EStateM.Result ReadError Cursor α} {d : Cursor} (hrest : d.rest = []) :
    Halted back total reason r (.error (.input reason) d)

section Halted

variable {back front : List Line} {total : Nat} {c : Cursor} (reason : String)

theorem Halted.bind {α β : Type} {x : Reader α} {k : α → Reader β} {d : Cursor} {reason : String}
    (h : Halted back total reason (x c) (x d))
    (hk : ∀ a c' front, x c = .ok a c' → c'.Allows back total front →
      Halted back total reason (k a c') (k a (c'.stop front reason))) :
    Halted back total reason ((x >>= k) c) ((x >>= k) d) := by
  generalize hc : x c = r at h
  generalize hd : x d = r' at h
  cases h with
  | ok h =>
    rw [bind_of_ok hc, bind_of_ok hd]
    exact hk _ _ _ hc h
  | error h =>
    rw [bind_of_error hc, bind_of_error hd]
    exact .error h
  | asked hrest =>
    rw [bind_of_error hd]
    exact .asked hrest

theorem halted_fetch (prompt : String) (hrest : c.rest = []) (h : c.Allows back total front) :
    Halted back total reason (fetch prompt c) (fetch prompt (c.stop front reason)) := by
  have hended : (c.stop front reason).ended = false := h.ended
  cases front with
  | nil =>
    rw [fetch_of_failed hended (c := c.stop [] reason) rfl]
    exact .asked hrest
  | cons line front =>
    have hprompts := h.prompts
    rw [List.length_cons] at hprompts
    cases line with
    | failed reason' =>
      rw [fetch_of_failed h.ended h.pending, fetch_of_failed hended rfl]
      have hleft : Cursor.Allows back total front
          { c with prompts := c.prompts ++ [prompt], pending := front ++ back } := by
        refine ⟨rfl, h.ended, ?_⟩
        simp only [List.length_append, List.length_singleton]
        omega
      exact .error hleft
    | text cs =>
      rw [fetch_of_text h.ended h.pending, fetch_of_text hended rfl]
      have hleft : (c.atLine prompt cs (front ++ back)).Allows back total front := by
        refine ⟨rfl, h.ended, ?_⟩
        simp only [Cursor.atLine, List.length_append, List.length_singleton]
        omega
      exact .ok hleft

theorem halted_peek (h : c.Allows back total front) :
    Halted back total reason (peek c) (peek (c.stop front reason)) := by
  cases hrest : c.rest with
  | cons ch cs =>
    rw [peek_of_cons hrest, peek_of_cons (c := c.stop front reason) hrest]
    exact .ok h
  | nil =>
    rw [peek_of_nil hrest, peek_of_nil (c := c.stop front reason) hrest]
    have hfetch := halted_fetch reason continuationPrompt hrest h
    generalize fetch continuationPrompt c = r at hfetch ⊢
    generalize fetch continuationPrompt (c.stop front reason) = r' at hfetch ⊢
    cases hfetch with
    | @ok found c' front' h' => cases found <;> exact .ok h'
    | error h' => exact .error h'
    | asked hrest' => exact .asked hrest'

/-- A reader that comes to the lines that fail does so at the end of a line. -/
theorem Made.halted {α : Type} {ending : Bool} {x : Reader α} (hx : Made ending x)
    (h : c.Allows back total front) :
    Halted back total reason (x c) (x (c.stop front reason)) := by
  induction hx generalizing c front with
  | pure a => exact .ok h
  | throw e => exact .error h
  | peek => exact halted_peek reason h
  | skip n => exact .ok (h.advance n)
  | discardLine => exact .ok h.discardLine
  | currentPosition => exact .ok h
  | takeUntil stop => exact .ok (h.advance _)
  | atDiscard =>
    unfold Reading.atDiscard
    simp only [show (c.stop front reason).rest = c.rest from rfl]
    split <;> exact .ok h
  | bind _ _ ihx ihk => exact (ihx h).bind fun a c' front' _ h' => ihk a h'
  | weaken _ ih => exact ih h
  | before _ _ _ ihx ihk => exact (ihx h).bind fun a c' front' _ h' => ihk a h'

theorem halted_approach (prompt : String) (fuel : Nat) (h : c.Allows back total front) :
    Halted back total reason (approach prompt fuel c)
      (approach prompt fuel (c.stop front reason)) := by
  induction fuel generalizing c front with
  | zero => exact .ok h
  | succ fuel ih =>
    cases hrest : c.rest with
    | nil =>
      rw [approach_of_nil _ _ hrest, approach_of_nil _ _ (c := c.stop front reason) hrest]
      have hfetch := halted_fetch reason prompt hrest h
      generalize fetch prompt c = r at hfetch ⊢
      generalize fetch prompt (c.stop front reason) = r' at hfetch ⊢
      cases hfetch with
      | @ok found c' front' h' =>
        cases found with
        | true => exact ih h'
        | false => exact .ok h'
      | error h' => exact .error h'
      | asked hrest' => exact .asked hrest'
    | cons ch cs =>
      rw [approach_of_cons _ _ hrest, approach_of_cons _ _ (c := c.stop front reason) hrest]
      split_ifs
      · exact .ok (h.advance 1)
      · exact .ok h.discardLine
      · exact ih (h.advance 1)
      · exact .ok h

theorem halted_begin (prompt : String) (fuel : Nat) (h : c.Allows back total front) :
    Halted back total reason ((within fuel).begin prompt c)
      ((within fuel).begin prompt (c.stop front reason)) := by
  refine (halted_approach reason prompt fuel h).bind fun found c' front' _ h' => ?_
  cases found with
  | lineStart => exact .ok h'
  | streamEnd => exact .ok h'
  | body => exact ((madeAll fuel).form.bind fun _ => .pure _).halted reason h'

end Halted

/-! ## Requests -/

/-- What is left of the line is passed over in the same line. -/
theorem skipLineEnd_same (c : Cursor) :
    (skipLineEnd c).line = c.line ∧ (skipLineEnd c).prompts = c.prompts := by
  unfold skipLineEnd
  dsimp only
  split <;> exact ⟨rfl, rfl⟩

/-- If a read asks for more lines than `front`, it comes to the end of a line before: there it
fails, if the input does. -/
theorem asks_at_line_end {prompt : String} {c : Cursor} {front back : List Line}
    (hpending : c.pending = front ++ back)
    (hasked : c.prompts.length + front.length < (finalState (read prompt) c).prompts.length)
    (reason : String) :
    ∃ d, unsettled prompt (c.stop front reason) = .error (.input reason) d ∧ d.rest = [] := by
  have hended : c.ended = false := by
    rw [← Bool.not_eq_true]
    intro hended
    have hquiet := onward_quiet.read prompt c hended
    rw [hquiet.2.2] at hasked
    omega
  have hallows : c.Allows back (c.prompts.length + front.length) front := ⟨hpending, hended, rfl⟩
  have hhalted := halted_begin reason prompt (c.steps + (c.stop front reason).steps) hallows
  rw [begin_of_le (by omega), begin_of_le (by omega)] at hhalted
  unfold finalState at hasked
  rw [read_eq_settle] at hasked
  generalize unsettled prompt c = r at hasked hhalted
  generalize unsettled prompt (c.stop front reason) = r' at hhalted ⊢
  cases hhalted with
  | @ok outcome c' front' h =>
    have hprompts := h.prompts
    have hsame := congrArg List.length (skipLineEnd_same c').2
    cases outcome <;> simp only [settle] at hasked <;> omega
  | @error e c' front' h =>
    have hprompts := h.prompts
    simp only [settle, Cursor.discardLine] at hasked
    omega
  | asked hrest => exact ⟨_, rfl, hrest⟩

end LiveLisp.Reading
