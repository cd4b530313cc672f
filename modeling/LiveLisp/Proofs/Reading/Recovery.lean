import LiveLisp.Proofs.Reading.Requests
import LiveLisp.Proofs.Reading.Shift
/-!
# After a failure

A read that fails drops what is left of the line on which it failed.  Nothing else of what it was
doing is kept, so that the reads after it come to the same as the first reads of the lines that are
left, further down.
-/

namespace LiveLisp.Reading

open Fallible

/-! ## Before a line -/

/-- Before the lines `more`, after `n` lines. -/
structure Cursor.Awaits (more : List Line) (n : Nat) (c : Cursor) : Prop where
  rest : c.rest = []
  pending : c.pending = more
  ended : c.ended = false
  line : c.line = n

theorem Cursor.Awaits.size {more : List Line} {n : Nat} {c : Cursor} (h : c.Awaits more n) :
    c.size = pendingSize more := by
  simp [Cursor.size, h.rest, h.pending]

/-- Nothing is left, whether or not the input has been asked for more. -/
structure Cursor.Spent (c : Cursor) : Prop where
  rest : c.rest = []
  pending : c.pending = []

/-- All that a read can tell about the two places is the same. -/
inductive Cursor.Like : Cursor → Cursor → Prop
  | same (c : Cursor) : Like c c
  | awaits {more : List Line} {n : Nat} {c d : Cursor} (hc : c.Awaits more n)
    (hd : d.Awaits more n) (hprompts : c.prompts = d.prompts) : Like c d
  | spent {c d : Cursor} (hc : c.Spent) (hd : d.Spent) : Like c d

section Like

variable {c d : Cursor}

theorem Cursor.Spent.read (h : c.Spent) (prompt : String) :
    ∃ c', read prompt c = .ok .streamEnd c' ∧ c'.Spent := by
  cases hended : c.ended with
  | true => exact ⟨c, read_of_atEnd prompt ⟨hended, h.rest⟩, h⟩
  | false =>
    have hcome := approach_of_nil prompt c.size h.rest
    rw [fetch_of_nil hended h.pending] at hcome
    rw [read_eq prompt (Nat.lt_succ_self _), bind_of_ok hcome]
    exact ⟨_, rfl, h.rest, h.pending⟩

/-- The results of two reads that cannot be told apart. -/
inductive Twin : EStateM.Result ReadError Cursor Outcome →
    EStateM.Result ReadError Cursor Outcome → Prop
  | ok {outcome : Outcome} {c d : Cursor} (h : c.Like d) : Twin (.ok outcome c) (.ok outcome d)
  | error {e : ReadError} {c d : Cursor} (h : c.Like d) : Twin (.error e c) (.error e d)

/-- Before a line it does not matter how long the line before it was. -/
theorem Cursor.Awaits.read {more : List Line} {n : Nat} (hc : c.Awaits more n)
    (hd : d.Awaits more n) (hprompts : c.prompts = d.prompts) (prompt : String) :
    Twin (read prompt c) (read prompt d) := by
  have hcome := approach_of_nil prompt c.size hc.rest
  have hcome' := approach_of_nil prompt d.size hd.rest
  rw [read_eq prompt (Nat.lt_succ_self _), read_eq prompt (Nat.lt_succ_self _)]
  cases more with
  | nil =>
    rw [fetch_of_nil hc.ended hc.pending] at hcome
    rw [fetch_of_nil hd.ended hd.pending] at hcome'
    rw [bind_of_ok hcome, bind_of_ok hcome']
    exact .ok (.spent ⟨hc.rest, hc.pending⟩ ⟨hd.rest, hd.pending⟩)
  | cons line more =>
    cases line with
    | failed reason =>
      rw [fetch_of_failed hc.ended hc.pending] at hcome
      rw [fetch_of_failed hd.ended hd.pending] at hcome'
      rw [bind_of_error hcome, bind_of_error hcome']
      exact .error (.awaits ⟨hc.rest, rfl, hc.ended, hc.line⟩ ⟨hd.rest, rfl, hd.ended, hd.line⟩
        (congrArg (· ++ [prompt]) hprompts))
    | text cs =>
      -- The line is the same, and with it the whole place.
      have hline : c.atLine prompt cs more = d.atLine prompt cs more := by
        simp [Cursor.atLine, hprompts, hc.line, hd.line, hc.ended, hd.ended]
      rw [fetch_of_text hc.ended hc.pending, hline, hc.size, ← hd.size] at hcome
      rw [fetch_of_text hd.ended hd.pending] at hcome'
      rw [hc.size, ← hd.size, bind_congr_of_ok (hcome.trans hcome'.symm) fun _ _ _ => rfl]
      cases (approach prompt (d.size + 1) >>= enter) d with
      | ok outcome c' => exact .ok (.same c')
      | error e c' => exact .error (.same c')

theorem Cursor.Like.read (h : c.Like d) (prompt : String) :
    Twin (read prompt c) (read prompt d) := by
  cases h with
  | same =>
    cases Reading.read prompt c with
    | ok outcome c' => exact .ok (.same c')
    | error e c' => exact .error (.same c')
  | awaits hc hd hprompts => exact hc.read hd hprompts prompt
  | spent hc hd =>
    obtain ⟨c', hreadc, hc'⟩ := hc.read prompt
    obtain ⟨d', hreadd, hd'⟩ := hd.read prompt
    rw [hreadc, hreadd]
    exact .ok (.spent hc' hd')

/-- Places that cannot be told apart give the same reads. -/
theorem Cursor.Like.outcomes (h : c.Like d) (prompts : List String) :
    c.outcomes prompts = d.outcomes prompts := by
  induction prompts generalizing c d with
  | nil => rfl
  | cons prompt prompts ih =>
    have hread := h.read prompt
    rw [Cursor.outcomes, Cursor.outcomes]
    unfold outcome finalState
    generalize Reading.read prompt c = r at hread ⊢
    generalize Reading.read prompt d = r' at hread ⊢
    cases hread with
    | ok h' => rw [ih h']
    | error h' => rw [ih h']

theorem Cursor.Like.readRest (h : c.Like d) (fuel : Nat) : readRest fuel c = readRest fuel d := by
  induction fuel generalizing c d with
  | zero => rfl
  | succ fuel ih =>
    have hread := h.read ""
    rw [Reading.readRest, Reading.readRest]
    generalize Reading.read "" c = r at hread ⊢
    generalize Reading.read "" d = r' at hread ⊢
    cases hread with
    | error => rfl
    | @ok found c' d' h' =>
      cases found with
      | streamEnd => rfl
      | lineStart => exact ih h'
      | form f => simp only [ih h']

end Like

/-! ## Further down -/

/-- What a read comes to, `k` lines further down. -/
def movedOutcome (k : Nat) : Except ReadError Outcome → Except ReadError Outcome
  | .ok outcome => .ok (outcome.down k)
  | .error e => .error (e.down k)

theorem Cursor.outcomes_down (k : Nat) (asked : List String) (c : Cursor) (prompts : List String) :
    (c.down k asked).outcomes prompts = (c.outcomes prompts).map (movedOutcome k) := by
  induction prompts generalizing c with
  | nil => rfl
  | cons prompt prompts ih =>
    have hread : read prompt (c.down k asked) = moved k asked (Outcome.down k) (read prompt c) :=
      lowers_read prompt c
    rw [Cursor.outcomes, Cursor.outcomes, List.map_cons]
    unfold outcome finalState
    rw [hread]
    cases read prompt c with
    | ok found c' => simp only [moved, ih, movedOutcome]
    | error e c' => simp only [moved, ih, movedOutcome]

/-- At the end of a line, reads come to the same as those of the lines to come, further down. -/
theorem Cursor.outcomes_of_rest_nil {c : Cursor} (hrest : c.rest = []) (hc : c.Consistent)
    (prompts : List String) :
    c.outcomes prompts = ((ofLines c.pending).outcomes prompts).map (movedOutcome c.line) := by
  rw [← outcomes_down c.line c.prompts]
  refine Like.outcomes ?_ prompts
  cases hended : c.ended with
  | true =>
    have hpending := hc hended
    exact .spent ⟨hrest, hpending⟩ ⟨rfl, hpending⟩
  | false =>
    refine .awaits (n := c.line) ⟨hrest, rfl, hended, rfl⟩ ⟨rfl, rfl, rfl, Nat.zero_add _⟩ ?_
    exact (List.append_nil c.prompts).symm

/-! ## Failures -/

/-- Whatever was read before, and wherever a read fails, the reads after it come to the same as the
first reads of the lines that have not been taken, as many lines further down as have been.  Nothing
is left of the lines that have. -/
theorem outcomes_after_failure (lines : List Line) (before : List String) {prompt : String}
    {e : ReadError} {c : Cursor}
    (h : read prompt ((Cursor.ofLines lines).after before) = .error e c) :
    c.rest = [] ∧
      ∃ taken, lines = taken ++ c.pending ∧ c.line = taken.countP Line.isText ∧
        ∀ prompts, c.outcomes prompts =
          ((Cursor.ofLines c.pending).outcomes prompts).map (movedOutcome c.line) := by
  have hrest := rest_of_read_error h
  have hreach := Cursor.relates_after onward_reaches (.ofLines lines) before
  obtain ⟨taken, hlines, hline⟩ := (hreach.trans ((onward_reaches.read prompt).of_error h)).lines
  have hconsistent := ((onward_past.read prompt).of_error h).consistent
    (Cursor.consistent_after lines before)
  refine ⟨hrest, taken, hlines, hline.trans (Nat.zero_add _), fun prompts => ?_⟩
  exact Cursor.outcomes_of_rest_nil hrest hconsistent prompts

/-- In `(a`, `])b`, `c` the second line is dropped at its first character, and the third one read
as if it stood alone. -/
theorem outcomes_after_unmatched :
    let c : Cursor := ⟨[], 4, 2, [.text ['c', '\n']], false, ["", continuationPrompt]⟩
    read "" ((Cursor.ofLines [.text ['(', 'a', '\n'], .text [']', ')', 'b', '\n'],
        .text ['c', '\n']]).after []) = .error (.unmatched ']' ⟨2, 1⟩) c ∧
      c.outcomes ["", ""] = [.ok (.form (.symbol "c" ⟨3, 1⟩)), .ok .streamEnd] := by
  intro c
  have hread : read "" ((Cursor.ofLines [.text ['(', 'a', '\n'], .text [']', ')', 'b', '\n'],
      .text ['c', '\n']]).after []) = .error (.unmatched ']' ⟨2, 1⟩) c := rfl
  obtain ⟨-, -, -, -, hlater⟩ := outcomes_after_failure _ [] hread
  exact ⟨hread, (hlater _).trans rfl⟩

end LiveLisp.Reading
