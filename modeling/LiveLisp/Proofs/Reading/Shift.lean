import LiveLisp.Proofs.Fallible
import LiveLisp.Reading.Reader
/-!
# Reading further down

What is read does not depend on how many lines came before, or on the prompts that were shown for
them: the same lines further down give the same forms and the same failures, at positions that are
as much further down.
-/

namespace LiveLisp

open Text (Position)

/-- The same column, `k` lines further down. -/
def Text.Position.down (k : Nat) (p : Position) : Position := ⟨p.line + k, p.column⟩

namespace Form

mutual

/-- The same form, `k` lines further down. -/
def down (k : Nat) : Form → Form
  | .atom p a => .atom (p.down k) a
  | .list p items => .list (p.down k) (downAll k items)
  | .vector p items => .vector (p.down k) (downAll k items)
  | .set p items => .set (p.down k) (downAll k items)
  | .map p entries => .map (p.down k) (downEntries k entries)

def downAll (k : Nat) : List Form → List Form
  | [] => []
  | f :: rest => down k f :: downAll k rest

def downEntries (k : Nat) : List (Form × Form) → List (Form × Form)
  | [] => []
  | (key, value) :: rest => (down k key, down k value) :: downEntries k rest

end

theorem downAll_eq (k : Nat) (items : List Form) : downAll k items = items.map (down k) := by
  induction items with
  | nil => rfl
  | cons f items ih => rw [downAll, ih, List.map_cons]

theorem pairUp_map_down (k : Nat) (items : List Form) :
    pairUp (items.map (down k)) = (pairUp items).map (downEntries k) := by
  induction items using pairUp.induct with
  | case1 => rfl
  | case2 => rfl
  | case3 key value rest ih =>
    simp only [List.map_cons, pairUp, ih, Option.map_map]
    rfl

end Form

namespace Reading

open Fallible

/-- The same failure, `k` lines further down. -/
def ReadError.down (k : Nat) : ReadError → ReadError
  | .unexpectedEnd start => .unexpectedEnd (start.down k)
  | .unmatched delimiter pos => .unmatched delimiter (pos.down k)
  | .oddMap pos => .oddMap (pos.down k)
  | .invalidToken token pos => .invalidToken token (pos.down k)
  | .invalidEscape escape pos => .invalidEscape escape (pos.down k)
  | .unsupportedDispatch dispatch pos => .unsupportedDispatch dispatch (pos.down k)
  | .input reason => .input reason

/-- The same place after `k` lines more, which were asked for with `prompts`. -/
def Cursor.down (k : Nat) (prompts : List String) (c : Cursor) : Cursor :=
  { c with line := c.line + k, prompts := prompts ++ c.prompts }

@[simp] theorem Cursor.down_rest (k : Nat) (prompts : List String) (c : Cursor) :
    (c.down k prompts).rest = c.rest := rfl

@[simp] theorem Cursor.down_steps (k : Nat) (prompts : List String) (c : Cursor) :
    (c.down k prompts).steps = c.steps := rfl

/-- The same outcome for a reader that stands `k` lines further down; `f` says what this makes of
what is read. -/
def moved {α β : Type} (k : Nat) (prompts : List String) (f : α → β) :
    EStateM.Result ReadError Cursor α → EStateM.Result ReadError Cursor β
  | .ok a c => .ok (f a) (c.down k prompts)
  | .error e c => .error (e.down k) (c.down k prompts)

/-- `y` reads further down what `x` reads. -/
def Lowers {α β : Type} (k : Nat) (prompts : List String) (f : α → β) (x : Reader α)
    (y : Reader β) : Prop :=
  ∀ c, y (c.down k prompts) = moved k prompts f (x c)

section Lowers

variable {k : Nat} {prompts : List String}

section Bind

variable {α β γ δ : Type} {x : Reader α} {y : Reader β} {f : α → β} {g : γ → δ}

theorem lowers_pure {a : α} {b : β} (h : b = f a) :
    Lowers k prompts f (pure a) (pure b) := by
  intro c
  rw [h]
  rfl

theorem lowers_throw {e e' : ReadError} (h : e' = e.down k) :
    Lowers k prompts f (throw e) (throw e') := by
  intro c
  rw [h]
  rfl

theorem Lowers.bind (hx : Lowers k prompts f x y) {l : α → Reader γ} {m : β → Reader δ}
    (hl : ∀ a, Lowers k prompts g (l a) (m (f a))) :
    Lowers k prompts g (x >>= l) (y >>= m) := by
  intro c
  have hc := hx c
  cases hrun : x c with
  | ok a c₁ =>
    rw [hrun] at hc
    rw [bind_of_ok hc, bind_of_ok hrun]
    exact hl a c₁
  | error e c₁ =>
    rw [hrun] at hc
    rw [bind_of_error hc, bind_of_error hrun]
    rfl

end Bind

/-! ## Characters -/

theorem lowers_fetch (prompt : String) : Lowers k prompts id (fetch prompt) (fetch prompt) := by
  intro c
  obtain ⟨rest, taken, line, pending, ended, asked⟩ := c
  cases ended with
  | true => rfl
  | false =>
    cases pending with
    | nil => simp [fetch, Cursor.down, moved]
    | cons first more =>
      cases first with
      | failed reason => simp [fetch, Cursor.down, moved, ReadError.down]
      | text cs => simp [fetch, Cursor.down, moved, Nat.add_right_comm]

theorem lowers_peek : Lowers k prompts id peek peek := by
  intro c
  unfold peek
  simp only [Cursor.down_rest]
  cases c.rest with
  | cons ch cs => rfl
  | nil =>
    simp only [lowers_fetch continuationPrompt c]
    cases fetch continuationPrompt c with
    | error e c₁ => rfl
    | ok found c₁ => cases found <;> rfl

theorem lowers_skip (n : Nat) : Lowers k prompts id (skip n) (skip n) := fun _ => rfl

theorem lowers_discardLine :
    Lowers k prompts id (modify Cursor.discardLine : Reader PUnit) (modify Cursor.discardLine) :=
  fun _ => rfl

theorem lowers_currentPosition :
    Lowers k prompts (Position.down k) currentPosition currentPosition :=
  fun _ => rfl

theorem lowers_takeUntil (stop : Char → Bool) :
    Lowers k prompts id (takeUntil stop) (takeUntil stop) :=
  fun _ => rfl

theorem lowers_atDiscard : Lowers k prompts id atDiscard atDiscard := by
  intro c
  unfold atDiscard
  simp only [Cursor.down_rest]
  split <;> rfl

theorem lowers_next (start : Position) :
    Lowers k prompts id (next start) (next (start.down k)) := by
  refine lowers_peek.bind fun r => ?_
  cases r with
  | none => exact lowers_throw rfl
  | some ch => exact (lowers_skip 1).bind fun _ => lowers_pure rfl

/-! ## Strings, characters and tokens -/

theorem lowers_readUnicodeEscape (start pos : Position) :
    Lowers k prompts id (readUnicodeEscape start pos)
      (readUnicodeEscape (start.down k) (pos.down k)) := by
  refine (lowers_next start).bind fun a => (lowers_next start).bind fun b =>
    (lowers_next start).bind fun c => (lowers_next start).bind fun d => ?_
  dsimp only [id]
  split
  · exact lowers_pure rfl
  · exact lowers_throw rfl

theorem lowers_readEscape (start : Position) :
    Lowers k prompts id (readEscape start) (readEscape (start.down k)) := by
  refine lowers_currentPosition.bind fun pos => (lowers_next start).bind fun ch => ?_
  dsimp only [id]
  split
  all_goals first
    | exact lowers_pure rfl
    | exact lowers_readUnicodeEscape start pos
    | exact lowers_throw rfl

theorem lowers_readString (start : Position) (fuel : Nat) :
    Lowers k prompts id (readString start fuel) (readString (start.down k) fuel) := by
  induction fuel with
  | zero => exact lowers_throw rfl
  | succ fuel ih =>
    refine (lowers_next start).bind fun ch => ?_
    dsimp only [id]
    split
    · exact lowers_pure rfl
    · exact (lowers_readEscape start).bind fun d => ih.bind fun rest => lowers_pure rfl
    · exact ih.bind fun rest => lowers_pure rfl

theorem lowers_readChar (start : Position) :
    Lowers k prompts id (readChar start) (readChar (start.down k)) := by
  refine (lowers_next start).bind fun first => (lowers_takeUntil _).bind fun more => ?_
  dsimp only [id]
  split
  · exact lowers_pure rfl
  · exact lowers_throw rfl

theorem lowers_readToken (first : Char) (start : Position) :
    Lowers k prompts id (readToken first start) (readToken first (start.down k)) := by
  refine (lowers_takeUntil _).bind fun more => ?_
  dsimp only [id]
  split
  · exact lowers_pure rfl
  · exact lowers_throw rfl

/-! ## Forms -/

theorem lowers_readBody {form : Reader Form} {items items' : Char → Reader (List Form)}
    {text text' : Reader (List Char)} (hform : Lowers k prompts (Form.down k) form form)
    (hitems : ∀ close, Lowers k prompts (List.map (Form.down k)) (items close) (items' close))
    (htext : Lowers k prompts id text text') (start : Position) (ch : Char) :
    Lowers k prompts (Form.down k) (readBody form items text start ch)
      (readBody form items' text' (start.down k) ch) := by
  unfold readBody
  split
  · exact (hitems _).bind fun xs => lowers_pure (by rw [Form.down, Form.downAll_eq])
  · exact (hitems _).bind fun xs => lowers_pure (by rw [Form.down, Form.downAll_eq])
  · refine (hitems _).bind fun xs => ?_
    rw [Form.pairUp_map_down]
    cases Form.pairUp xs with
    | none => exact lowers_throw rfl
    | some entries => exact lowers_pure rfl
  · exact lowers_throw rfl
  · exact lowers_throw rfl
  · exact lowers_throw rfl
  · exact htext.bind fun cs => lowers_pure rfl
  · exact hform.bind fun f => lowers_pure rfl
  · exact hform.bind fun f => lowers_pure rfl
  · exact hform.bind fun _ => hform
  · exact (lowers_readChar start).bind fun d => lowers_pure rfl
  · refine lowers_peek.bind fun r => ?_
    dsimp only [id]
    split
    · exact (lowers_skip 1).bind fun _ =>
        (hitems _).bind fun xs => lowers_pure (by rw [Form.down, Form.downAll_eq])
    · exact (lowers_skip 1).bind fun _ => lowers_throw rfl
    · exact lowers_throw rfl
  · exact (lowers_readToken ch start).bind fun a => lowers_pure rfl

variable (k prompts) in
/-- The readers with `fuel` steps read the same further down. -/
structure LowersAll (fuel : Nat) : Prop where
  skip : Lowers k prompts id (skipInsignificant fuel) (skipInsignificant fuel)
  form : Lowers k prompts (Form.down k) (readForm fuel) (readForm fuel)
  items : ∀ close start, Lowers k prompts (List.map (Form.down k)) (readItems close start fuel)
    (readItems close (start.down k) fuel)

theorem lowersAll (fuel : Nat) : LowersAll k prompts fuel := by
  induction fuel with
  | zero => exact ⟨lowers_pure rfl, fun _ => rfl, fun _ _ => lowers_throw rfl⟩
  | succ fuel ih =>
    refine ⟨?_, ?_, ?_⟩
    · refine lowers_peek.bind fun r => ?_
      cases r with
      | none => exact lowers_pure rfl
      | some ch =>
        dsimp only [id]
        split
        · exact (lowers_skip 1).bind fun _ => ih.skip
        · split
          · exact lowers_discardLine.bind fun _ => ih.skip
          · refine lowers_atDiscard.bind fun discard => ?_
            dsimp only [id]
            split
            · exact (lowers_skip 2).bind fun _ => ih.form.bind fun _ => ih.skip
            · exact lowers_pure rfl
    · exact ih.skip.bind fun _ => lowers_currentPosition.bind fun start =>
        (lowers_next start).bind fun ch =>
          lowers_readBody ih.form (fun close => ih.items close start)
            (lowers_readString start fuel) start ch
    · intro close start
      refine ih.skip.bind fun _ => lowers_peek.bind fun r => ?_
      cases r with
      | none => exact lowers_throw rfl
      | some ch =>
        dsimp only [id]
        split
        · exact (lowers_skip 1).bind fun _ => lowers_pure rfl
        · exact ih.form.bind fun item => (ih.items close start).bind fun rest => lowers_pure rfl

/-! ## Whole reads -/

/-- The same outcome, `k` lines further down. -/
def Outcome.down (k : Nat) : Outcome → Outcome
  | .lineStart => .lineStart
  | .streamEnd => .streamEnd
  | .form f => .form (f.down k)

theorem lowers_approach (prompt : String) (fuel : Nat) :
    Lowers k prompts id (approach prompt fuel) (approach prompt fuel) := by
  induction fuel with
  | zero => exact lowers_pure rfl
  | succ fuel ih =>
    intro c
    unfold approach
    simp only [Cursor.down_rest]
    cases c.rest with
    | nil =>
      simp only [lowers_fetch prompt c]
      cases fetch prompt c with
      | error e c₁ => rfl
      | ok found c₁ =>
        cases found with
        | true => exact ih c₁
        | false => rfl
    | cons ch cs =>
      simp only
      split
      · rfl
      · split
        · rfl
        · split
          · exact ih (c.advance 1)
          · rfl

theorem skipLineEnd_down (c : Cursor) :
    skipLineEnd (c.down k prompts) = (skipLineEnd c).down k prompts := by
  unfold skipLineEnd
  simp only [Cursor.down_rest, apply_ite (Cursor.down k prompts)]
  rfl

/-- Reading goes on the same after any number of lines. -/
theorem lowers_read (prompt : String) :
    Lowers k prompts (Outcome.down k) (read prompt) (read prompt) := by
  intro c
  unfold read
  rw [Cursor.down_steps, lowers_approach prompt c.steps c]
  cases approach prompt c.steps c with
  | error e c₁ => rfl
  | ok found c₁ =>
    cases found with
    | lineStart => rfl
    | streamEnd => rfl
    | body =>
      simp only [moved, id]
      rw [Cursor.down_steps, (lowersAll c₁.steps).form c₁]
      cases readForm c₁.steps c₁ with
      | error e c₂ => rfl
      | ok f c₂ =>
        simp only [moved, skipLineEnd_down]
        rfl

end Lowers

/-- What is read from the rest of the input `k` lines further down. -/
def movedAll (k : Nat) : Except ReadError (List Form) → Except ReadError (List Form)
  | .ok forms => .ok (forms.map (Form.down k))
  | .error e => .error (e.down k)

theorem readRest_down (k : Nat) (prompts : List String) (fuel : Nat) (c : Cursor) :
    readRest fuel (c.down k prompts) = movedAll k (readRest fuel c) := by
  induction fuel generalizing c with
  | zero => rfl
  | succ fuel ih =>
    rw [readRest, readRest, lowers_read "" c]
    cases read "" c with
    | error e c₁ => rfl
    | ok outcome c₁ =>
      cases outcome with
      | lineStart => exact ih c₁
      | streamEnd => rfl
      | form f =>
        simp only [moved, Outcome.down, ih c₁]
        cases readRest fuel c₁ <;> rfl

end Reading

end LiveLisp
