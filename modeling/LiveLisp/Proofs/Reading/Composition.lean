import LiveLisp.Proofs.Fallible
import LiveLisp.Reading.Reader
import Mathlib.Tactic.SplitIfs
/-!
# What reading is made of

All reading of forms is put together from a few steps on the cursor.  What each of these steps
keeps, reading as a whole keeps.
-/

namespace LiveLisp.Reading

open Fallible
open Text (Position)

/-- The input has ended, and nothing of it is left. -/
def Cursor.AtEnd (c : Cursor) : Prop := c.ended = true ∧ c.rest = []

/-- Readers that are made of single steps. Only those marked `true` may succeed by coming to the
end of the input. -/
inductive Made : {α : Type} → Bool → Reader α → Prop
  | pure {α : Type} (a : α) : Made false (pure a)
  | throw {α : Type} (e : ReadError) : Made false (throw e : Reader α)
  | peek : Made true peek
  | skip (n : Nat) : Made false (skip n)
  | discardLine : Made false (modify Cursor.discardLine)
  | currentPosition : Made false currentPosition
  | takeUntil (stop : Char → Bool) : Made false (takeUntil stop)
  | atDiscard : Made false atDiscard
  | bind {α β : Type} {ending : Bool} {x : Reader α} {k : α → Reader β} (hx : Made ending x)
    (hk : ∀ a, Made ending (k a)) : Made ending (x >>= k)
  | weaken {α : Type} {x : Reader α} (hx : Made false x) : Made true x
  -- `x` may come to the end, since what follows fails there
  | before {α β : Type} {x : Reader α} {k : α → Reader β} (hx : Made true x)
    (hk : ∀ a, Made false (k a))
    (hend : ∀ c a c₁, x c = .ok a c₁ → c₁.AtEnd → ∀ b c', k a c₁ ≠ .ok b c') :
    Made false (x >>= k)

/-! ## Characters -/

theorem peek_of_cons {c : Cursor} {ch : Char} {cs : List Char} (h : c.rest = ch :: cs) :
    peek c = .ok (some ch) c := by
  simp [peek, h]

theorem peek_of_nil {c : Cursor} (h : c.rest = []) :
    peek c = match fetch continuationPrompt c with
      | .ok true c => .ok c.rest.head? c
      | .ok false c => .ok none c
      | .error e c => .error e c := by
  cases c
  cases h
  rfl

theorem fetch_of_ended {prompt : String} {c : Cursor} (h : c.ended = true) :
    fetch prompt c = .ok false c := by
  simp [fetch, h]

theorem fetch_of_nil {prompt : String} {c : Cursor} (h : c.ended = false)
    (hpending : c.pending = []) :
    fetch prompt c = .ok false { c with prompts := c.prompts ++ [prompt], ended := true } := by
  simp [fetch, h, hpending]

/-- At the beginning of the next line `cs`, with the lines `more` still to come. -/
def Cursor.atLine (c : Cursor) (prompt : String) (cs : List Char) (more : List Line) : Cursor :=
  { c with
    prompts := c.prompts ++ [prompt], rest := cs, taken := 0, line := c.line + 1, pending := more }

theorem fetch_of_text {prompt : String} {c : Cursor} {cs : List Char} {more : List Line}
    (h : c.ended = false) (hpending : c.pending = .text cs :: more) :
    fetch prompt c = .ok true (c.atLine prompt cs more) := by
  simp [fetch, h, hpending, Cursor.atLine]

theorem fetch_of_failed {prompt : String} {c : Cursor} {reason : String} {more : List Line}
    (h : c.ended = false) (hpending : c.pending = .failed reason :: more) :
    fetch prompt c = .error (.input reason)
      { c with prompts := c.prompts ++ [prompt], pending := more } := by
  simp [fetch, h, hpending]

/-- A reader that wants a character fails at the end of the input. -/
theorem Made.of_peek {β : Type} {k : Option Char → Reader β} (hk : ∀ r, Made false (k r))
    (hnone : ∀ c b c', k none c ≠ .ok b c') : Made false (Reading.peek >>= k) := by
  refine .before .peek hk fun c r c₁ hpeek hend => ?_
  cases hrest : c.rest with
  | cons ch cs =>
    rw [peek_of_cons hrest] at hpeek
    obtain ⟨-, rfl⟩ := EStateM.Result.ok.inj hpeek
    exact absurd hend.2 (by simp [hrest])
  | nil =>
    obtain rfl : r = none := by
      rw [peek_of_nil hrest] at hpeek
      split at hpeek
      · obtain ⟨rfl, rfl⟩ := EStateM.Result.ok.inj hpeek
        rw [hend.2]
        rfl
      · exact (EStateM.Result.ok.inj hpeek).1.symm
      · simp at hpeek
    exact hnone c₁

theorem made_next (start : Position) : Made false (next start) := by
  refine .of_peek (fun r => ?_) fun _ _ _ => throw_ne_ok
  cases r with
  | none => exact .throw _
  | some ch => exact .bind (.skip 1) fun _ => .pure _

/-! ## Strings, characters and tokens -/

theorem made_readEscape (start : Position) : Made false (readEscape start) := by
  have hunicode : ∀ pos, Made false (readUnicodeEscape start pos) := by
    intro pos
    refine .bind (made_next start) fun a => .bind (made_next start) fun b =>
      .bind (made_next start) fun c => .bind (made_next start) fun d => ?_
    split
    · exact .pure _
    · exact .throw _
  refine .bind .currentPosition fun pos => .bind (made_next start) fun ch => ?_
  split
  all_goals first | exact .pure _ | exact hunicode pos | exact .throw _

theorem made_readString (start : Position) (fuel : Nat) : Made false (readString start fuel) := by
  induction fuel with
  | zero => exact .throw _
  | succ fuel ih =>
    refine .bind (made_next start) fun ch => ?_
    split
    · exact .pure _
    · exact .bind (made_readEscape start) fun d => .bind ih fun rest => .pure _
    · exact .bind ih fun rest => .pure _

theorem made_readChar (start : Position) : Made false (readChar start) := by
  refine .bind (made_next start) fun first => .bind (.takeUntil _) fun more => ?_
  split
  · exact .pure _
  · exact .throw _

theorem made_readToken (first : Char) (start : Position) :
    Made false (readToken first start) := by
  refine .bind (.takeUntil _) fun more => ?_
  split
  · exact .pure _
  · exact .throw _

/-! ## Forms -/

theorem made_readBody {form : Reader Form} {items : Char → Reader (List Form)}
    {text : Reader (List Char)} (hform : Made false form)
    (hitems : ∀ close, Made false (items close)) (htext : Made false text)
    (start : Position) (ch : Char) : Made false (readBody form items text start ch) := by
  unfold readBody
  split
  · exact .bind (hitems _) fun xs => .pure _
  · exact .bind (hitems _) fun xs => .pure _
  · refine .bind (hitems _) fun xs => ?_
    split
    · exact .pure _
    · exact .throw _
  · exact .throw _
  · exact .throw _
  · exact .throw _
  · exact .bind htext fun cs => .pure _
  · exact .bind hform fun f => .pure _
  · exact .bind hform fun f => .pure _
  · exact .bind hform fun _ => hform
  · exact .bind (made_readChar start) fun d => .pure _
  · refine .of_peek (fun r => ?_) fun _ _ _ => throw_ne_ok
    split
    · exact .bind (.skip 1) fun _ => .bind (hitems _) fun xs => .pure _
    · exact .bind (.skip 1) fun _ => .throw _
    · exact .throw _
  · exact .bind (made_readToken ch start) fun a => .pure _

/-- The readers with `fuel` steps are made of single steps. -/
structure MadeAll (fuel : Nat) : Prop where
  skip : Made true (skipInsignificant fuel)
  form : Made false (readForm fuel)
  items : ∀ close start, Made false (readItems close start fuel)

theorem peek_of_atEnd {c : Cursor} (h : c.AtEnd) : peek c = .ok none c := by
  rw [peek_of_nil h.2, fetch_of_ended h.1]

theorem madeAll (fuel : Nat) : MadeAll fuel := by
  induction fuel with
  | zero =>
    exact ⟨.weaken (.pure _), .bind .currentPosition fun p => .throw (.unexpectedEnd p),
      fun _ _ => .throw _⟩
  | succ fuel ih =>
    refine ⟨?_, ?_, ?_⟩
    · refine .bind .peek fun r => ?_
      cases r with
      | none => exact .weaken (.pure _)
      | some ch =>
        dsimp only
        split
        · exact .bind (.weaken (.skip 1)) fun _ => ih.skip
        · split
          · exact .bind (.weaken .discardLine) fun _ => ih.skip
          · refine .bind (.weaken .atDiscard) fun discard => ?_
            split
            · exact .bind (.weaken (.skip 2)) fun _ => .bind (.weaken ih.form) fun _ => ih.skip
            · exact .weaken (.pure _)
    · refine .before ih.skip (fun _ => .bind .currentPosition fun start =>
        .bind (made_next start) fun ch => made_readBody ih.form (fun close => ih.items close start)
          (made_readString start fuel) start ch) ?_
      intro c u c₁ _ hend f c' h
      obtain ⟨start, c₂, hstart, hrest⟩ := bind_eq_ok.mp h
      obtain ⟨-, rfl⟩ := EStateM.Result.ok.inj hstart
      obtain ⟨ch, c₃, hnext, -⟩ := bind_eq_ok.mp hrest
      rw [next, bind_of_ok (peek_of_atEnd hend)] at hnext
      exact throw_ne_ok hnext
    · intro close start
      refine .before ih.skip (fun _ => .of_peek (fun r => ?_) fun _ _ _ => throw_ne_ok) ?_
      · cases r with
        | none => exact .throw _
        | some ch =>
          dsimp only
          split
          · exact .bind (.skip 1) fun _ => .pure _
          · exact .bind ih.form fun item => .bind (ih.items close start) fun rest => .pure _
      · intro c u c₁ _ hend fs c' h
        rw [bind_of_ok (peek_of_atEnd hend)] at h
        exact throw_ne_ok h

/-! ## Before a form -/

theorem approach_of_nil (prompt : String) (fuel : Nat) {c : Cursor} (hrest : c.rest = []) :
    approach prompt (fuel + 1) c =
      match fetch prompt c with
      | .ok true c => approach prompt fuel c
      | .ok false c => .ok .streamEnd c
      | .error e c => .error e c := by
  cases c
  cases hrest
  rfl

theorem approach_of_cons (prompt : String) (fuel : Nat) {c : Cursor} {ch : Char} {cs : List Char}
    (hrest : c.rest = ch :: cs) :
    approach prompt (fuel + 1) c =
      if ch = '\n' then .ok .lineStart (c.advance 1)
      else if ch = ';' then .ok .lineStart c.discardLine
      else if isSeparator ch then approach prompt fuel (c.advance 1)
      else .ok .body c := by
  rw [approach]
  simp only [hrest]

/-! ## What every step keeps -/

/-- A relation between cursors that holds across every single step. -/
structure Onward (R : Cursor → Cursor → Prop) : Prop where
  noLine : ∀ c prompt, c.rest = [] → c.ended = false → c.pending = [] →
    R c { c with prompts := c.prompts ++ [prompt], ended := true }
  failed : ∀ c prompt reason more, c.rest = [] → c.ended = false →
    c.pending = .failed reason :: more →
    R c { c with prompts := c.prompts ++ [prompt], pending := more }
  line : ∀ c prompt cs more, c.rest = [] → c.ended = false → c.pending = .text cs :: more →
    R c (c.atLine prompt cs more)
  advance : ∀ c n, R c (c.advance n)
  discardLine : ∀ c, R c c.discardLine

section Onward

variable {R : Cursor → Cursor → Prop} [Std.Refl R]

theorem Onward.fetch (hR : Onward R) (prompt : String) {c : Cursor} (hrest : c.rest = []) :
    R c (finalState (fetch prompt) c) := by
  cases hended : c.ended with
  | true =>
    rw [finalState_of_ok (fetch_of_ended hended)]
    exact Std.Refl.refl c
  | false =>
    cases hpending : c.pending with
    | nil =>
      rw [finalState_of_ok (fetch_of_nil hended hpending)]
      exact hR.noLine c prompt hrest hended hpending
    | cons line more =>
      cases line with
      | failed reason =>
        rw [finalState_of_error (fetch_of_failed hended hpending)]
        exact hR.failed c prompt reason more hrest hended hpending
      | text cs =>
        rw [finalState_of_ok (fetch_of_text hended hpending)]
        exact hR.line c prompt cs more hrest hended hpending

theorem Onward.peek (hR : Onward R) : Relates R peek := by
  intro c
  cases hrest : c.rest with
  | cons ch cs =>
    rw [finalState_of_ok (peek_of_cons hrest)]
    exact Std.Refl.refl c
  | nil =>
    have hfetch := hR.fetch continuationPrompt hrest
    unfold finalState at hfetch ⊢
    rw [peek_of_nil hrest]
    cases h : Reading.fetch continuationPrompt c with
    | error e c₁ =>
      rw [h] at hfetch
      exact hfetch
    | ok found c₁ =>
      rw [h] at hfetch
      cases found <;> exact hfetch

theorem Onward.skipLineEnd (hR : Onward R) (c : Cursor) : R c (skipLineEnd c) := by
  unfold Reading.skipLineEnd
  dsimp only
  split
  · exact hR.advance c _
  · exact Std.Refl.refl c

variable [Trans R R R]

theorem Onward.made (hR : Onward R) {α : Type} {ending : Bool} {x : Reader α}
    (hx : Made ending x) : Relates R x := by
  induction hx with
  | pure a => exact relates_pure a
  | throw e => exact relates_throw e
  | peek => exact hR.peek
  | skip n => exact fun c => hR.advance c n
  | discardLine => exact hR.discardLine
  | currentPosition => exact fun c => Std.Refl.refl c
  | takeUntil stop => exact fun c => hR.advance c _
  | atDiscard =>
    intro c
    obtain ⟨discard, h⟩ : ∃ discard, atDiscard c = .ok discard c := by
      unfold atDiscard
      split <;> exact ⟨_, rfl⟩
    rw [finalState_of_ok h]
    exact Std.Refl.refl c
  | bind _ _ ihx ihk => exact ihx.bind ihk
  | weaken _ ih => exact ih
  | before _ _ _ ihx ihk => exact ihx.bind ihk

theorem Onward.approach (hR : Onward R) (prompt : String) (fuel : Nat) :
    Relates R (approach prompt fuel) := by
  induction fuel with
  | zero => exact relates_pure _
  | succ fuel ih =>
    intro c
    cases hrest : c.rest with
    | nil =>
      have hfetch := hR.fetch prompt hrest
      unfold finalState at hfetch ⊢
      rw [approach_of_nil _ _ hrest]
      cases h : Reading.fetch prompt c with
      | error e c₁ =>
        rw [h] at hfetch
        exact hfetch
      | ok found c₁ =>
        rw [h] at hfetch
        cases found with
        | true => exact Trans.trans hfetch (ih c₁)
        | false => exact hfetch
    | cons ch cs =>
      unfold finalState
      rw [approach_of_cons _ _ hrest]
      split_ifs
      · exact hR.advance c 1
      · exact hR.discardLine c
      · exact Trans.trans (hR.advance c 1) (ih (c.advance 1))
      · exact Std.Refl.refl c

theorem Onward.read (hR : Onward R) (prompt : String) : Relates R (read prompt) := by
  intro c
  unfold finalState Reading.read
  cases happroach : Reading.approach prompt c.steps c with
  | error e c₁ => exact (hR.approach prompt _).of_error happroach
  | ok found c₁ =>
    have hfound := (hR.approach prompt _).of_ok happroach
    cases found with
    | lineStart => exact hfound
    | streamEnd => exact hfound
    | body =>
      dsimp only
      cases hform : readForm c₁.steps c₁ with
      | ok f c₂ =>
        have hread := (hR.made (madeAll _).form).of_ok hform
        exact Trans.trans hfound (Trans.trans hread (hR.skipLineEnd c₂))
      | error e c₂ =>
        have hread := (hR.made (madeAll _).form).of_error hform
        exact Trans.trans hfound (Trans.trans hread (hR.discardLine c₂))

end Onward

end LiveLisp.Reading
