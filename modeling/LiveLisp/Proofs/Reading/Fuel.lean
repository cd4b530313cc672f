import LiveLisp.Proofs.Reading.Progress
import Mathlib.Logic.Function.Iterate
/-!
# Steps to spare

The readers call each other, and each call has less to read or is one of a few on the same place.
So only finitely many calls are inside each other: whatever further calls would do, and whether they
would come to an end at all, does not matter.  In particular reading takes no more steps than are
given to it at the start.
-/

namespace LiveLisp.Reading

open Fallible
open Text (Position)

/-! ## Calls inside each other -/

/-- The readers that call each other. -/
structure Readers where
  skip : Reader Unit
  form : Reader Form
  items : Char → Position → Reader (List Form)
  text : Position → Reader (List Char)
  approach : String → Reader Approach

namespace Readers

/-- The readers with `fuel` steps. -/
def within (fuel : Nat) : Readers where
  skip := skipInsignificant fuel
  form := readForm fuel
  items close start := readItems close start fuel
  text start := readString start fuel
  approach prompt := Reading.approach prompt fuel

/-- The readers, with the calls that they make left to `r`. -/
def unfold (r : Readers) : Readers where
  skip := do
    match ← peek with
    | none => return
    | some ch =>
      if isSeparator ch then do
        Reading.skip 1
        r.skip
      else if ch = ';' then do
        modify Cursor.discardLine
        r.skip
      else if ← atDiscard then do
        Reading.skip 2
        let _ ← r.form
        r.skip
      else return
  form := do
    r.skip
    let start ← currentPosition
    let ch ← next start
    readBody r.form (fun close => r.items close start) (r.text start) start ch
  items close start := do
    r.skip
    match ← peek with
    | none => throw (.unexpectedEnd start)
    | some ch =>
      if ch = close then do
        Reading.skip 1
        return []
      else do
        let item ← r.form
        let rest ← r.items close start
        return item :: rest
  text start := do
    match ← next start with
    | '"' => return []
    | '\\' => do
      let ch ← readEscape start
      let rest ← r.text start
      return ch :: rest
    | ch => do
      let rest ← r.text start
      return ch :: rest
  approach prompt := fun c =>
    match c.rest with
    | [] =>
      match fetch prompt c with
      | .ok true c => r.approach prompt c
      | .ok false c => .ok .streamEnd c
      | .error e c => .error e c
    | ch :: _ =>
      if ch = '\n' then .ok .lineStart (c.advance 1)
      else if ch = ';' then .ok .lineStart c.discardLine
      else if isSeparator ch then r.approach prompt (c.advance 1)
      else .ok .body c

/-- The steps are counted by the calls. -/
theorem within_succ (fuel : Nat) : within (fuel + 1) = (within fuel).unfold := rfl

theorem within_add (n fuel : Nat) : within (n + fuel) = unfold^[n] (within fuel) := by
  induction n with
  | zero => rw [Nat.zero_add, Function.iterate_zero_apply]
  | succ n ih => rw [Nat.succ_add, within_succ, ih, Function.iterate_succ_apply']

end Readers

open Readers (within)

/-- A form is read alike by readers that agree on what is still to come. -/
theorem readBody_congr {form form' : Reader Form} {items items' : Char → Reader (List Form)}
    {text text' : Reader (List Char)} {c : Cursor} (hmade : Made false form)
    (hform : ∀ c', c'.size ≤ c.size → form c' = form' c')
    (hitems : ∀ close c', c'.size ≤ c.size → items close c' = items' close c')
    (htext : text c = text' c) (start : Position) (ch : Char) :
    readBody form items text start ch c = readBody form' items' text' start ch c := by
  have hself := Nat.le_refl c.size
  unfold readBody
  split
  · exact bind_congr_of_ok (hitems _ c hself) fun _ _ _ => rfl
  · exact bind_congr_of_ok (hitems _ c hself) fun _ _ _ => rfl
  · exact bind_congr_of_ok (hitems _ c hself) fun _ _ _ => rfl
  · rfl
  · rfl
  · rfl
  · exact bind_congr_of_ok htext fun _ _ _ => rfl
  · exact bind_congr_of_ok (hform c hself) fun _ _ _ => rfl
  · exact bind_congr_of_ok (hform c hself) fun _ _ _ => rfl
  · exact bind_congr_of_ok (hform c hself) fun f c₁ hf =>
      hform c₁ ((past_of_made hmade).of_ok hf).size
  · rfl
  · refine bind_congr_of_ok rfl fun r c₁ hpeek => ?_
    have hle := (onward_past.peek.of_ok hpeek).size
    split
    · refine bind_congr_of_ok rfl fun u c₂ hskip => ?_
      have hle₂ := ((past_of_made (.skip 1)).of_ok hskip).size
      exact bind_congr_of_ok (hitems _ c₂ (by omega)) fun _ _ _ => rfl
    · rfl
    · rfl
  · rfl

/-- The readers do the same wherever so little is still to come that `n` calls inside each other
are enough: two for each character, since one is for the form that begins with it, and one for what
is passed over before the next. -/
structure Readers.Agree (n : Nat) (r r' : Readers) : Prop where
  skip : ∀ c : Cursor, 2 * c.size + 1 ≤ n → r.skip c = r'.skip c
  form : ∀ c : Cursor, 2 * c.size + 2 ≤ n → r.form c = r'.form c
  items : ∀ close start (c : Cursor), 2 * c.size + 3 ≤ n →
    r.items close start c = r'.items close start c
  text : ∀ start (c : Cursor), c.size < n → r.text start c = r'.text start c
  approach : ∀ prompt (c : Cursor), c.size < n → r.approach prompt c = r'.approach prompt c

section Agree

variable {n fuel : Nat} {r : Readers} {c : Cursor} (h : Readers.Agree n (within fuel) r)

include h

theorem Readers.Agree.skip_unfold (hn : 2 * c.size ≤ n) :
    (within fuel).unfold.skip c = r.unfold.skip c := by
  refine bind_congr_of_ok rfl fun found c₁ hpeek => ?_
  obtain ⟨hbefore, hfound, -⟩ := peek_eq_ok hpeek
  have hle := hbefore.size
  cases found with
  | none => rfl
  | some ch =>
    obtain ⟨cs, hcs⟩ : ∃ cs, c₁.rest = ch :: cs := List.head?_eq_some_iff.mp hfound.symm
    have hone := Cursor.size_advance_one hcs
    dsimp only
    split
    · refine bind_congr_of_ok rfl fun u c₂ hskip => ?_
      obtain ⟨-, rfl⟩ := EStateM.Result.ok.inj hskip
      exact h.skip _ (by omega)
    · split
      · refine bind_congr_of_ok rfl fun u c₂ hmodify => ?_
        obtain ⟨-, rfl⟩ := EStateM.Result.ok.inj hmodify
        have hlt := Cursor.size_discardLine_lt hcs
        exact h.skip _ (by omega)
      · refine bind_congr_of_ok rfl fun discard c₂ hat => ?_
        obtain ⟨rfl, -⟩ := atDiscard_eq_ok hat
        split
        · refine bind_congr_of_ok rfl fun u c₂ hskip => ?_
          obtain ⟨-, rfl⟩ := EStateM.Result.ok.inj hskip
          have hlt : (c₁.advance 2).size < c₁.size := by
            simp only [Cursor.size, Cursor.advance, hcs, List.length_drop, List.length_cons]
            omega
          refine bind_congr_of_ok (h.form _ (by omega)) fun f c₃ hform => ?_
          have hlt₃ := size_readForm_lt hform
          exact h.skip _ (by omega)
        · rfl

theorem Readers.Agree.form_unfold (hn : 2 * c.size + 1 ≤ n) :
    (within fuel).unfold.form c = r.unfold.form c := by
  refine bind_congr_of_ok (h.skip c hn) fun u c₁ hskip => ?_
  have hle := ((past_of_made (madeAll fuel).skip).of_ok hskip).size
  refine bind_congr_of_ok rfl fun start c₂ hstart => ?_
  obtain ⟨-, rfl⟩ := EStateM.Result.ok.inj hstart
  refine bind_congr_of_ok rfl fun ch c₃ hnext => ?_
  have hlt := (before_next hnext).2
  apply readBody_congr (madeAll fuel).form
  · exact fun c' hc' => h.form c' (by omega)
  · exact fun close c' hc' => h.items close _ c' (by omega)
  · exact h.text _ _ (by omega)

theorem Readers.Agree.items_unfold (hn : 2 * c.size + 2 ≤ n) (close : Char) (start : Position) :
    (within fuel).unfold.items close start c = r.unfold.items close start c := by
  refine bind_congr_of_ok (h.skip c (by omega)) fun u c₁ hskip => ?_
  have hle₁ := ((past_of_made (madeAll fuel).skip).of_ok hskip).size
  refine bind_congr_of_ok rfl fun found c₂ hpeek => ?_
  have hle₂ := (onward_past.peek.of_ok hpeek).size
  cases found with
  | none => rfl
  | some ch =>
    dsimp only
    split
    · rfl
    · refine bind_congr_of_ok (h.form _ (by omega)) fun item c₃ hform => ?_
      have hlt := size_readForm_lt hform
      exact bind_congr_of_ok (h.items close start c₃ (by omega)) fun _ _ _ => rfl

theorem Readers.Agree.text_unfold (hn : c.size ≤ n) (start : Position) :
    (within fuel).unfold.text start c = r.unfold.text start c := by
  refine bind_congr_of_ok rfl fun ch c₁ hnext => ?_
  have hlt := (before_next hnext).2
  split
  · rfl
  · refine bind_congr_of_ok rfl fun d c₂ hescape => ?_
    have hle := ((past_of_made (made_readEscape start)).of_ok hescape).size
    exact bind_congr_of_ok (h.text start c₂ (by omega)) fun _ _ _ => rfl
  · exact bind_congr_of_ok (h.text start c₁ (by omega)) fun _ _ _ => rfl

theorem Readers.Agree.approach_unfold (hn : c.size ≤ n) (prompt : String) :
    (within fuel).unfold.approach prompt c = r.unfold.approach prompt c := by
  unfold Readers.unfold
  dsimp only
  cases hrest : c.rest with
  | nil =>
    have hfetched := fetched prompt c
    cases hfetch : fetch prompt c with
    | error e c₁ => rfl
    | ok found c₁ =>
      rw [hfetch] at hfetched
      cases hfetched with
      | line _ hlt => exact h.approach prompt c₁ (by omega)
      | noLine => rfl
  | cons ch cs =>
    have hone := Cursor.size_advance_one hrest
    simp only [h.approach prompt (c.advance 1) (by omega)]

end Agree

/-- After `n` calls inside each other it does not matter what further calls would do. -/
theorem agree_iterate (n : Nat) (r : Readers) :
    Readers.Agree n (within n) (Readers.unfold^[n] r) := by
  induction n with
  | zero =>
    refine ⟨?_, ?_, ?_, ?_, ?_⟩
    all_goals intros; omega
  | succ n ih =>
    rw [Readers.within_succ, Function.iterate_succ_apply']
    refine ⟨?_, ?_, ?_, ?_, ?_⟩
    · exact fun c hn => ih.skip_unfold (by omega)
    · exact fun c hn => ih.form_unfold (by omega)
    · exact fun close start c hn => ih.items_unfold (by omega) close start
    · exact fun start c hn => ih.text_unfold (by omega) start
    · exact fun prompt c hn => ih.approach_unfold (by omega) prompt

/-! ## More steps than needed -/

theorem Cursor.size_lt_steps (c : Cursor) : c.size < c.steps := by
  unfold Cursor.steps
  omega

/-- With more than `n` steps reading comes to the same, where `n` calls are enough. -/
theorem agree_of_le {n fuel : Nat} (h : n ≤ fuel) : Readers.Agree n (within n) (within fuel) := by
  have hsplit : within fuel = Readers.unfold^[n] (within (fuel - n)) := by
    rw [← Readers.within_add, Nat.add_sub_cancel' h]
  rw [hsplit]
  exact agree_iterate n _

theorem skipInsignificant_of_le {n fuel : Nat} {c : Cursor} (hn : 2 * c.size + 1 ≤ n)
    (h : n ≤ fuel) : skipInsignificant fuel c = skipInsignificant n c :=
  ((agree_of_le h).skip c hn).symm

theorem readForm_of_le {c : Cursor} {fuel : Nat} (h : c.steps ≤ fuel) :
    readForm fuel c = readForm c.steps c := by
  refine ((agree_of_le h).form c ?_).symm
  unfold Cursor.steps
  omega

theorem approach_of_lt (prompt : String) {c : Cursor} {fuel : Nat} (h : c.size < fuel) :
    approach prompt fuel c = approach prompt (c.size + 1) c :=
  ((agree_of_le h).approach prompt c (Nat.lt_succ_self _)).symm

/-! ## Whole reads -/

/-- What a read leaves is less than what it found, unless it found the end. -/
theorem size_read_lt {prompt : String} {c c' : Cursor} {outcome : Outcome}
    (h : read prompt c = .ok outcome c') (hne : outcome ≠ .streamEnd) : c'.size < c.size := by
  have hprogress := progressed_read prompt c
  rw [h] at hprogress
  cases hprogress with
  | streamEnd => exact absurd rfl hne
  | read _ _ hlt => exact hlt

theorem readRest_succ {fuel : Nat} {c : Cursor} (h : c.size < fuel) :
    readRest (fuel + 1) c = readRest fuel c := by
  induction fuel generalizing c with
  | zero => omega
  | succ fuel ih =>
    rw [readRest, readRest]
    cases hread : read "" c with
    | error e c₁ => rfl
    | ok outcome c₁ =>
      cases outcome with
      | streamEnd => rfl
      | lineStart =>
        have hlt := size_read_lt hread (by simp)
        exact ih (by omega)
      | form f =>
        have hlt := size_read_lt hread (by simp)
        simp only [ih (show c₁.size < fuel by omega)]

/-- What a read makes of what stands before a form. -/
def enter : Approach → Reader Outcome
  | .lineStart => pure .lineStart
  | .streamEnd => pure .streamEnd
  | .body => fun c =>
    match readForm c.steps c with
    | .ok form c => .ok (.form form) (skipLineEnd c)
    | .error e c => .error e c.discardLine

theorem read_eq (prompt : String) {c : Cursor} {fuel : Nat} (h : c.size < fuel) :
    read prompt c = (approach prompt fuel >>= enter) c := by
  have hsteps : approach prompt c.steps c = approach prompt fuel c := by
    rw [approach_of_lt prompt h, approach_of_lt prompt c.size_lt_steps]
  unfold read
  rw [hsteps]
  cases hfound : approach prompt fuel c with
  | error e c₁ => rw [bind_of_error hfound]
  | ok found c₁ =>
    rw [bind_of_ok hfound]
    cases found <;> rfl

/-- What does not change with one step more, from `enough` on, does not change any more. -/
theorem eq_of_succ_eq {α : Type} {f : Nat → α} {enough : Nat}
    (h : ∀ n, enough ≤ n → f (n + 1) = f n) {n : Nat} (hn : enough ≤ n) : f n = f enough := by
  obtain ⟨extra, rfl⟩ := Nat.exists_eq_add_of_le hn
  induction extra with
  | zero => rfl
  | succ extra ih => rw [← Nat.add_assoc, h _ (by omega), ih (by omega)]

theorem readRest_of_lt {c : Cursor} {fuel : Nat} (h : c.size < fuel) :
    readRest fuel c = readRest (c.size + 1) c :=
  eq_of_succ_eq (f := fun n => readRest n c) (fun _ hn => readRest_succ hn) h

end LiveLisp.Reading
