import LiveLisp.Proofs.Reading.Steps
/-!
# Every read gets on

Whether a read succeeds or fails, the cursor does not go back, and unless the input is at its end
less is to come afterwards than before.  The end is reported only when nothing is left.  So what is
still to come bounds the number of reads.
-/

namespace LiveLisp.Reading

open Fallible
open Text (Position)

/-- Input that is not asked again has no more lines. -/
def Cursor.Consistent (c : Cursor) : Prop := c.ended = true → c.pending = []

def Line.chars : Line → List Char
  | .text cs => cs
  | .failed _ => []

/-- The characters that are still to come. -/
def Cursor.chars (c : Cursor) : List Char := c.rest ++ c.pending.flatMap Line.chars

/-- `c'` is where some step led from `c`: less is still to come, or just the same, and no other
characters. -/
structure Cursor.Past (c c' : Cursor) : Prop where
  moved : c'.size < c.size ∨ c'.rest = c.rest ∧ c'.pending = c.pending
  consistent : c.Consistent → c'.Consistent
  chars : c'.chars ⊆ c.chars

namespace Cursor

variable {c c' c'' : Cursor}

theorem Past.refl (c : Cursor) : c.Past c := ⟨.inr ⟨rfl, rfl⟩, id, List.Subset.refl _⟩

theorem Past.size (h : c.Past c') : c'.size ≤ c.size := by
  rcases h.moved with hlt | ⟨hrest, hpending⟩
  · omega
  · simp [Cursor.size, hrest, hpending]

theorem Past.trans (h : c.Past c') (h' : c'.Past c'') : c.Past c'' := by
  refine ⟨?_, h'.consistent ∘ h.consistent, List.Subset.trans h'.chars h.chars⟩
  have hle := h.size
  have hle' := h'.size
  rcases h.moved with hlt | ⟨hrest, hpending⟩
  · exact .inl (by omega)
  · rcases h'.moved with hlt' | ⟨hrest', hpending'⟩
    · exact .inl (by omega)
    · exact .inr ⟨hrest'.trans hrest, hpending'.trans hpending⟩

instance : Std.Refl Past := ⟨Past.refl⟩

instance : Trans Past Past Past := ⟨Past.trans⟩

/-- Passing over some of the current line. -/
theorem past_of_shorter {rest : List Char} {taken : Nat}
    (h : rest.length < c.rest.length ∨ rest = c.rest) (hsubset : rest ⊆ c.rest) :
    c.Past { c with rest := rest, taken := taken } := by
  have hchars : rest ++ c.pending.flatMap Line.chars ⊆ c.chars :=
    List.append_subset.mpr ⟨List.subset_append_of_subset_left _ hsubset,
      List.subset_append_right _ _⟩
  refine ⟨?_, id, hchars⟩
  rcases h with hlt | rfl
  · refine .inl ?_
    simp only [Cursor.size]
    omega
  · exact .inr ⟨rfl, rfl⟩

theorem past_advance (c : Cursor) (n : Nat) : c.Past (c.advance n) := by
  refine past_of_shorter ?_ (List.drop_subset n c.rest)
  cases n with
  | zero => exact .inr rfl
  | succ n =>
    cases hrest : c.rest with
    | nil => exact .inr rfl
    | cons ch cs =>
      refine .inl ?_
      simp only [List.drop_succ_cons, List.length_drop, List.length_cons]
      omega

theorem past_discardLine (c : Cursor) : c.Past c.discardLine := by
  refine past_of_shorter ?_ (List.nil_subset c.rest)
  cases hrest : c.rest with
  | nil => exact .inr rfl
  | cons ch cs => exact .inl (by simp)

/-- What is left of the line is dropped after a failure, so a failure gets on as well. -/
theorem Past.discardLine_lt (h : c.Past c') (hrest : c.rest ≠ []) :
    c'.discardLine.size < c.size := by
  rcases h.moved with hlt | ⟨hsame, hpending⟩
  · have hle := c'.past_discardLine.size
    omega
  · have hle := h.size
    obtain ⟨ch, cs, hcons⟩ := List.exists_cons_of_ne_nil hrest
    have hlt := size_discardLine_lt (hsame.trans hcons)
    omega

end Cursor

open Cursor (Past)

/-! ## Lines and characters -/

/-- What comes of asking for a line. -/
inductive Fetched (c : Cursor) : EStateM.Result ReadError Cursor Bool → Prop
  | line {c' : Cursor} (h : c.Past c') (hlt : c'.size < c.size) : Fetched c (.ok true c')
  | noLine {c' : Cursor} (h : c.Past c') (hrest : c'.rest = c.rest)
    (hpending : c.Consistent → c'.pending = []) : Fetched c (.ok false c')
  | failed {c' : Cursor} {e : ReadError} (h : c.Past c') (hlt : c'.size < c.size) :
    Fetched c (.error e c')

theorem fetched (prompt : String) (c : Cursor) : Fetched c (fetch prompt c) := by
  have hpast : ∀ {c' : Cursor}, c'.size < c.size → c'.ended = false → c'.chars ⊆ c.chars →
      c.Past c' := by
    intro c' hlt hended hchars
    exact ⟨.inl hlt, fun _ h => absurd h (by simp [hended]), hchars⟩
  cases hended : c.ended with
  | true =>
    rw [fetch_of_ended hended]
    exact .noLine (Past.refl c) rfl fun hc => hc hended
  | false =>
    cases hpending : c.pending with
    | nil =>
      rw [fetch_of_nil hended hpending]
      exact .noLine ⟨.inr ⟨rfl, rfl⟩, fun _ _ => hpending, List.Subset.refl _⟩ rfl
        fun _ => hpending
    | cons line more =>
      cases line with
      | failed reason =>
        rw [fetch_of_failed hended hpending]
        have hlt : c.rest.length + Cursor.pendingSize more < c.size := by
          simp only [Cursor.size, hpending, Cursor.pendingSize]
          omega
        refine .failed (hpast hlt hended ?_) hlt
        simp [Cursor.chars, hpending, Line.chars]
      | text cs =>
        rw [fetch_of_text hended hpending]
        have hlt : (c.atLine prompt cs more).size < c.size := Cursor.size_atLine_lt hpending
        refine .line (hpast hlt hended ?_) hlt
        simp [Cursor.chars, Cursor.atLine, hpending, Line.chars]

/-- Reading does not go back. -/
theorem onward_past : Onward Past where
  noLine c prompt hrest hended hpending := by
    have hfetched := fetched prompt c
    rw [fetch_of_nil hended hpending] at hfetched
    cases hfetched with
    | noLine hpast => exact hpast
  failed c prompt reason more hrest hended hpending := by
    have hfetched := fetched prompt c
    rw [fetch_of_failed hended hpending] at hfetched
    cases hfetched with
    | failed hpast => exact hpast
  line c prompt cs more hrest hended hpending := by
    have hfetched := fetched prompt c
    rw [fetch_of_text hended hpending] at hfetched
    cases hfetched with
    | line hpast => exact hpast
  advance := Cursor.past_advance
  discardLine := Cursor.past_discardLine

theorem past_of_made {α : Type} {ending : Bool} {x : Reader α} (hx : Made ending x) :
    Relates Past x :=
  onward_past.made hx

/-- A form that was read has been passed over. -/
theorem size_readForm_lt {fuel : Nat} {c c' : Cursor} {f : Form}
    (h : readForm fuel c = .ok f c') : c'.size < c.size := by
  cases fuel with
  | zero => exact absurd h (by simp [readForm])
  | succ fuel =>
    obtain ⟨u, c₁, hskip, hrest⟩ := bind_eq_ok.mp h
    obtain ⟨start, c₂, hstart, hrest⟩ := bind_eq_ok.mp hrest
    obtain ⟨ch, c₃, hnext, hbody⟩ := bind_eq_ok.mp hrest
    have hle₁ := ((past_of_made (madeAll fuel).skip).of_ok hskip).size
    have hle₂ := ((past_of_made .currentPosition).of_ok hstart).size
    have hlt₃ := (before_next hnext).2
    have hmade := made_readBody (madeAll fuel).form ((madeAll fuel).items · start)
      (made_readString start fuel) start ch
    have hle := ((past_of_made hmade).of_ok hbody).size
    omega

/-! ## Whole reads -/

/-- What comes of going to the next form, with `fuel` steps for it. -/
inductive Approached (fuel : Nat) (c : Cursor) : EStateM.Result ReadError Cursor Approach → Prop
  | lineStart {c' : Cursor} (h : c.Past c') (hlt : c'.size < c.size) :
    Approached fuel c (.ok .lineStart c')
  | streamEnd {c' : Cursor} (h : c.Past c')
    (hend : c.size < fuel → c.Consistent → c'.size = 0) : Approached fuel c (.ok .streamEnd c')
  | body {c' : Cursor} (h : c.Past c') (hrest : c'.rest ≠ []) : Approached fuel c (.ok .body c')
  | failed {c' : Cursor} {e : ReadError} (h : c.Past c') (hlt : c'.size < c.size) :
    Approached fuel c (.error e c')

theorem Approached.of_past {fuel : Nat} {c c₁ : Cursor}
    {r : EStateM.Result ReadError Cursor Approach} (h : Approached fuel c₁ r) (hpast : c.Past c₁)
    (hlt : c₁.size < c.size) : Approached (fuel + 1) c r := by
  cases h with
  | lineStart h hlt' => exact .lineStart (hpast.trans h) (by omega)
  | streamEnd h hend =>
    exact .streamEnd (hpast.trans h) fun hfuel hc => hend (by omega) (hpast.consistent hc)
  | body h hrest => exact .body (hpast.trans h) hrest
  | failed h hlt' => exact .failed (hpast.trans h) (by omega)

theorem approached (prompt : String) (fuel : Nat) (c : Cursor) :
    Approached fuel c (approach prompt fuel c) := by
  -- the steps run out only if there were no more of them than input
  induction fuel generalizing c with
  | zero => exact .streamEnd (Past.refl c) fun h => absurd h (by omega)
  | succ fuel ih =>
    unfold approach
    cases hrest : c.rest with
    | nil =>
      simp only
      have hfetched := fetched prompt c
      cases h : fetch prompt c with
      | ok found c₁ =>
        rw [h] at hfetched
        cases hfetched with
        | line hpast hlt => exact (ih c₁).of_past hpast hlt
        | noLine hpast hsame hpending =>
          refine .streamEnd hpast fun _ hc => ?_
          simp [Cursor.size, hsame, hrest, hpending hc, Cursor.pendingSize]
      | error e c₁ =>
        rw [h] at hfetched
        cases hfetched with
        | failed hpast hlt => exact .failed hpast hlt
    | cons ch cs =>
      have hone := Cursor.size_advance_one hrest
      simp only
      split
      · exact .lineStart (c.past_advance 1) (by omega)
      · split
        · exact .lineStart c.past_discardLine (Cursor.size_discardLine_lt hrest)
        · split
          · exact (ih _).of_past (c.past_advance 1) (by omega)
          · exact .body (Past.refl c) (by simp [hrest])

/-- What comes of a read. -/
inductive Progressed (c : Cursor) : EStateM.Result ReadError Cursor Outcome → Prop
  | streamEnd {c' : Cursor} (h : c.Past c') (hend : c.Consistent → c'.size = 0) :
    Progressed c (.ok .streamEnd c')
  | read {c' : Cursor} {outcome : Outcome} (hne : outcome ≠ .streamEnd) (h : c.Past c')
    (hlt : c'.size < c.size) : Progressed c (.ok outcome c')
  | failed {c' : Cursor} {e : ReadError} (h : c.Past c') (hlt : c'.size < c.size) :
    Progressed c (.error e c')

/-- A read passes over something, or finds the end of the input. -/
theorem progressed_read (prompt : String) (c : Cursor) : Progressed c (read prompt c) := by
  have happroach := approached prompt c.steps c
  unfold read
  cases h : approach prompt c.steps c with
  | error e c₁ =>
    rw [h] at happroach
    cases happroach with
    | failed hpast hlt => exact .failed hpast hlt
  | ok a c₁ =>
    rw [h] at happroach
    cases happroach with
    | lineStart hpast hlt => exact .read (by simp) hpast hlt
    | streamEnd hpast hend =>
      exact .streamEnd hpast (hend (by unfold Cursor.steps; omega))
    | body hpast hrest =>
      have hle := hpast.size
      simp only
      cases hform : readForm c₁.steps c₁ with
      | ok f c₂ =>
        have hpast₂ := (past_of_made (madeAll _).form).of_ok hform
        have hlt := size_readForm_lt hform
        have hpast₃ := onward_past.skipLineEnd c₂
        have hle := hpast₃.size
        exact .read (by simp) (hpast.trans (hpast₂.trans hpast₃)) (by omega)
      | error e c₂ =>
        -- the form may fail before it takes anything, so it is the dropped line that counts
        have hpast₂ := (past_of_made (madeAll _).form).of_error hform
        have hlt := hpast₂.discardLine_lt hrest
        exact .failed (hpast.trans (hpast₂.trans c₂.past_discardLine)) (by omega)

end LiveLisp.Reading
