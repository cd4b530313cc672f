import LiveLisp.Proofs.Reading.Fuel
/-!
# Reads one after the other

Reads go on where the read before them stopped, whether it gave a form or failed.  Each of them
passes over something, up to the end of the input; from there on nothing changes any more.
-/

namespace LiveLisp.Reading

open Fallible

/-! ## Places further on in the input -/

/-- Whether the line was read, and counts. -/
def Line.isText : Line → Bool
  | .text _ => true
  | .failed _ => false

/-- `c'` is further on in the same input than `c`: the first of the lines to come have been taken,
and their number is kept; characters have been passed over, unless it is the same place of the
line. -/
structure Cursor.Reaches (c c' : Cursor) : Prop where
  lines : ∃ taken, c.pending = taken ++ c'.pending ∧ c'.line = c.line + taken.countP Line.isText
  chars : ∃ passed, c.chars = passed ++ c'.chars ∧
    (passed = [] → c.rest ≠ [] → c'.rest = c.rest)

namespace Cursor

variable {c c' c'' : Cursor}

theorem Reaches.refl (c : Cursor) : c.Reaches c :=
  ⟨⟨[], rfl, rfl⟩, ⟨[], rfl, fun _ _ => rfl⟩⟩

theorem Reaches.trans (h : c.Reaches c') (h' : c'.Reaches c'') : c.Reaches c'' := by
  obtain ⟨⟨taken, hpending, hline⟩, passed, hchars, hsame⟩ := h
  obtain ⟨⟨taken', hpending', hline'⟩, passed', hchars', hsame'⟩ := h'
  refine ⟨⟨taken ++ taken', ?_, ?_⟩, passed ++ passed', ?_, ?_⟩
  · rw [hpending, hpending', List.append_assoc]
  · rw [hline', hline, List.countP_append, Nat.add_assoc]
  · rw [hchars, hchars', List.append_assoc]
  · intro hnil hrest
    obtain ⟨rfl, rfl⟩ := List.append_eq_nil_iff.mp hnil
    have hfirst := hsame rfl hrest
    exact (hsame' rfl (hfirst ▸ hrest)).trans hfirst

instance : Std.Refl Reaches := ⟨Reaches.refl⟩

instance : Trans Reaches Reaches Reaches := ⟨Reaches.trans⟩

/-- Going on in the current line. -/
theorem reaches_of_drop {passed rest : List Char} {taken : Nat} (h : c.rest = passed ++ rest) :
    c.Reaches { c with rest := rest, taken := taken } := by
  refine ⟨⟨[], rfl, rfl⟩, passed, ?_, ?_⟩
  · simp only [chars, h, List.append_assoc]
  · rintro rfl -
    exact h.symm

end Cursor

/-- No step goes back. -/
theorem onward_reaches : Onward Cursor.Reaches where
  noLine c prompt hrest hended hpending := ⟨⟨[], rfl, rfl⟩, [], rfl, fun _ _ => rfl⟩
  failed c prompt reason more hrest hended hpending := by
    refine ⟨⟨[.failed reason], hpending, rfl⟩, [], ?_, fun _ _ => rfl⟩
    simp [Cursor.chars, hpending, Line.chars]
  line c prompt cs more hrest hended hpending := by
    refine ⟨⟨[.text cs], hpending, rfl⟩, [], ?_, fun _ hne => absurd hrest hne⟩
    simp [Cursor.chars, Cursor.atLine, hrest, hpending, Line.chars]
  advance c n := Cursor.reaches_of_drop (List.take_append_drop n c.rest).symm
  discardLine c := Cursor.reaches_of_drop (List.append_nil c.rest).symm

/-- Input that has ended is not asked again. -/
def Quiet (c c' : Cursor) : Prop :=
  c.ended = true → c'.ended = true ∧ c'.pending = c.pending ∧ c'.prompts = c.prompts

instance : Std.Refl Quiet := ⟨fun _ h => ⟨h, rfl, rfl⟩⟩

instance : Trans Quiet Quiet Quiet where
  trans h h' hended := by
    obtain ⟨hended', hpending, hprompts⟩ := h hended
    obtain ⟨hended'', hpending', hprompts'⟩ := h' hended'
    exact ⟨hended'', hpending'.trans hpending, hprompts'.trans hprompts⟩

theorem onward_quiet : Onward Quiet where
  noLine c prompt _ hended _ h := absurd h (by simp [hended])
  failed c prompt reason more _ hended _ h := absurd h (by simp [hended])
  line c prompt cs more _ hended _ h := absurd h (by simp [hended])
  advance c n h := ⟨h, rfl, rfl⟩
  discardLine c h := ⟨h, rfl, rfl⟩

/-! ## The end of the input -/

section AtEnd

variable {c c' : Cursor} {prompt : String}

/-- How going to the next form ends at `c`: with a line, at a form, or where no line comes. -/
inductive Arrives (prompt : String) (c : Cursor) : EStateM.Result ReadError Cursor Approach → Prop
  | lineEnd {cs : List Char} (hrest : c.rest = '\n' :: cs) :
    Arrives prompt c (.ok .lineStart (c.advance 1))
  | comment {cs : List Char} (hrest : c.rest = ';' :: cs) :
    Arrives prompt c (.ok .lineStart c.discardLine)
  | body (hrest : c.rest ≠ []) : Arrives prompt c (.ok .body c)
  | noLine {c' : Cursor} (hrest : c.rest = []) (h : fetch prompt c = .ok false c') :
    Arrives prompt c (.ok .streamEnd c')
  | failed {e : ReadError} {c' : Cursor} (hrest : c.rest = []) (h : fetch prompt c = .error e c') :
    Arrives prompt c (.error e c')

/-- Before going to the next form ends, it only goes on. -/
theorem arrives_approach (prompt : String) {fuel : Nat} (hfuel : c.size < fuel) :
    ∃ c₁, c.Reaches c₁ ∧ Arrives prompt c₁ (approach prompt fuel c) := by
  induction fuel generalizing c with
  | zero => omega
  | succ fuel ih =>
    cases hrest : c.rest with
    | nil =>
      have hreach := onward_reaches.fetch prompt hrest
      have hfetched := fetched prompt c
      rw [approach_of_nil _ _ hrest]
      cases hfetch : fetch prompt c with
      | error e c₁ => exact ⟨c, .refl c, .failed hrest hfetch⟩
      | ok found c₁ =>
        rw [finalState_of_ok hfetch] at hreach
        rw [hfetch] at hfetched
        cases hfetched with
        | noLine => exact ⟨c, .refl c, .noLine hrest hfetch⟩
        | line _ hlt =>
          obtain ⟨c₂, hreach', harrives⟩ := ih (c := c₁) (by omega)
          exact ⟨c₂, hreach.trans hreach', harrives⟩
    | cons ch cs =>
      have hone := Cursor.size_advance_one hrest
      rw [approach_of_cons _ _ hrest]
      split_ifs with hnewline hcomment
      · exact ⟨c, .refl c, .lineEnd (hnewline ▸ hrest)⟩
      · exact ⟨c, .refl c, .comment (hcomment ▸ hrest)⟩
      · obtain ⟨c₁, hreach, harrives⟩ := ih (c := c.advance 1) (by omega)
        exact ⟨c₁, (onward_reaches.advance c 1).trans hreach, harrives⟩
      · exact ⟨c, .refl c, .body (by simp [hrest])⟩

/-- The end is reported only where the input has ended. -/
theorem atEnd_of_streamEnd (h : read prompt c = .ok .streamEnd c') : c'.AtEnd := by
  rw [read_eq prompt (Nat.lt_succ_self _)] at h
  obtain ⟨c₁, -, harrives⟩ := arrives_approach prompt (Nat.lt_succ_self c.size)
  obtain ⟨found, c₂, happroach, henter⟩ := bind_eq_ok.mp h
  rw [happroach] at harrives
  cases harrives with
  | lineEnd => exact absurd (pure_eq_ok.mp henter).1 (by simp)
  | comment => exact absurd (pure_eq_ok.mp henter).1 (by simp)
  | body => cases hform : readForm c₁.steps c₁ <;> simp [enter, hform] at henter
  | noLine hrest hfetch =>
    obtain ⟨-, rfl⟩ := pure_eq_ok.mp henter
    exact ((fetch_eq_ok hrest hfetch).1 rfl).symm

theorem approach_of_atEnd (fuel : Nat) (h : c.AtEnd) :
    approach prompt (fuel + 1) c = .ok .streamEnd c := by
  rw [approach_of_nil _ _ h.2, fetch_of_ended h.1]

/-- Where the input has ended, a read changes nothing. -/
theorem read_of_atEnd (prompt : String) (h : c.AtEnd) : read prompt c = .ok .streamEnd c := by
  rw [read_eq prompt (Nat.lt_succ_self _), bind_of_ok (approach_of_atEnd _ h)]
  rfl

end AtEnd

/-! ## Many reads -/

namespace Cursor

/-- Where the cursor stands after reads with these prompts, of which some may fail. -/
def after (c : Cursor) (prompts : List String) : Cursor :=
  prompts.foldl (fun c prompt => finalState (read prompt) c) c

/-- What reads with these prompts come to. -/
def outcomes (c : Cursor) : List String → List (Except ReadError Outcome)
  | [] => []
  | prompt :: more => outcome (read prompt) c :: outcomes (finalState (read prompt) c) more

theorem relates_after {R : Cursor → Cursor → Prop} [Std.Refl R] [Trans R R R] (hR : Onward R)
    (c : Cursor) (prompts : List String) : R c (c.after prompts) := by
  induction prompts generalizing c with
  | nil => exact Std.Refl.refl c
  | cons prompt prompts ih => exact Trans.trans (hR.read prompt c) (ih _)

/-- Where reads lead, input that is not asked again has no more lines. -/
theorem consistent_after (lines : List Line) (prompts : List String) :
    ((ofLines lines).after prompts).Consistent := by
  have hpast := relates_after onward_past (ofLines lines) prompts
  exact hpast.consistent fun hended => absurd hended (by simp [ofLines])

/-- Where the input has ended, all reads report this and change nothing. -/
theorem outcomes_of_atEnd {c : Cursor} (h : c.AtEnd) (prompts : List String) :
    c.outcomes prompts = List.replicate prompts.length (.ok .streamEnd) ∧ c.after prompts = c := by
  induction prompts with
  | nil => exact ⟨rfl, rfl⟩
  | cons prompt prompts ih =>
    have hread := read_of_atEnd prompt h
    have hsame : finalState (read prompt) c = c := finalState_of_ok hread
    have hfirst : outcome (read prompt) c = .ok .streamEnd := by simp only [outcome, hread]
    refine ⟨?_, ?_⟩
    · rw [outcomes, hsame, hfirst, ih.1]
      rfl
    · rw [after, List.foldl_cons, hsame]
      exact ih.2

/-- More reads than there are characters and lines come to the end of the input. -/
theorem streamEnd_mem_outcomes {c : Cursor} {prompts : List String}
    (h : c.size < prompts.length) : .ok .streamEnd ∈ c.outcomes prompts := by
  induction prompts generalizing c with
  | nil => simp at h
  | cons prompt prompts ih =>
    rw [List.length_cons] at h
    have hagain : (finalState (read prompt) c).size < c.size →
        .ok .streamEnd ∈ c.outcomes (prompt :: prompts) :=
      fun hlt => List.mem_cons_of_mem _ (ih (by omega))
    have hprogress := progressed_read prompt c
    unfold finalState at hagain
    cases hread : read prompt c with
    | error e c' =>
      rw [hread] at hprogress hagain
      cases hprogress with
      | failed _ hlt => exact hagain hlt
    | ok found c' =>
      rw [hread] at hprogress hagain
      cases hprogress with
      | read _ _ hlt => exact hagain hlt
      | streamEnd =>
        have hfirst : outcome (read prompt) c = .ok .streamEnd := by simp only [outcome, hread]
        exact List.mem_cons.mpr (.inl hfirst.symm)

end Cursor

end LiveLisp.Reading
