import LiveLisp.Proofs.Reading.Endings
/-!
# The pace of reading

Every read comes to an end and passes over something, and takes no more lines than it needs: it
asks for a line at the end of the one before, and for none behind the last character of a form.
-/

namespace LiveLisp.Reading

open Fallible

section Takes

variable {c c' : Cursor} {prompt : String}

/-- A failure that passes over nothing leaves a line to drop. -/
theorem Cursor.Reaches.takes_discardLine (h : c.Reaches c') (hne : c.rest ≠ []) :
    c.Takes c'.discardLine := by
  obtain ⟨passed, hchars, hsame⟩ := h.chars
  by_cases hnil : passed = []
  · have hrest := hsame hnil hne
    exact h.takes (Cursor.takes_discardLine (hrest ▸ hne))
  · exact Cursor.Takes.reaches ⟨passed, hnil, hchars⟩ (onward_reaches.discardLine c')

/-- A read that neither finds the end nor is failed by the input takes a character. -/
theorem takes_of_read (hend : outcome (read prompt) c ≠ .ok .streamEnd)
    (hinput : ∀ reason, outcome (read prompt) c ≠ .error (.input reason)) :
    c.Takes (finalState (read prompt) c) := by
  unfold outcome read at hend hinput
  unfold finalState read
  obtain ⟨c₁, hreach, harrives⟩ := arrives_approach prompt c.size_lt_steps
  generalize approach prompt c.steps c = r at hend hinput harrives ⊢
  cases harrives with
  | lineEnd hrest => exact hreach.takes (Cursor.takes_advance hrest)
  | comment hrest => exact hreach.takes (Cursor.takes_discardLine (by simp [hrest]))
  | noLine => exact absurd rfl hend
  | failed hrest hfetch =>
    obtain ⟨-, reason, rfl⟩ := fetch_eq_error hfetch
    exact absurd rfl (hinput reason)
  | body hrest =>
    dsimp only
    cases hform : readForm c₁.steps c₁ with
    | ok f c₂ =>
      obtain ⟨s, hstart, -, hspan⟩ := (spanned _).form hform
      have htaken := hspan.takes.reaches (onward_reaches.skipLineEnd c₂)
      exact hreach.takes (hstart.takes htaken)
    | error e c₂ =>
      have hfailed := (reaches_of_made (madeAll c₁.steps).form).of_error hform
      exact hreach.takes (hfailed.takes_discardLine hrest)

end Takes

/-! ## The last line -/

theorem spans_of_read {prompt : String} {c c' : Cursor} {f : Form}
    (h : read prompt c = .ok (.form f) c') : ∃ c₁, c.Spans f c₁ ∧ c' = skipLineEnd c₁ := by
  obtain ⟨c₁, c₂, happroach, hform, hc'⟩ := read_eq_form h
  have hreach := (onward_reaches.approach prompt _).of_ok happroach
  exact ⟨c₂, hreach.spans ((spanned _).form hform), hc'⟩

/-! ## Every read -/

/-- What the read with this prompt does from `c` on. -/
structure KeepsPace (prompt : String) (c : Cursor) : Prop where
  /-- The read comes to an end: no more than `c.steps` calls are ever inside each other, whatever
  the readers `r` would do in further ones. -/
  ends : ∀ (r : Readers) (n : Nat), c.steps ≤ n →
    read prompt c = settle ((Readers.unfold^[n] r).begin prompt c)
  /-- It passes over a character, unless the input has ended or fails. -/
  takes : outcome (read prompt) c ≠ .ok .streamEnd →
    (∀ reason, outcome (read prompt) c ≠ .error (.input reason)) →
    c.Takes (finalState (read prompt) c)
  /-- If it asks for more lines than `front`, it comes to the end of a line before: where the input
  fails behind `front`, the read fails there. -/
  asks : ∀ (front back : List Line) (reason : String), c.pending = front ++ back →
    c.prompts.length + front.length < (finalState (read prompt) c).prompts.length →
    ∃ d, unsettled prompt (c.stop front reason) = .error (.input reason) d ∧ d.rest = []
  /-- The form that it gives begins at `s` and closes with the character at `e`.  That is on the
  last line of those asked for, and no more is taken behind it than the end of this line. -/
  gives : ∀ (f : Form) (c' : Cursor), read prompt c = .ok (.form f) c' →
    ∃ (s e : Cursor) (ch : Char) (cs : List Char), c.Reaches s ∧ f.pos = s.position ∧
      s.Reaches e ∧ e.rest = ch :: cs ∧ Closes f ch ∧ c' = skipLineEnd (e.advance 1) ∧
      c'.line = e.line ∧ c'.prompts = e.prompts
  /-- Where it finds the end, all later reads do, and ask for nothing. -/
  stays : ∀ c' : Cursor, read prompt c = .ok .streamEnd c' → ∀ later : List String,
    c'.outcomes later = List.replicate later.length (.ok .streamEnd) ∧ c'.after later = c'
  /-- Reads come to the end, if there are more of them than characters and lines. -/
  arrives : ∀ later : List String, c.size < later.length → .ok .streamEnd ∈ c.outcomes later

/-- Every read comes to an end, passes over something, asks for a line at the end of the one before
only, and gives a form that goes on to the last line asked for; and reads come to the end of the
input, from where on nothing is asked for. -/
theorem read_keepsPace (prompt : String) (c : Cursor) : KeepsPace prompt c where
  ends r n hn := by rw [read_eq_settle, begin_iterate r hn]
  takes := takes_of_read
  asks front back reason hpending hasked := asks_at_line_end hpending hasked reason
  gives f c' h := by
    obtain ⟨c₁, ⟨s, hreach, hpos, e, ch, cs, hspan, hrest, hcloses, rfl⟩, rfl⟩ := spans_of_read h
    exact ⟨s, e, ch, cs, hreach, hpos, hspan, hrest, hcloses, rfl,
      skipLineEnd_same _⟩
  stays c' h later := Cursor.outcomes_of_atEnd (atEnd_of_streamEnd h) later
  arrives later h := Cursor.streamEnd_mem_outcomes h

end LiveLisp.Reading
