import LiveLisp.Proofs.Reading.Lines
import LiveLisp.Proofs.Reading.Recovery
/-!
# Texts one after the other

What is read from the beginning of a text does not depend on what comes after, as long as it ends
with a form or between forms.  So a text after another one, on a line of its own, is read as if it
stood alone, further down.
-/

namespace LiveLisp.Reading

open Fallible
open Text (Position)

/-! ## More lines to come -/

namespace Cursor

/-- The same place with `more` lines behind those to come. -/
def extend (more : List Line) (c : Cursor) : Cursor := { c with pending := c.pending ++ more }

/-- The number of lines of the input, as far as no line fails. -/
def lines (c : Cursor) : Nat := c.line + c.pending.length

@[simp] theorem extend_rest (more : List Line) (c : Cursor) : (c.extend more).rest = c.rest := rfl

@[simp] theorem extend_ended (more : List Line) (c : Cursor) :
    (c.extend more).ended = c.ended := rfl

theorem pendingSize_append (lines more : List Line) :
    pendingSize (lines ++ more) = pendingSize lines + pendingSize more := by
  induction lines with
  | nil => simp [pendingSize]
  | cons line lines ih => cases line <;> simp only [List.cons_append, pendingSize, ih] <;> omega

theorem size_extend (more : List Line) (c : Cursor) :
    (c.extend more).size = c.size + pendingSize more := by
  simp only [size, extend, pendingSize_append]
  omega

end Cursor

/-- Where the input ends, every step stays. -/
def StaysAtEnd (c c' : Cursor) : Prop := c.AtEnd → c'.AtEnd

instance : Std.Refl StaysAtEnd := ⟨fun _ h => h⟩

instance : Trans StaysAtEnd StaysAtEnd StaysAtEnd := ⟨fun h h' => h' ∘ h⟩

theorem onward_staysAtEnd : Onward StaysAtEnd where
  noLine c prompt _ hended _ hend := absurd hend.1 (by simp [hended])
  failed c prompt reason more _ hended _ hend := absurd hend.1 (by simp [hended])
  line c prompt cs more _ hended _ hend := absurd hend.1 (by simp [hended])
  advance c n hend := ⟨hend.1, by simp [hend.2]⟩
  discardLine c hend := ⟨hend.1, rfl⟩

/-- `x` leads from `c` to `c'`, not at the end of the input, and does so as well with `more` lines
behind. -/
structure Extended {α : Type} (more : List Line) (x : Reader α) (c : Cursor) (a : α) (c' : Cursor) :
    Prop where
  ended : c'.ended = false
  lines : c'.lines = c.lines
  run : x (c.extend more) = .ok a (c'.extend more)

section Extended

variable (more : List Line) {c c₁ c' : Cursor}

variable {more} in
theorem Extended.bind {α β : Type} {x : Reader α} {k : α → Reader β} {a : α} {b : β}
    (h : Extended more x c a c₁) (hk : Extended more (k a) c₁ b c') :
    Extended more (x >>= k) c b c' :=
  ⟨hk.ended, hk.lines.trans h.lines, by rw [bind_of_ok h.run]; exact hk.run⟩

/-- A line that is found is found as well with more lines behind it. -/
theorem Extended.line (prompt : String) {cs : List Char} {rest : List Line}
    (hended : c.ended = false) (hpending : c.pending = .text cs :: rest) :
    Extended more (fetch prompt) c true (c.atLine prompt cs rest) := by
  refine ⟨hended, ?_, ?_⟩
  · simp only [Cursor.lines, Cursor.atLine, hpending, List.length_cons]
    omega
  · have hmore : (c.extend more).pending = .text cs :: (rest ++ more) := by
      simp [Cursor.extend, hpending]
    exact fetch_of_text hended hmore

theorem extended_peek {r : Option Char} (hended : c.ended = false) (h : peek c = .ok r c') :
    c'.AtEnd ∨ Extended more peek c r c' := by
  cases hrest : c.rest with
  | cons ch cs =>
    rw [peek_of_cons hrest] at h
    obtain ⟨rfl, rfl⟩ := EStateM.Result.ok.inj h
    exact .inr ⟨hended, rfl, peek_of_cons hrest⟩
  | nil =>
    rw [peek_of_nil hrest] at h
    cases hpending : c.pending with
    | nil =>
      rw [fetch_of_nil hended hpending] at h
      obtain ⟨rfl, rfl⟩ := EStateM.Result.ok.inj h
      exact .inl ⟨rfl, hrest⟩
    | cons line rest =>
      cases line with
      | failed reason => simp [fetch_of_failed hended hpending] at h
      | text cs =>
        have hline := Extended.line more continuationPrompt hended hpending
        rw [fetch_of_text hended hpending] at h
        obtain ⟨rfl, rfl⟩ := EStateM.Result.ok.inj h
        refine .inr ⟨hline.ended, hline.lines, ?_⟩
        rw [peek_of_nil (c := c.extend more) hrest, hline.run]
        rfl

/-- A reader that does not come to the end of the input does the same with more lines to come. -/
theorem Made.extended {α : Type} {ending : Bool} {x : Reader α} (hx : Made ending x) {a : α}
    (hended : c.ended = false) (h : x c = .ok a c') :
    ending = true ∧ c'.AtEnd ∨ Extended more x c a c' := by
  induction hx generalizing c c' with
  | pure b =>
    obtain ⟨rfl, rfl⟩ := pure_eq_ok.mp h
    exact .inr ⟨hended, rfl, rfl⟩
  | throw e => exact absurd h throw_ne_ok
  | peek => exact (extended_peek more hended h).imp_left fun hend => ⟨rfl, hend⟩
  | skip n =>
    obtain ⟨rfl, rfl⟩ := EStateM.Result.ok.inj h
    exact .inr ⟨hended, rfl, rfl⟩
  | discardLine =>
    obtain ⟨rfl, rfl⟩ := EStateM.Result.ok.inj h
    exact .inr ⟨hended, rfl, rfl⟩
  | currentPosition =>
    obtain ⟨rfl, rfl⟩ := EStateM.Result.ok.inj h
    exact .inr ⟨hended, rfl, rfl⟩
  | takeUntil stop =>
    obtain ⟨rfl, rfl⟩ := EStateM.Result.ok.inj h
    exact .inr ⟨hended, rfl, rfl⟩
  | atDiscard =>
    refine .inr ?_
    obtain ⟨rfl, -⟩ := atDiscard_eq_ok h
    refine ⟨hended, rfl, ?_⟩
    unfold Reading.atDiscard at h ⊢
    simp only [Cursor.extend_rest]
    split at h
    · obtain ⟨rfl, -⟩ := EStateM.Result.ok.inj h
      rfl
    · obtain ⟨rfl, -⟩ := EStateM.Result.ok.inj h
      rfl
  | bind _ hk ihx ihk =>
    obtain ⟨b, c₁, hfirst, hrest⟩ := bind_eq_ok.mp h
    rcases ihx hended hfirst with ⟨hending, hend⟩ | hext
    · exact .inl ⟨hending, (onward_staysAtEnd.made (hk b)).of_ok hrest hend⟩
    · exact (ihk b hext.ended hrest).imp_right hext.bind
  | weaken _ ih =>
    rcases ih hended h with ⟨hending, -⟩ | hext
    · exact absurd hending (by simp)
    · exact .inr hext
  | before _ _ hend ihx ihk =>
    -- The first part may come to the end of the input, but then the second one fails.
    obtain ⟨b, c₁, hfirst, hrest⟩ := bind_eq_ok.mp h
    rcases ihx hended hfirst with ⟨-, hatEnd⟩ | hext
    · exact absurd hrest (hend c b c₁ hfirst hatEnd _ _)
    · exact (ihk b hext.ended hrest).imp_right hext.bind

theorem Made.extended_of_false {α : Type} {x : Reader α} (hx : Made false x) {a : α}
    (hended : c.ended = false) (h : x c = .ok a c') : Extended more x c a c' := by
  rcases hx.extended more hended h with ⟨hending, -⟩ | hext
  · exact absurd hending (by simp)
  · exact hext

end Extended

/-! ## Whole reads -/

section Whole

variable (more : List Line) {c c' : Cursor}

theorem extended_approach {prompt : String} {fuel : Nat} {found : Approach}
    (hended : c.ended = false) (h : approach prompt fuel c = .ok found c')
    (hne : found ≠ .streamEnd) : Extended more (approach prompt fuel) c found c' := by
  induction fuel generalizing c with
  | zero =>
    obtain ⟨rfl, -⟩ := pure_eq_ok.mp h
    exact absurd rfl hne
  | succ fuel ih =>
    cases hrest : c.rest with
    | nil =>
      rw [approach_of_nil _ _ hrest] at h
      cases hpending : c.pending with
      | nil =>
        rw [fetch_of_nil hended hpending] at h
        obtain ⟨rfl, -⟩ := EStateM.Result.ok.inj h
        exact absurd rfl hne
      | cons line rest =>
        cases line with
        | failed reason => simp [fetch_of_failed hended hpending] at h
        | text cs =>
          have hline := Extended.line more prompt hended hpending
          rw [fetch_of_text hended hpending] at h
          have hext := ih hline.ended h
          refine ⟨hext.ended, hext.lines.trans hline.lines, ?_⟩
          rw [approach_of_nil _ _ (c := c.extend more) hrest, hline.run]
          exact hext.run
    | cons ch cs =>
      have hmore := approach_of_cons prompt fuel (c := c.extend more) hrest
      rw [approach_of_cons _ _ hrest] at h
      split_ifs at h hmore with hline hcomment hseparator
      · obtain ⟨rfl, rfl⟩ := EStateM.Result.ok.inj h
        exact ⟨hended, rfl, hmore⟩
      · obtain ⟨rfl, rfl⟩ := EStateM.Result.ok.inj h
        exact ⟨hended, rfl, hmore⟩
      · have hext := ih (c := c.advance 1) hended h
        exact ⟨hext.ended, hext.lines, hmore.trans hext.run⟩
      · obtain ⟨rfl, rfl⟩ := EStateM.Result.ok.inj h
        exact ⟨hended, rfl, hmore⟩

/-- Where the input has ended, going to the next form goes on with the lines behind. -/
theorem approach_extend_of_streamEnd {prompt : String} {fuel : Nat} (hended : c.ended = false)
    (hfuel : c.size < fuel) (h : approach prompt fuel c = .ok .streamEnd c') :
    ∃ d : Cursor, d.Awaits more c.lines ∧ ∀ n, (c.extend more).size < n →
      approach prompt n (c.extend more) = approach prompt (d.size + 1) d := by
  induction fuel generalizing c with
  | zero => omega
  | succ fuel ih =>
    cases hrest : c.rest with
    | nil =>
      rw [approach_of_nil _ _ hrest] at h
      cases hpending : c.pending with
      | nil =>
        refine ⟨c.extend more, ⟨hrest, by simp [Cursor.extend, hpending], hended, ?_⟩, ?_⟩
        · simp [Cursor.extend, Cursor.lines, hpending]
        · exact fun n hn => approach_of_lt prompt hn
      | cons line rest =>
        cases line with
        | failed reason => simp [fetch_of_failed hended hpending] at h
        | text cs =>
          have hline := Extended.line more prompt hended hpending
          rw [fetch_of_text hended hpending] at h
          have hlt : (c.atLine prompt cs rest).size < c.size := Cursor.size_atLine_lt hpending
          obtain ⟨d, hd, hrun⟩ := ih hline.ended (by omega) h
          rw [hline.lines] at hd
          refine ⟨d, hd, fun n hn => ?_⟩
          obtain ⟨n, rfl⟩ : ∃ m, n = m + 1 := ⟨n - 1, by omega⟩
          rw [approach_of_nil _ _ (c := c.extend more) hrest, hline.run]
          exact hrun n (by rw [Cursor.size_extend] at hn ⊢; omega)
    | cons ch cs =>
      have hone := Cursor.size_advance_one hrest
      rw [approach_of_cons _ _ hrest] at h
      split_ifs at h with hline hcomment hseparator
      · exact absurd (EStateM.Result.ok.inj h).1 (by simp)
      · exact absurd (EStateM.Result.ok.inj h).1 (by simp)
      · obtain ⟨d, hd, hrun⟩ := ih (c := c.advance 1) hended (by omega) h
        refine ⟨d, hd, fun n hn => ?_⟩
        obtain ⟨n, rfl⟩ : ∃ m, n = m + 1 := ⟨n - 1, by omega⟩
        rw [approach_of_cons _ _ (c := c.extend more) hrest, if_neg hline, if_neg hcomment,
          if_pos hseparator]
        exact hrun n (by rw [Cursor.size_extend] at hn ⊢; omega)
      · exact absurd (EStateM.Result.ok.inj h).1 (by simp)

theorem skipLineEnd_extend (c : Cursor) :
    (skipLineEnd c).ended = c.ended ∧ (skipLineEnd c).lines = c.lines ∧
      skipLineEnd (c.extend more) = (skipLineEnd c).extend more := by
  unfold skipLineEnd
  simp only [Cursor.extend_rest, apply_ite Cursor.ended, apply_ite Cursor.lines,
    apply_ite (Cursor.extend more)]
  exact ⟨ite_self _, ite_self _, rfl⟩

theorem extended_enter {found : Approach} {outcome : Outcome} (hended : c.ended = false)
    (h : enter found c = .ok outcome c') : Extended more (enter found) c outcome c' := by
  cases found with
  | lineStart =>
    obtain ⟨rfl, rfl⟩ := pure_eq_ok.mp h
    exact ⟨hended, rfl, rfl⟩
  | streamEnd =>
    obtain ⟨rfl, rfl⟩ := pure_eq_ok.mp h
    exact ⟨hended, rfl, rfl⟩
  | body =>
    have hsize := Cursor.size_extend more c
    have hsteps : readForm (c.extend more).steps c = readForm c.steps c :=
      readForm_of_le (by unfold Cursor.steps; omega)
    unfold enter at h
    cases hform : readForm c.steps c with
    | error e c₁ => simp [hform] at h
    | ok f c₁ =>
      simp only [hform] at h
      obtain ⟨rfl, rfl⟩ := EStateM.Result.ok.inj h
      have hread : Extended more _ c f c₁ :=
        (madeAll _).form.extended_of_false more hended (hsteps.trans hform)
      obtain ⟨hend, hlines, hskip⟩ := skipLineEnd_extend more c₁
      refine ⟨hend.trans hread.ended, hlines.trans hread.lines, ?_⟩
      simp only [enter, hread.run, hskip]

/-- A read that does not find the end of the input does the same with more lines to come. -/
theorem extended_read {prompt : String} {outcome : Outcome} (hended : c.ended = false)
    (h : read prompt c = .ok outcome c') (hne : outcome ≠ .streamEnd) :
    Extended more (read prompt) c outcome c' := by
  have hlt : c.size < (c.extend more).size + 1 := by
    rw [Cursor.size_extend]
    omega
  rw [read_eq prompt hlt] at h
  obtain ⟨found, c₁, happroach, henter⟩ := bind_eq_ok.mp h
  have hfound : found ≠ .streamEnd := by
    rintro rfl
    exact hne (pure_eq_ok.mp henter).1.symm
  have hcome := extended_approach more hended happroach hfound
  have hext := hcome.bind (extended_enter more hcome.ended henter)
  refine ⟨hext.ended, hext.lines, ?_⟩
  rw [read_eq prompt (Nat.lt_succ_self _)]
  exact hext.run

/-- A read that finds the end of the input goes on with more lines, if there are some. -/
theorem read_extend_of_streamEnd {prompt : String} (hended : c.ended = false)
    (h : read prompt c = .ok .streamEnd c') :
    ∃ d : Cursor, d.Awaits more c.lines ∧ read prompt (c.extend more) = read prompt d := by
  rw [read_eq prompt (Nat.lt_succ_self _)] at h
  obtain ⟨found, c₁, happroach, henter⟩ := bind_eq_ok.mp h
  obtain rfl : found = .streamEnd := by
    cases found with
    | streamEnd => rfl
    | lineStart => exact absurd (pure_eq_ok.mp henter).1 (by simp)
    | body => cases hform : readForm c₁.steps c₁ <;> simp [enter, hform] at henter
  obtain ⟨d, hd, hrun⟩ := approach_extend_of_streamEnd more hended (Nat.lt_succ_self _) happroach
  refine ⟨d, hd, ?_⟩
  rw [read_eq prompt (Nat.lt_succ_self _), read_eq prompt (Nat.lt_succ_self _)]
  exact bind_congr_of_ok (hrun _ (Nat.lt_succ_self _)) fun _ _ _ => rfl

/-! ## Whole inputs -/

theorem readRest_extend {fuel : Nat} {forms : List Form} (hended : c.ended = false)
    (hfuel : c.size < fuel) (h : readRest fuel c = .ok forms) :
    ∃ d : Cursor, d.Awaits more c.lines ∧ ∀ n, (c.extend more).size < n →
      readRest n (c.extend more) = (readRest (d.size + 1) d).map (forms ++ ·) := by
  induction fuel generalizing c forms with
  | zero => omega
  | succ fuel ih =>
    rw [readRest] at h
    cases hread : read "" c with
    | error e c₁ => simp [hread] at h
    | ok outcome c₁ =>
      simp only [hread] at h
      cases outcome with
      | streamEnd =>
        obtain rfl : [] = forms := Except.ok.inj h
        obtain ⟨d, hd, hrun⟩ := read_extend_of_streamEnd more hended hread
        refine ⟨d, hd, fun n hn => ?_⟩
        obtain ⟨n, rfl⟩ : ∃ m, n = m + 1 := ⟨n - 1, by omega⟩
        have hsize := hd.size
        rw [Cursor.size_extend] at hn
        -- Here the first input is over: all that is left is what the lines behind give.
        have hsame : readRest (n + 1) (c.extend more) = readRest (n + 1) d := by
          rw [readRest, readRest, hrun]
        rw [hsame, readRest_of_lt (by omega)]
        cases readRest (d.size + 1) d <;> rfl
      | lineStart =>
        have hext := extended_read more hended hread (by simp)
        have hlt := size_read_lt hread (by simp)
        obtain ⟨d, hd, hrun⟩ := ih hext.ended (by omega) h
        rw [hext.lines] at hd
        refine ⟨d, hd, fun n hn => ?_⟩
        obtain ⟨n, rfl⟩ : ∃ m, n = m + 1 := ⟨n - 1, by omega⟩
        rw [Cursor.size_extend] at hn
        rw [readRest, hext.run]
        exact hrun n (by rw [Cursor.size_extend]; omega)
      | form f =>
        have hext := extended_read more hended hread (by simp)
        have hlt := size_read_lt hread (by simp)
        cases hrest : readRest fuel c₁ with
        | error e => simp [hrest, Except.map] at h
        | ok rest =>
          obtain rfl : f :: rest = forms := by simpa [hrest, Except.map] using h
          obtain ⟨d, hd, hrun⟩ := ih hext.ended (by omega) hrest
          rw [hext.lines] at hd
          refine ⟨d, hd, fun n hn => ?_⟩
          obtain ⟨n, rfl⟩ : ∃ m, n = m + 1 := ⟨n - 1, by omega⟩
          rw [Cursor.size_extend] at hn
          rw [readRest, hext.run]
          simp only
          rw [hrun n (by rw [Cursor.size_extend]; omega)]
          cases readRest (d.size + 1) d <;> rfl

end Whole

/-- The forms of an input of which nothing has been read. -/
def readLines (lines : List Line) : Except ReadError (List Form) :=
  readRest ((Cursor.ofLines lines).size + 2) (Cursor.ofLines lines)

theorem Cursor.Awaits.readRest {more : List Line} {n : Nat} {d : Cursor} (hd : d.Awaits more n) :
    readRest (d.size + 1) d = movedAll n (readLines more) := by
  have hlower : ((Cursor.ofLines more).down n d.prompts).Awaits more n :=
    ⟨rfl, rfl, rfl, Nat.zero_add n⟩
  have hsize : d.size = (Cursor.ofLines more).size := hd.size.trans hlower.size.symm
  have hmore : readLines more = Reading.readRest ((Cursor.ofLines more).size + 1) (.ofLines more) :=
    readRest_of_lt (by omega)
  have hlike := Cursor.Like.awaits hd hlower (List.append_nil _).symm
  rw [hlike.readRest, readRest_down, hsize, hmore]

theorem readLines_append {lines : List Line} {forms : List Form} (h : readLines lines = .ok forms)
    (more : List Line) :
    readLines (lines ++ more) = (movedAll lines.length (readLines more)).map (forms ++ ·) := by
  obtain ⟨d, hd, hrun⟩ := readRest_extend more (c := .ofLines lines) rfl (by omega) h
  have hlength : (Cursor.ofLines lines).lines = lines.length := Nat.zero_add _
  rw [hlength] at hd
  rw [← hd.readRest]
  exact hrun _ (Nat.lt_add_of_pos_right (by omega))

/-- The lines of a text that is followed by another one, on a line of its own. -/
theorem readLines_pieces {text : String} {forms : List Form} (h : readAll text = .ok forms) :
    readLines ((text.toList.splitOn '\n').map fun piece => .text (piece ++ ['\n'])) =
      .ok forms := by
  have hlines : readLines (linesOfText text) = .ok forms := h
  rw [linesOfText_eq] at hlines
  rcases fullPieces_cases (text.toList.splitOn '\n') with hfull | hfull
  · rw [hfull]
    exact hlines
  · have hblank : readLines [.text ['\n']] = .ok [] := rfl
    rw [hfull, List.map_append, readLines_append hlines, List.map_singleton, List.nil_append,
      hblank]
    exact congrArg Except.ok (List.append_nil forms)

/-- A text after a text that can be read, on a line of its own, is read as if it stood alone, only
further down. -/
theorem readAll_append {a : String} {fa : List Form} (ha : readAll a = .ok fa) (b : String) :
    readAll (a ++ "\n" ++ b) =
      match readAll b with
      | .ok fb => .ok (fa ++ fb.map (Form.down (a.toList.count '\n' + 1)))
      | .error e => .error (e.down (a.toList.count '\n' + 1)) := by
  have hlines : linesOfText (a ++ "\n" ++ b) =
      ((a.toList.splitOn '\n').map fun piece => .text (piece ++ ['\n'])) ++ linesOfText b := by
    have htext : (a ++ "\n" ++ b).toList = a.toList ++ '\n' :: b.toList := by simp
    rw [linesOfText_eq, linesOfText_eq, htext, List.splitOn_append_cons_self,
      fullPieces_append _ (List.splitOn_ne_nil _ _), List.map_append]
  change readLines (linesOfText (a ++ "\n" ++ b)) = match readLines (linesOfText b) with
    | .ok fb => _
    | .error e => _
  rw [hlines, readLines_append (readLines_pieces ha), List.length_map, Text.length_splitOn]
  cases readLines (linesOfText b) <;> rfl

/-- A backslash at the end of the first text takes its newline; a vector or an unfinished list on
the second line after it. -/
theorem readAll_append_newline :
    readAll "\\" = .ok [.atom ⟨1, 1⟩ (.char '\n')] ∧
      readAll ("\\" ++ "\n" ++ "\n[]") = .ok [.atom ⟨1, 1⟩ (.char '\n'), .vector ⟨3, 1⟩ []] ∧
      readAll ("\\" ++ "\n" ++ "\n(") = .error (.unexpectedEnd ⟨3, 1⟩) := by
  have hchar : readAll "\\" = .ok [.atom ⟨1, 1⟩ (.char '\n')] := rfl
  have hvector : readAll "\n[]" = .ok [.vector ⟨2, 1⟩ []] := rfl
  have hopen : readAll "\n(" = .error (.unexpectedEnd ⟨2, 1⟩) := rfl
  refine ⟨hchar, ?_, ?_⟩
  · rw [readAll_append hchar, hvector]
    rfl
  · rw [readAll_append hchar, hopen]
    rfl

end LiveLisp.Reading
