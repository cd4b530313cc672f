import LiveLisp.Proofs.Reading.Alike
import LiveLisp.Proofs.Reading.Joined
import Mathlib.Data.List.Basic
/-!
# Discarded forms between forms

What is passed over before a form is read does not count for the form: separators, comments and
ends of lines, and discarded forms.  So a form that is discarded between two texts is not seen,
as long as another form comes after it.  At the end of the input it is: a discard is passed over
only in search of a form.
-/

namespace LiveLisp.Reading

open Fallible
open Text (Position)

/-! ## What is passed over -/

/-- More steps than are enough pass over the same. -/
theorem skipInsignificant_succ {c : Cursor} {n : Nat} (h : 2 * c.size + 1 ≤ n) :
    skipInsignificant (n + 1) c = skipInsignificant n c :=
  skipInsignificant_of_le h (Nat.le_succ n)

/-- Passing over what stands before `c` leads to the same place as from `d`. -/
structure Cursor.Leads (c d : Cursor) : Prop where
  size : d.size ≤ c.size
  skip : ∀ n, 2 * c.size + 1 ≤ n → skipInsignificant n c = skipInsignificant n d

namespace Cursor.Leads

variable {c d e : Cursor}

theorem refl (c : Cursor) : c.Leads c := ⟨Nat.le_refl _, fun _ _ => rfl⟩

theorem trans (h : c.Leads d) (h' : d.Leads e) : c.Leads e := by
  refine ⟨Nat.le_trans h'.size h.size, fun n hn => ?_⟩
  have hle := h.size
  rw [h.skip n hn, h'.skip n (by omega)]

/-- One step leads to `d`, where less is to come. -/
theorem of_step (hlt : d.size < c.size)
    (hstep : ∀ n, 2 * d.size + 2 ≤ n → skipInsignificant (n + 1) c = skipInsignificant n d) :
    c.Leads d := by
  refine ⟨Nat.le_of_lt hlt, fun n hn => ?_⟩
  obtain ⟨n, rfl⟩ : ∃ m, n = m + 1 := ⟨n - 1, by omega⟩
  rw [hstep n (by omega), skipInsignificant_succ (by omega)]

/-- The form is the same from both places. -/
theorem readForm (h : c.Leads d) : readForm c.steps c = readForm d.steps d := by
  have hle := h.size
  have hsteps : d.steps ≤ c.steps := by
    unfold Cursor.steps
    omega
  obtain ⟨n, hn⟩ : ∃ n, c.steps = n + 1 := ⟨2 * c.size + 3, rfl⟩
  rw [← readForm_of_le hsteps, hn, Reading.readForm]
  refine bind_congr_of_ok (h.skip n ?_) fun _ _ _ => rfl
  unfold Cursor.steps at hn
  omega

end Cursor.Leads

theorem leads_separator {c : Cursor} {ch : Char} {cs : List Char} (hrest : c.rest = ch :: cs)
    (hch : isSeparator ch = true) : c.Leads (c.advance 1) := by
  have hone := Cursor.size_advance_one hrest
  refine .of_step (by omega) fun n _ => ?_
  rw [skipInsignificant, bind_of_ok (peek_of_cons hrest)]
  simp only [hch, if_true]
  rfl

theorem leads_comment {c : Cursor} {cs : List Char} (hrest : c.rest = ';' :: cs) :
    c.Leads c.discardLine := by
  refine .of_step (Cursor.size_discardLine_lt hrest) fun n _ => ?_
  rw [skipInsignificant, bind_of_ok (peek_of_cons hrest)]
  have hseparator : isSeparator ';' = false := by decide
  simp only [hseparator, Bool.false_eq_true, if_false, if_true]
  rfl

theorem leads_line {c : Cursor} {ch : Char} {cs : List Char} {more : List Line}
    (hrest : c.rest = []) (hended : c.ended = false)
    (hpending : c.pending = .text (ch :: cs) :: more) :
    c.Leads (c.atLine continuationPrompt (ch :: cs) more) := by
  have hlt : (c.atLine continuationPrompt (ch :: cs) more).size < c.size :=
    Cursor.size_atLine_lt hpending
  refine ⟨Nat.le_of_lt hlt, fun n hn => ?_⟩
  obtain ⟨n, rfl⟩ : ∃ m, n = m + 1 := ⟨n - 1, by omega⟩
  have hpeek : peek c = .ok (some ch) (c.atLine continuationPrompt (ch :: cs) more) := by
    rw [peek_of_nil hrest, fetch_of_text hended hpending]
    rfl
  have hpeek' : peek (c.atLine continuationPrompt (ch :: cs) more) =
      .ok (some ch) (c.atLine continuationPrompt (ch :: cs) more) := peek_of_cons rfl
  rw [skipInsignificant, bind_of_ok hpeek, bind_of_ok hpeek']

/-- A form that is discarded is passed over. -/
theorem leads_discard {c c' : Cursor} {cs : List Char} {f : Form}
    (hrest : c.rest = '#' :: '_' :: cs)
    (hform : readForm (c.advance 2).steps (c.advance 2) = .ok f c') : c.Leads c' := by
  have htwo : (c.advance 2).size + 2 = c.size := by
    simp only [Cursor.size, Cursor.advance, hrest, List.drop_succ_cons, List.drop_zero,
      List.length_cons]
    omega
  have hlt := size_readForm_lt hform
  have hskip : ∀ n, (c.advance 2).steps ≤ n →
      skipInsignificant (n + 1) c = skipInsignificant n c' := by
    intro n hn
    have hother : isSeparator '#' = false ∧ '#' ≠ ';' := by decide
    have hmark : atDiscard c = .ok true c := by simp [atDiscard, hrest]
    rw [skipInsignificant, bind_of_ok (peek_of_cons hrest)]
    simp only [hother.1, hother.2, Bool.false_eq_true, if_false]
    rw [bind_of_ok hmark, if_pos rfl, bind_of_ok (show skip 2 c = .ok () (c.advance 2) from rfl),
      bind_of_ok ((readForm_of_le hn).trans hform)]
  refine ⟨by omega, fun n hn => ?_⟩
  obtain ⟨n, rfl⟩ : ∃ m, n = m + 1 := ⟨n - 1, by omega⟩
  have hsteps : (c.advance 2).steps = 2 * (c.advance 2).size + 4 := rfl
  rw [hskip n (by omega), skipInsignificant_succ (by omega)]

/-! ## Gaps -/

/-- Separators, comments and ends of lines stand between one place and another, a place being what
is left of a line and the lines to come. -/
inductive Gap : List Char → List Line → List Char → List Line → Prop
  | refl (rest : List Char) (pending : List Line) : Gap rest pending rest pending
  | separator {ch : Char} {cs rest : List Char} {pending more : List Line}
    (hch : isSeparator ch = true) (h : Gap cs pending rest more) : Gap (ch :: cs) pending rest more
  | comment {cs rest : List Char} {pending more : List Line} (h : Gap [] pending rest more) :
    Gap (';' :: cs) pending rest more
  | line {ch : Char} {cs rest : List Char} {pending more : List Line}
    (h : Gap (ch :: cs) pending rest more) : Gap [] (.text (ch :: cs) :: pending) rest more

namespace Gap

variable {r r' r'' : List Char} {p p' p'' : List Line}

theorem trans (h : Gap r p r' p') (h' : Gap r' p' r'' p'') : Gap r p r'' p'' := by
  induction h with
  | refl => exact h'
  | separator hch _ ih => exact .separator hch (ih h')
  | comment _ ih => exact .comment (ih h')
  | line _ ih => exact .line (ih h')

/-- More lines behind make no difference. -/
theorem extend (h : Gap r p r' p') (more : List Line) : Gap r (p ++ more) r' (p' ++ more) := by
  induction h with
  | refl => exact .refl _ _
  | separator hch _ ih => exact .separator hch ih
  | comment _ ih => exact .comment ih
  | line _ ih => exact .line ih

/-- Reading passes over gaps. -/
theorem leads (h : Gap r p r' p') {c : Cursor} (hrest : c.rest = r) (hpending : c.pending = p)
    (hended : c.ended = false) :
    ∃ d : Cursor, c.Leads d ∧ d.rest = r' ∧ d.pending = p' ∧ d.ended = false := by
  induction h generalizing c with
  | refl => exact ⟨c, .refl c, hrest, hpending, hended⟩
  | separator hch _ ih =>
    obtain ⟨d, hd, hplace⟩ := ih (c := c.advance 1) (by simp [hrest]) hpending hended
    exact ⟨d, (leads_separator hrest hch).trans hd, hplace⟩
  | comment _ ih =>
    obtain ⟨d, hd, hplace⟩ := ih (c := c.discardLine) rfl hpending hended
    exact ⟨d, (leads_comment hrest).trans hd, hplace⟩
  | @line ch cs _ pending _ _ ih =>
    obtain ⟨d, hd, hplace⟩ :=
      ih (c := c.atLine continuationPrompt (ch :: cs) pending) rfl rfl hended
    exact ⟨d, (leads_line hrest hended hpending).trans hd, hplace⟩

end Gap

theorem gap_separators {blanks : List Char} (h : ∀ ch ∈ blanks, isSeparator ch = true)
    (rest : List Char) (pending : List Line) : Gap (blanks ++ rest) pending rest pending := by
  induction blanks with
  | nil => exact .refl _ _
  | cons ch blanks ih =>
    obtain ⟨hch, hblanks⟩ := List.forall_mem_cons.mp h
    exact .separator hch (ih hblanks)

theorem gap_skipLineEnd (c : Cursor) :
    Gap c.rest c.pending (skipLineEnd c).rest (skipLineEnd c).pending := by
  unfold skipLineEnd
  dsimp only
  split
  · next hline =>
    have hsplit := List.takeWhile_append_dropWhile
      (p := fun ch => ch != '\n' && isSeparator ch) (l := c.rest)
    have hall : ∀ ch ∈ c.rest.takeWhile (fun ch => ch != '\n' && isSeparator ch),
        isSeparator ch = true := by
      intro ch hch
      have hboth := List.all_eq_true.mp List.all_takeWhile ch hch
      exact (Bool.and_eq_true_iff.mp hboth).2
    generalize c.rest.takeWhile (fun ch => ch != '\n' && isSeparator ch) = blanks at *
    generalize c.rest.dropWhile (fun ch => ch != '\n' && isSeparator ch) = tail at *
    rw [← hsplit, List.drop_left] at hline
    obtain ⟨tail, rfl⟩ := List.head?_eq_some_iff.mp hline
    have hrest : c.rest.drop (blanks.length + 1) = tail := by
      rw [← hsplit, List.drop_append, List.drop_eq_nil_of_le (by omega)]
      simp
    change Gap c.rest c.pending (c.rest.drop (blanks.length + 1)) c.pending
    rw [hrest, ← hsplit]
    exact (gap_separators hall _ _).trans (.separator (by decide) (.refl _ _))
  · exact .refl _ _

theorem Cursor.FullLines.atLine {c : Cursor} (h : c.FullLines) {cs : List Char} {more : List Line}
    (hpending : c.pending = .text cs :: more) (prompt : String) :
    cs ≠ [] ∧ (c.atLine prompt cs more).FullLines := by
  constructor
  · rintro rfl
    exact h (.text []) (by simp [hpending]) rfl
  · intro line hline
    exact h line (by simp [hpending, show line ∈ more from hline])

/-- What is passed over to come to a form, to the end of a line or of the input is a gap. -/
theorem gap_approach {prompt : String} {fuel : Nat} {c c' : Cursor} {found : Approach}
    (hfull : c.FullLines) (hended : c.ended = false) (hfuel : c.size < fuel)
    (h : approach prompt fuel c = .ok found c') :
    Gap c.rest c.pending c'.rest c'.pending ∧
      (found = .streamEnd → c'.rest = [] ∧ c'.pending = []) ∧
      (found = .body → c'.rest ≠ []) := by
  induction fuel generalizing c with
  | zero => omega
  | succ fuel ih =>
    cases hrest : c.rest with
    | nil =>
      rw [approach_of_nil _ _ hrest] at h
      cases hpending : c.pending with
      | nil =>
        rw [fetch_of_nil hended hpending] at h
        obtain ⟨rfl, rfl⟩ := EStateM.Result.ok.inj h
        refine ⟨?_, fun _ => ⟨hrest, hpending⟩, by simp⟩
        rw [hrest, hpending]
        exact .refl _ _
      | cons line more =>
        cases line with
        | failed reason => simp [fetch_of_failed hended hpending] at h
        | text cs =>
          obtain ⟨hne, hfull'⟩ := hfull.atLine hpending prompt
          obtain ⟨ch, cs, rfl⟩ := List.exists_cons_of_ne_nil hne
          have hlt : (c.atLine prompt (ch :: cs) more).size < c.size :=
            Cursor.size_atLine_lt hpending
          rw [fetch_of_text hended hpending] at h
          obtain ⟨hgap, hends⟩ := ih hfull' hended (by omega) h
          exact ⟨.line hgap, hends⟩
    | cons ch cs =>
      have hone := Cursor.size_advance_one hrest
      have hdrop : (c.advance 1).rest = cs := by simp [hrest]
      rw [approach_of_cons _ _ hrest] at h
      split_ifs at h with hline hcomment hseparator
      · obtain ⟨rfl, rfl⟩ := EStateM.Result.ok.inj h
        rw [hdrop]
        exact ⟨.separator (by rw [hline]; decide) (.refl _ _), by simp, by simp⟩
      · obtain ⟨rfl, rfl⟩ := EStateM.Result.ok.inj h
        rw [hcomment]
        exact ⟨.comment (.refl _ _), by simp, by simp⟩
      · obtain ⟨hgap, hends⟩ := ih (c := c.advance 1) hfull hended (by omega) h
        rw [hdrop] at hgap
        exact ⟨.separator hseparator hgap, hends⟩
      · obtain ⟨rfl, rfl⟩ := EStateM.Result.ok.inj h
        rw [← hrest]
        exact ⟨.refl _ _, by simp, fun _ => by simp [hrest]⟩

/-! ## Whole reads -/

/-- What a read passes over before it ends. -/
inductive Comes (c : Cursor) : Outcome → Cursor → Prop
  | lineStart {c' : Cursor} (hgap : Gap c.rest c.pending c'.rest c'.pending) :
    Comes c .lineStart c'
  | streamEnd {c' : Cursor} (hgap : Gap c.rest c.pending [] []) : Comes c .streamEnd c'
  | form {c₁ c₂ : Cursor} {f : Form} (hgap : Gap c.rest c.pending c₁.rest c₁.pending)
    (hrest : c₁.rest ≠ []) (hended : c₁.ended = false) (hform : readForm c₁.steps c₁ = .ok f c₂) :
    Comes c (.form f) (skipLineEnd c₂)

theorem comes_of_read {prompt : String} {c c' : Cursor} {outcome : Outcome} (hfull : c.FullLines)
    (hended : c.ended = false) (h : read prompt c = .ok outcome c') : Comes c outcome c' := by
  rw [read_eq prompt (Nat.lt_succ_self _)] at h
  obtain ⟨found, c₁, happroach, henter⟩ := bind_eq_ok.mp h
  obtain ⟨hgap, hend, hbody⟩ := gap_approach hfull hended (Nat.lt_succ_self _) happroach
  cases found with
  | lineStart =>
    obtain ⟨rfl, rfl⟩ := pure_eq_ok.mp henter
    exact .lineStart hgap
  | streamEnd =>
    obtain ⟨rfl, rfl⟩ := pure_eq_ok.mp henter
    obtain ⟨hrest, hpending⟩ := hend rfl
    rw [hrest, hpending] at hgap
    exact .streamEnd hgap
  | body =>
    have hended₁ := (extended_approach [] hended happroach (by simp)).ended
    simp only [enter] at henter
    cases hform : readForm c₁.steps c₁ with
    | error e c₂ => simp [hform] at henter
    | ok f c₂ =>
      rw [hform] at henter
      obtain ⟨rfl, rfl⟩ := EStateM.Result.ok.inj henter
      exact .form hgap (hbody rfl) hended₁ hform

/-- A read that does not end the input keeps what is needed for the next one. -/
theorem fullLines_of_read {prompt : String} {c c' : Cursor} {outcome : Outcome}
    (hfull : c.FullLines) (hended : c.ended = false) (h : read prompt c = .ok outcome c')
    (hne : outcome ≠ .streamEnd) : c'.FullLines ∧ c'.ended = false :=
  ⟨hfull.of_before ((onward_before.read prompt).of_ok h), (extended_read [] hended h hne).ended⟩

/-- An input without forms is a gap. -/
theorem gap_of_readRest {fuel : Nat} {c : Cursor} (hfull : c.FullLines) (hended : c.ended = false)
    (hfuel : c.size < fuel) (h : readRest fuel c = .ok []) : Gap c.rest c.pending [] [] := by
  induction fuel generalizing c with
  | zero => omega
  | succ fuel ih =>
    rw [readRest] at h
    cases hread : read "" c with
    | error e c₁ => simp [hread] at h
    | ok outcome c₁ =>
      rw [hread] at h
      cases comes_of_read hfull hended hread with
      | lineStart hgap =>
        obtain ⟨hfull₁, hended₁⟩ := fullLines_of_read hfull hended hread (by simp)
        have hlt := size_read_lt hread (by simp)
        exact hgap.trans (ih hfull₁ hended₁ (by omega) h)
      | streamEnd hgap => exact hgap
      | @form _ c₂ => cases hrest : readRest fuel (skipLineEnd c₂) <;> simp [hrest, Except.map] at h

/-- `g` is the first form from `c` on: a gap leads to it, and from `c'` on the rest is read. -/
structure First (c : Cursor) (g : Form) (c' : Cursor) : Prop where
  full : (skipLineEnd c').FullLines
  ended : (skipLineEnd c').ended = false
  size : (skipLineEnd c').size < c.size
  exists_gap : ∃ c₁ : Cursor, Gap c.rest c.pending c₁.rest c₁.pending ∧ c₁.rest ≠ [] ∧
    c₁.ended = false ∧ readForm c₁.steps c₁ = .ok g c'

theorem first_of_readRest {fuel : Nat} {c : Cursor} {g : Form} {gs : List Form}
    (hfull : c.FullLines) (hended : c.ended = false) (hfuel : c.size < fuel)
    (h : readRest fuel c = .ok (g :: gs)) :
    ∃ c', First c g c' ∧ ∀ n, (skipLineEnd c').size < n → readRest n (skipLineEnd c') = .ok gs := by
  induction fuel generalizing c with
  | zero => omega
  | succ fuel ih =>
    rw [readRest] at h
    cases hread : read "" c with
    | error e c₁ => simp [hread] at h
    | ok outcome c₁ =>
      rw [hread] at h
      cases comes_of_read hfull hended hread with
      | lineStart hgap =>
        obtain ⟨hfull₁, hended₁⟩ := fullLines_of_read hfull hended hread (by simp)
        have hlt := size_read_lt hread (by simp)
        obtain ⟨c', hfirst, hrest⟩ := ih hfull₁ hended₁ (by omega) h
        obtain ⟨c₂, hgap₂, hform⟩ := hfirst.exists_gap
        have hsize := hfirst.size
        exact ⟨c', ⟨hfirst.full, hfirst.ended, by omega, c₂, hgap.trans hgap₂, hform⟩, hrest⟩
      | streamEnd => simp at h
      | @form c₂ c₃ f hgap hne hended₂ hform =>
        obtain ⟨hfull₁, hended₁⟩ := fullLines_of_read hfull hended hread (by simp)
        have hlt := size_read_lt hread (by simp)
        cases hrest : readRest fuel (skipLineEnd c₃) with
        | error e => simp [hrest, Except.map] at h
        | ok rest =>
          obtain ⟨rfl, rfl⟩ : f = g ∧ rest = gs := by simpa [hrest, Except.map] using h
          refine ⟨c₃, ⟨hfull₁, hended₁, hlt, c₂, hgap, hne, hended₂, hform⟩, fun n hn => ?_⟩
          have hfuel : (skipLineEnd c₃).size < fuel := by omega
          rw [readRest_of_lt hn, ← readRest_of_lt hfuel, hrest]

/-! ## Discards -/

/-- The lines of a text that is followed by another one, on a line of its own. -/
def leadingLines (text : String) : List Line :=
  (text.toList.splitOn '\n').map fun piece => .text (piece ++ ['\n'])

theorem linesOfText_join (a b : String) :
    linesOfText (a ++ "\n" ++ b) = leadingLines a ++ linesOfText b := by
  have htext : (a ++ "\n" ++ b).toList = a.toList ++ '\n' :: b.toList := by simp
  rw [linesOfText_eq, linesOfText_eq, htext, List.splitOn_append_cons_self,
    fullPieces_append _ (List.splitOn_ne_nil _ _), List.map_append]
  rfl

theorem fullLines_leadingLines (text : String) :
    (Cursor.ofLines (leadingLines text)).FullLines := by
  intro line hline
  obtain ⟨piece, -, rfl⟩ := List.mem_map.mp hline
  simp

/-- A discard mark before a text with one form leads to what comes after the text. -/
theorem leads_discarded {text : String} {f : Form} (htext : readAll text = .ok [f])
    (more : List Line) {first : List Char} {lines : List Line}
    (hlines : leadingLines text = .text first :: lines) {c : Cursor}
    (hrest : c.rest = '#' :: '_' :: first) (hpending : c.pending = lines ++ more)
    (hended : c.ended = false) :
    ∃ d : Cursor, c.Leads d ∧ d.rest = [] ∧ d.pending = more ∧ d.ended = false := by
  have hfull := fullLines_leadingLines text
  have hread : readLines (leadingLines text) = .ok [f] := readLines_pieces htext
  obtain ⟨c₂, hfirst, hnone⟩ := first_of_readRest hfull rfl (by omega) hread
  obtain ⟨c₁, hgap, hne, hended₁, hform⟩ := hfirst.exists_gap
  have htail := gap_of_readRest hfirst.full hfirst.ended (Nat.lt_succ_self _)
    (hnone _ (Nat.lt_succ_self _))
  -- the gap begins with the first line, which stands behind the mark
  have hbefore : Gap first lines c₁.rest c₁.pending := by
    change Gap [] (leadingLines text) _ _ at hgap
    rw [hlines] at hgap
    generalize hr : c₁.rest = r at hgap hne
    generalize c₁.pending = p at hgap
    cases hgap with
    | refl => exact absurd rfl hne
    | line h => exact h
  obtain ⟨d₁, hd₁, hrest₁, hpending₁, hended₁'⟩ := (hbefore.extend more).leads (c := c.advance 2)
    (by simp [hrest]) hpending hended
  have halike : (c₁.extend more).Alike d₁ :=
    ⟨hrest₁.symm, hpending₁.symm, hended₁.trans hended₁'.symm⟩
  have hext : Extended more (readForm (c₁.extend more).steps) c₁ f c₂ := by
    have hle : c₁.steps ≤ (c₁.extend more).steps := by
      have hsize := Cursor.size_extend more c₁
      unfold Cursor.steps
      omega
    exact (madeAll _).form.extended_of_false more hended₁ ((readForm_of_le hle).trans hform)
  obtain ⟨f', c₃, hform₃, -, hleft⟩ := (agreesAll _).form.of_ok halike hext.run
  have hdiscard : c.Leads c₃ := by
    apply leads_discard hrest (f := f')
    rw [hd₁.readForm, ← halike.steps]
    exact hform₃
  have hafter := ((gap_skipLineEnd c₂).trans htail).extend more
  obtain ⟨d, hd, hplace⟩ := hafter.leads hleft.rest.symm hleft.pending.symm
    (hleft.ended.symm.trans hext.ended)
  exact ⟨d, hdiscard.trans hd, hplace⟩

/-- A form is looked for in vain where nothing is left. -/
theorem readForm_of_empty {c : Cursor} (hrest : c.rest = []) (hpending : c.pending = [])
    (hended : c.ended = false) : ∃ pos c', readForm c.steps c = .error (.unexpectedEnd pos) c' := by
  let last : Cursor := { c with prompts := c.prompts ++ [continuationPrompt], ended := true }
  have hpeek : peek c = .ok none last := by rw [peek_of_nil hrest, fetch_of_nil hended hpending]
  have hsize : c.size = 0 := by simp [Cursor.size, hrest, hpending, Cursor.pendingSize]
  have hsteps : c.steps = 4 := by rw [Cursor.steps, hsize]
  have hskip : skipInsignificant 3 c = .ok () last := by
    rw [skipInsignificant, bind_of_ok hpeek]
    rfl
  have hend : last.AtEnd := ⟨rfl, hrest⟩
  have hnext : next last.position last = .error (.unexpectedEnd last.position) last := by
    rw [next, bind_of_ok (peek_of_atEnd hend)]
    rfl
  refine ⟨last.position, last, ?_⟩
  rw [hsteps, readForm, bind_of_ok hskip,
    bind_of_ok (show currentPosition last = .ok last.position last from rfl), bind_of_error hnext]

/-- A discarded text, on lines of its own, before the lines `more`. -/
theorem readRest_discarded {text : String} {f : Form} (htext : readAll text = .ok [f])
    {more : List Line} (hmore : ∀ line ∈ more, line ≠ .text []) {c d : Cursor} {n m : Nat}
    (hc : c.Awaits (leadingLines ("#_" ++ text) ++ more) n) (hd : d.Awaits more m)
    {gs : List Form} (hgs : readRest (d.size + 1) d = .ok gs) :
    (gs = [] → ∃ pos, readRest (c.size + 1) c = .error (.unexpectedEnd pos)) ∧
      (gs ≠ [] → ∃ gs', readRest (c.size + 1) c = .ok gs' ∧ SameItems gs gs') := by
  obtain ⟨piece, pieces, hpieces⟩ :=
    List.exists_cons_of_ne_nil (List.splitOn_ne_nil '\n' text.toList)
  obtain ⟨lines, hlines, hmarked⟩ : ∃ lines,
      leadingLines text = .text (piece ++ ['\n']) :: lines ∧
        leadingLines ("#_" ++ text) = .text ('#' :: '_' :: (piece ++ ['\n'])) :: lines := by
    refine ⟨pieces.map fun piece => .text (piece ++ ['\n']), by simp [leadingLines, hpieces], ?_⟩
    simp [leadingLines, List.splitOn_cons_eq_if_modifyHead, hpieces]
  -- the first line begins with the mark, so the read comes to it at once
  have hpending : c.pending = .text ('#' :: '_' :: (piece ++ ['\n'])) :: (lines ++ more) := by
    rw [hc.pending, hmarked]
    rfl
  let c₁ := c.atLine "" ('#' :: '_' :: (piece ++ ['\n'])) (lines ++ more)
  have happroach : approach "" (c.size + 1) c = .ok .body c₁ := by
    have hlt : c₁.size < c.size := Cursor.size_atLine_lt hpending
    obtain ⟨k, hk⟩ : ∃ k, c.size = k + 1 := ⟨c.size - 1, by omega⟩
    rw [hk, approach_of_nil _ _ hc.rest, fetch_of_text hc.ended hpending]
    change approach "" (k + 1) c₁ = _
    rw [approach_of_cons _ _ (c := c₁) rfl]
    have hother : '#' ≠ '\n' ∧ '#' ≠ ';' ∧ isSeparator '#' = false := by decide
    simp only [hother.1, hother.2.1, hother.2.2, if_false, Bool.false_eq_true]
  have hread : read "" c = enter .body c₁ := by
    rw [read_eq "" (Nat.lt_succ_self _), bind_of_ok happroach]
  obtain ⟨d₁, hlead, hrest₁, hpending₁, hended₁⟩ := leads_discarded htext more hlines
    (c := c₁) rfl rfl hc.ended
  have hfull : d.FullLines := by
    intro line hline
    exact hmore line (hd.pending ▸ hline)
  constructor
  · rintro rfl
    have hgap := gap_of_readRest hfull hd.ended (Nat.lt_succ_self _) hgs
    rw [hd.rest, hd.pending] at hgap
    obtain ⟨d₂, hlead₂, hrest₂, hpending₂, hended₂⟩ := hgap.leads hrest₁ hpending₁ hended₁
    obtain ⟨pos, c', hform⟩ := readForm_of_empty hrest₂ hpending₂ hended₂
    rw [← (hlead.trans hlead₂).readForm] at hform
    refine ⟨pos, ?_⟩
    rw [readRest, hread]
    simp only [enter, hform]
  · intro hne
    obtain ⟨g, gs, rfl⟩ := List.exists_cons_of_ne_nil hne
    obtain ⟨d₂, hfirst, hrest⟩ := first_of_readRest hfull hd.ended (Nat.lt_succ_self _) hgs
    obtain ⟨d₃, hgap, -, hended₃, hform⟩ := hfirst.exists_gap
    rw [hd.rest, hd.pending] at hgap
    obtain ⟨d₄, hlead₄, hrest₄, hpending₄, hended₄⟩ := hgap.leads hrest₁ hpending₁ hended₁
    have halike : d₃.Alike d₄ := ⟨hrest₄.symm, hpending₄.symm, hended₃.trans hended₄.symm⟩
    obtain ⟨g', c₂, hform', hsame, hleft⟩ := (agreesAll _).form.of_ok halike hform
    rw [halike.steps, ← (hlead.trans hlead₄).readForm] at hform'
    have hread' : read "" c = .ok (.form g') (skipLineEnd c₂) := by
      rw [hread]
      simp only [enter, hform']
    have hlt := size_read_lt hread' (by simp)
    have hsize := hleft.skipLineEnd.size
    have hlast := hleft.skipLineEnd.readRest c.size
    rw [hrest c.size (by omega)] at hlast
    rw [readRest, hread']
    dsimp only
    generalize readRest c.size (skipLineEnd c₂) = rest at hlast
    cases hlast with
    | ok hitems => exact ⟨_, rfl, by simp_all [SameItems, SameForm, Form.sameAll]⟩

theorem readLines_leadingLines {a : String} {fa : List Form} (ha : readAll a = .ok fa)
    (more : List Line) :
    ∃ d : Cursor, d.Awaits more (leadingLines a).length ∧
      readLines (leadingLines a ++ more) = (readRest (d.size + 1) d).map (fa ++ ·) := by
  have hlines : readLines (leadingLines a) = .ok fa := readLines_pieces ha
  obtain ⟨d, hd, hrun⟩ :=
    readRest_extend more (c := .ofLines (leadingLines a)) rfl (by omega) hlines
  have hlength : (Cursor.ofLines (leadingLines a)).lines = (leadingLines a).length := Nat.zero_add _
  rw [hlength] at hd
  exact ⟨d, hd, hrun _ (Nat.lt_add_of_pos_right (by omega))⟩

/-- A text with one form that is discarded between two texts is not seen if a form comes after it;
otherwise the input ends in search of one. -/
theorem readAll_discarded {a b text : String} {fa forms : List Form} {f : Form}
    (ha : readAll a = .ok fa) (hforms : readAll (a ++ "\n" ++ b) = .ok forms)
    (htext : readAll text = .ok [f]) :
    (readAll b ≠ .ok [] →
        ∃ forms', readAll (a ++ "\n#_" ++ text ++ "\n" ++ b) = .ok forms' ∧
          Form.sameAll forms forms' = true) ∧
      (readAll b = .ok [] →
        ∃ pos, readAll (a ++ "\n#_" ++ text ++ "\n" ++ b) = .error (.unexpectedEnd pos)) := by
  have hjoined : linesOfText (a ++ "\n#_" ++ text ++ "\n" ++ b) =
      leadingLines a ++ (leadingLines ("#_" ++ text) ++ linesOfText b) := by
    rw [← linesOfText_join, ← linesOfText_join]
    apply congrArg linesOfText
    apply String.toList_injective
    simp
  obtain ⟨d, hd, hplain⟩ := readLines_leadingLines ha (linesOfText b)
  obtain ⟨c, hc, hmarked⟩ :=
    readLines_leadingLines ha (leadingLines ("#_" ++ text) ++ linesOfText b)
  rw [← linesOfText_join] at hplain
  rw [← hjoined] at hmarked
  -- with a mark or without, what is left after the first text are the lines of the second one
  have hgs : readRest (d.size + 1) d = movedAll (leadingLines a).length (readAll b) := hd.readRest
  rw [hgs] at hplain
  cases hb : readAll b with
  | error e =>
    rw [hb] at hplain
    exact absurd (hplain.symm.trans hforms) (by simp [movedAll, Except.map])
  | ok fb =>
    rw [hb] at hplain hgs
    obtain rfl : fa ++ fb.map (Form.down (leadingLines a).length) = forms :=
      Except.ok.inj (hplain.symm.trans hforms)
    obtain ⟨hlast, hmore⟩ := readRest_discarded htext (fullLines_ofText b) hc hd hgs
    have hnil : fb.map (Form.down (leadingLines a).length) = [] ↔ fb = [] := List.map_eq_nil_iff
    constructor
    · intro hne
      obtain ⟨gs, hrest, hsame⟩ := hmore fun h => hne (congrArg Except.ok (hnil.mp h))
      rw [hrest] at hmarked
      exact ⟨fa ++ gs, hmarked, Form.sameAll_append_left fa hsame⟩
    · intro hempty
      obtain ⟨pos, hrest⟩ := hlast (hnil.mpr (Except.ok.inj hempty))
      rw [hrest] at hmarked
      exact ⟨pos, hmarked⟩

/-- A list over two lines is discarded between two vectors. -/
theorem readAll_discarded_between :
    ∃ forms', readAll ("[]" ++ "\n#_" ++ "(\n)" ++ "\n" ++ "[]") = .ok forms' ∧
      Form.sameAll [.vector ⟨1, 1⟩ [], .vector ⟨2, 1⟩ []] forms' = true := by
  have hvector : readAll "[]" = .ok [.vector ⟨1, 1⟩ []] := by cbv
  have hforms : readAll ("[]" ++ "\n" ++ "[]") = .ok [.vector ⟨1, 1⟩ [], .vector ⟨2, 1⟩ []] := by
    cbv
  have hlist : readAll "(\n)" = .ok [.list ⟨1, 1⟩ []] := by cbv
  exact (readAll_discarded hvector hforms hlist).1 (by simp [hvector])

/-- After the last form, the end of the input comes in the search for one more. -/
theorem readAll_discarded_last :
    readAll "[]" = .ok [.vector ⟨1, 1⟩ []] ∧
      readAll ("[]" ++ "\n" ++ "") = .ok [.vector ⟨1, 1⟩ []] ∧
      readAll "()" = .ok [.list ⟨1, 1⟩ []] ∧
      readAll ("[]" ++ "\n#_" ++ "()" ++ "\n" ++ "") = .error (.unexpectedEnd ⟨2, 6⟩) := by
  have hlines : linesOfText ("[]" ++ "\n#_" ++ "()" ++ "\n" ++ "") =
      [.text ['[', ']', '\n'], .text ['#', '_', '(', ')', '\n']] := by
    rw [show "[]" ++ "\n#_" ++ "()" ++ "\n" ++ "" = "[]\n#_()\n" by decide]
    rfl
  have hfirst :
      read "" (.ofLines [.text ['[', ']', '\n'], .text ['#', '_', '(', ')', '\n']]) =
        .ok (.form (.vector ⟨1, 1⟩ []))
          ⟨[], 3, 1, [.text ['#', '_', '(', ')', '\n']], false, [""]⟩ := rfl
  -- The discard mark is passed over in the search for a form, which then comes to the end.
  have hsecond : read "" ⟨[], 3, 1, [.text ['#', '_', '(', ')', '\n']], false, [""]⟩ =
      .error (.unexpectedEnd ⟨2, 6⟩) ⟨[], 5, 2, [], true, ["", "", continuationPrompt]⟩ := rfl
  refine ⟨by cbv, by cbv, by cbv, ?_⟩
  unfold readAll
  rw [hlines]
  change readRest (_ + 1) _ = _
  rw [readRest, hfirst]
  change Except.map _ (readRest (_ + 1) _) = _
  rw [readRest, hsecond]
  rfl

end LiveLisp.Reading
