import LiveLisp.Proofs.Reading.Grammar
import LiveLisp.Proofs.Reading.Lines
/-!
# Sources of forms

A text that is read without a failure is laid out as its grammar says, and the forms that are read
are those of its layout.
-/

namespace LiveLisp

open Text (Position)

namespace Reading

open Fallible

/-- The text with a newline behind its last line. -/
def closeText (text : List Char) : List Char := if text = [] then [] else closeLine text

/-! ## Cursors in a text -/

/-- Where the next character stands, which may be on the next line. -/
def Cursor.coming (c : Cursor) : Position := if c.rest = [] then ⟨c.line + 1, 1⟩ else c.position

/-- Characters up to the end of their line. -/
def IsLine (cs : List Char) : Prop := ∃ piece, '\n' ∉ piece ∧ cs = piece ++ ['\n']

/-- The cursor stands in the text: what is still to come stands there at its end. -/
structure Cursor.In (text : List Char) (c : Cursor) : Prop where
  ended : c.ended = true → c.chars = []
  pending : ∀ line ∈ c.pending, ∃ cs, IsLine cs ∧ line = .text cs
  rest : c.rest = [] ∨ IsLine c.rest
  place : ∃ before, text = before ++ c.chars ∧ before.foldl Position.next .start = c.coming

theorem foldl_next_of_plain {piece : List Char} (h : '\n' ∉ piece) (p : Position) :
    piece.foldl Position.next p = ⟨p.line, p.column + piece.length⟩ := by
  induction piece generalizing p with
  | nil => rfl
  | cons ch piece ih =>
    obtain ⟨hch, hpiece⟩ := not_or.mp (List.mem_cons.not.mp h)
    rw [List.foldl_cons, ih hpiece, Position.next, if_neg (Ne.symm hch), List.length_cons,
      Nat.add_assoc, Nat.add_comm 1]

theorem standing_append (before cs : List Char) :
    Text.standing (before ++ cs) cs = before.foldl Position.next .start := by
  rw [Text.standing, List.length_append, Nat.add_sub_cancel, List.take_left]

section In

variable {text : List Char} {c c' : Cursor} {ch : Char} {cs : List Char}

theorem Cursor.In.position_eq (h : c.In text) (hne : c.rest ≠ []) :
    c.position = Text.standing text c.chars := by
  obtain ⟨before, htext, hplace⟩ := h.place
  rw [Cursor.coming, if_neg hne] at hplace
  rw [htext, standing_append, hplace]

theorem Cursor.In.fullLines (h : c.In text) : c.FullLines := by
  rintro line hline rfl
  obtain ⟨cs, ⟨piece, -, rfl⟩, hcs⟩ := h.pending _ hline
  simpa using Line.text.inj hcs

theorem Cursor.In.consistent (h : c.In text) : c.Consistent := by
  intro hended
  have hchars := h.ended hended
  rw [Cursor.chars, List.append_eq_nil_iff] at hchars
  cases hpending : c.pending with
  | nil => rfl
  | cons line more =>
    obtain ⟨cs, ⟨piece, -, rfl⟩, rfl⟩ := h.pending line (by simp [hpending])
    simp [hpending, Line.chars] at hchars

theorem Cursor.In.ended_eq_false (h : c.In text) (hne : c.rest ≠ []) : c.ended = false := by
  by_contra hended
  have hchars := h.ended (by simpa using hended)
  exact hne (List.append_eq_nil_iff.mp hchars).1

theorem Cursor.In.holds (h : c.In text) (hended : c.ended = false) : c.Holds c.chars := by
  refine ⟨rfl, fun line hline => ?_, hended⟩
  obtain ⟨cs, ⟨piece, -, rfl⟩, rfl⟩ := h.pending line hline
  cases piece with
  | nil => exact ⟨_, _, rfl⟩
  | cons ch piece => exact ⟨_, _, rfl⟩

theorem Cursor.chars_of_rest (hrest : c.rest = ch :: cs) : c.chars = ch :: (c.advance 1).chars := by
  simp [chars, advance, hrest]

theorem IsLine.ne_nil (h : IsLine cs) : cs ≠ [] := by
  obtain ⟨piece, -, rfl⟩ := h
  simp

/-- Behind some characters of a line there is a line still, or the line is over. -/
theorem IsLine.split {taken more : List Char} (h : IsLine (taken ++ more)) :
    (more = [] ∧ IsLine taken) ∨ ('\n' ∉ taken ∧ IsLine more) := by
  obtain ⟨piece, hpiece, heq⟩ := h
  rcases List.eq_nil_or_concat more with rfl | ⟨front, last, rfl⟩
  · exact .inl ⟨rfl, piece, hpiece, by rw [← heq, List.append_nil]⟩
  · rw [List.concat_eq_append, ← List.append_assoc] at heq
    obtain ⟨rfl, hlast⟩ := List.append_inj' heq rfl
    obtain ⟨htaken, hfront⟩ := not_or.mp (List.mem_append.not.mp hpiece)
    exact .inr ⟨htaken, front, hfront, by rw [List.concat_eq_append, hlast]⟩

theorem Cursor.chars_of_size (h : c.size = 0) : c.chars = [] := by
  obtain ⟨hrest, hpending⟩ := Nat.add_eq_zero_iff.mp h
  rw [chars, List.length_eq_zero_iff.mp hrest, List.nil_append]
  cases hlines : c.pending with
  | nil => rfl
  | cons line more => cases line <;> simp [hlines, pendingSize] at hpending

/-- Passing over the beginning of a line. -/
theorem Cursor.In.of_append (h : c.In text) {taken more : List Char}
    (hrest : c.rest = taken ++ more) :
    ({ c with rest := more, taken := c.taken + taken.length } : Cursor).In text := by
  have hchars : c.chars = taken ++ (more ++ c.pending.flatMap Line.chars) := by
    rw [chars, hrest, List.append_assoc]
  obtain ⟨before, htext, hplace⟩ := h.place
  refine ⟨fun hended => ?_, h.pending, ?_, before ++ taken, ?_, ?_⟩
  · have hnil := h.ended hended
    rw [hchars] at hnil
    exact (List.append_eq_nil_iff.mp hnil).2
  · rcases h.rest with hnil | hline
    · exact .inl (List.append_eq_nil_iff.mp (hrest.symm.trans hnil)).2
    · rw [hrest] at hline
      rcases hline.split with ⟨hmore, -⟩ | ⟨-, hmore⟩
      · exact .inl hmore
      · exact .inr hmore
  · rw [htext, hchars, List.append_assoc]
    rfl
  · rw [List.foldl_append, hplace]
    unfold coming
    rcases h.rest with hnil | hline
    · obtain ⟨rfl, rfl⟩ := List.append_eq_nil_iff.mp (hrest.symm.trans hnil)
      rw [if_pos hnil]
      rfl
    · rw [if_neg hline.ne_nil]
      rw [hrest] at hline
      rcases hline.split with ⟨rfl, piece, hpiece, rfl⟩ | ⟨htaken, hmore⟩
      · rw [List.foldl_append, foldl_next_of_plain hpiece]
        rfl
      · rw [foldl_next_of_plain htaken, if_neg hmore.ne_nil]
        simp only [position]
        congr 1
        omega

end In

/-- Wherever the one cursor stands in the text, the other does. -/
def StaysIn (text : List Char) (c c' : Cursor) : Prop := c.In text → c'.In text

instance (text : List Char) : Std.Refl (StaysIn text) := ⟨fun _ h => h⟩

instance (text : List Char) : Trans (StaysIn text) (StaysIn text) (StaysIn text) :=
  ⟨fun h h' => h' ∘ h⟩

theorem onward_staysIn (text : List Char) : Onward (StaysIn text) where
  noLine c prompt hrest hended hpending hin :=
    ⟨fun _ => by simp [Cursor.chars, hrest, hpending], hin.pending, hin.rest, hin.place⟩
  failed c prompt reason more hrest hended hpending hin := by
    obtain ⟨cs, -, hline⟩ := hin.pending (.failed reason) (by simp [hpending])
    contradiction
  line c prompt cs more hrest hended hpending hin := by
    obtain ⟨cs', hcs, hline⟩ := hin.pending (.text cs) (by simp [hpending])
    obtain rfl := Line.text.inj hline
    obtain ⟨before, htext, hplace⟩ := hin.place
    refine ⟨fun h => absurd h (by simp [Cursor.atLine, hended]), fun line hline => ?_, .inr hcs,
      before, ?_, ?_⟩
    · exact hin.pending line (by simp [hpending, show line ∈ more from hline])
    · rw [htext]
      simp [Cursor.chars, Cursor.atLine, hrest, hpending, Line.chars]
    · rw [hplace, Cursor.coming, if_pos hrest]
      exact (if_neg hcs.ne_nil).symm
  advance c n hin := hin.of_append (List.take_append_drop n c.rest).symm
  discardLine c hin := hin.of_append (List.append_nil c.rest).symm

theorem isLine_cons {ch : Char} {cs : List Char} (hch : ch ≠ '\n') (h : IsLine cs) :
    IsLine (ch :: cs) := by
  obtain ⟨piece, hpiece, rfl⟩ := h
  exact ⟨ch :: piece, by simp [hpiece, hch.symm], rfl⟩

theorem isLine_of_mem_splitLines {cs line : List Char}
    (h : line ∈ (splitLines '\n' cs).map closeLine) : IsLine line := by
  induction cs generalizing line with
  | nil => contradiction
  | cons ch cs ih =>
    unfold splitLines at h
    split at h
    · next hch =>
      rcases List.mem_cons.mp h with rfl | h
      · exact ⟨[], by simp, by simp [closeLine, hch]⟩
      · exact ih h
    · next hch =>
      split at h
      · rw [List.mem_singleton.mp h, closeLine_cons hch]
        exact isLine_cons hch ⟨[], by simp, rfl⟩
      · next l ls hlines =>
        rcases List.mem_cons.mp h with rfl | h
        · rw [closeLine_cons hch]
          exact isLine_cons hch (ih (by simp [hlines]))
        · exact ih (by simp [hlines, List.mem_map.mp h])

theorem closeText_newline (cs : List Char) : closeText ('\n' :: cs) = '\n' :: closeText cs := by
  cases cs with
  | nil => rfl
  | cons ch cs =>
    simp only [closeText, if_neg (List.cons_ne_nil _ _), closeLine, List.getLast?_cons_cons]
    split <;> rfl

theorem flatten_map_closeLine (cs : List Char) :
    ((splitLines '\n' cs).map closeLine).flatten = closeText cs := by
  induction cs with
  | nil => rfl
  | cons ch cs ih =>
    rw [splitLines]
    by_cases hch : ch = '\n'
    · rw [if_pos hch, hch, closeText_newline, ← ih]
      rfl
    · rw [if_neg hch, closeText, if_neg (by simp), closeLine_cons hch]
      cases hlines : splitLines '\n' cs with
      | nil =>
        obtain rfl : cs = [] := by rw [← flatten_splitLines '\n' cs, hlines, List.flatten_nil]
        simp [closeLine, hch]
      | cons l ls =>
        have hcs : cs ≠ [] := by
          rintro rfl
          contradiction
        rw [hlines, closeText, if_neg hcs] at ih
        rw [← ih]
        simp [closeLine_cons hch]

theorem chars_ofLines (text : String) :
    (Cursor.ofLines (linesOfText text)).chars = closeText text.toList := by
  rw [← flatten_map_closeLine, Cursor.chars, Cursor.ofLines, linesOfText, List.nil_append,
    List.flatMap_map, List.flatMap_def]
  rfl

theorem in_ofLines (text : String) :
    (Cursor.ofLines (linesOfText text)).In (closeText text.toList) := by
  refine ⟨fun h => absurd h (by simp [Cursor.ofLines]), fun line hline => ?_, .inl rfl, [], ?_, rfl⟩
  · obtain ⟨l, hl, rfl⟩ := List.mem_map.mp hline
    exact ⟨closeLine l, isLine_of_mem_splitLines (List.mem_map_of_mem hl), rfl⟩
  · rw [List.nil_append, chars_ofLines]

/-! ## What the reader takes -/

section Taken

variable {text : List Char} {c c' : Cursor} {start : Position}

/-- Asking for a line takes nothing. -/
theorem chars_of_fetch {prompt : String} {b : Bool} (hrest : c.rest = [])
    (h : fetch prompt c = .ok b c') : c'.chars = c.chars := by
  cases hended : c.ended with
  | true =>
    rw [fetch_of_ended hended] at h
    obtain ⟨-, rfl⟩ := EStateM.Result.ok.inj h
    rfl
  | false =>
    cases hpending : c.pending with
    | nil =>
      rw [fetch_of_nil hended hpending] at h
      obtain ⟨-, rfl⟩ := EStateM.Result.ok.inj h
      rfl
    | cons line more =>
      cases line with
      | failed reason =>
        rw [fetch_of_failed hended hpending] at h
        contradiction
      | text cs =>
        rw [fetch_of_text hended hpending] at h
        obtain ⟨-, rfl⟩ := EStateM.Result.ok.inj h
        simp [Cursor.chars, Cursor.atLine, hrest, hpending, Line.chars]

theorem chars_of_peek {r : Option Char} (h : peek c = .ok r c') : c'.chars = c.chars := by
  cases hrest : c.rest with
  | cons ch cs =>
    rw [peek_of_cons hrest] at h
    obtain ⟨-, rfl⟩ := EStateM.Result.ok.inj h
    rfl
  | nil =>
    rw [peek_of_nil hrest] at h
    split at h
    · next hfetch =>
      obtain ⟨-, rfl⟩ := EStateM.Result.ok.inj h
      exact chars_of_fetch hrest hfetch
    · next hfetch =>
      obtain ⟨-, rfl⟩ := EStateM.Result.ok.inj h
      exact chars_of_fetch hrest hfetch
    · contradiction

theorem chars_of_next {ch : Char} (h : next start c = .ok ch c') :
    c.chars = ch :: c'.chars := by
  obtain ⟨c₁, cs, hpeek, hcs, rfl⟩ := next_eq_ok h
  rw [← chars_of_peek hpeek, Cursor.chars_of_rest hcs]

/-- A token that is taken from a line is not cut short, as the line ends with a newline. -/
theorem chars_of_takeUntil (hin : c.In text) (hne : c.rest ≠ []) :
    let more := c.rest.takeWhile fun ch => !isTerminator ch
    c.chars = more ++ (c.advance more.length).chars ∧ EndsToken (c.advance more.length).chars := by
  intro more
  have hrest : c.rest = more ++ (c.advance more.length).rest := by
    have hprefix := List.takeWhile_prefix (fun ch => !isTerminator ch) (l := c.rest)
    obtain ⟨tail, htail⟩ := hprefix
    change more ++ tail = c.rest at htail
    rw [Cursor.advance_rest, ← htail, List.drop_left]
  have htail : (c.advance more.length).rest = c.rest.dropWhile fun ch => !isTerminator ch :=
    List.append_cancel_left (hrest.symm.trans List.takeWhile_append_dropWhile.symm)
  refine ⟨?_, fun ch hch => ?_⟩
  · rw [Cursor.chars, hrest, List.append_assoc]
    rfl
  · obtain ⟨piece, -, hline⟩ := hin.rest.resolve_left hne
    have hnewline : '\n' ∈ c.rest.dropWhile fun ch => !isTerminator ch := by
      have hmem : '\n' ∈ c.rest := by simp [hline]
      rw [← List.takeWhile_append_dropWhile (p := fun ch => !isTerminator ch) (l := c.rest)] at hmem
      rcases List.mem_append.mp hmem with hmem | hmem
      · exact absurd (not_terminator_of_all List.all_takeWhile _ hmem) (by decide)
      · exact hmem
    have hne' := List.ne_nil_of_mem hnewline
    have hhead := List.head_dropWhile_not (fun ch => !isTerminator ch) hne'
    rw [Cursor.chars, htail, List.head?_append_of_ne_nil _ hne',
      List.head?_eq_some_head hne'] at hch
    rw [← Option.some.inj hch]
    simpa using hhead

theorem reads_discardLine {rest cs : List Char} (hin : c.In text) (hrest : c.rest = ';' :: cs)
    (h : Reads text .space c.discardLine.chars rest) : Reads text .space c.chars rest := by
  obtain ⟨piece, hpiece, hline⟩ := hin.rest.resolve_left (by simp [hrest])
  have hcomment : ∃ comment, piece = ';' :: comment := by
    cases piece with
    | nil => simp [hline] at hrest
    | cons ch comment =>
      rw [hline] at hrest
      exact ⟨comment, by rw [(List.cons.inj hrest).1]⟩
  obtain ⟨comment, rfl⟩ := hcomment
  have hchars : c.chars = ';' :: (comment ++ '\n' :: c.discardLine.chars) := by
    simp [Cursor.chars, Cursor.discardLine, hline]
  rw [hchars]
  exact .comment (fun hmem => hpiece (List.mem_cons_of_mem _ hmem)) h

end Taken

/-- With steps enough, what is read has the grammar of the text that was taken for it. -/
structure Parsed (text : List Char) (fuel : Nat) : Prop where
  skip : ∀ c c', c.In text → 2 * c.size + 1 ≤ fuel → skipInsignificant fuel c = .ok () c' →
    Reads text .space c.chars c'.chars
  form : ∀ c f c', c.In text → 2 * c.size + 2 ≤ fuel → readForm fuel c = .ok f c' →
    Reads text (.form f) c.chars c'.chars
  items : ∀ close start c fs c', c.In text → 2 * c.size + 3 ≤ fuel →
    readItems close start fuel c = .ok fs c' →
    Reads text (.forms fs) c.chars (close :: c'.chars)

section Parsed

variable {text : List Char} {fuel : Nat} {c c' : Cursor}

theorem Parsed.skip_succ (ih : Parsed text fuel) (hin : c.In text) (hfuel : 2 * c.size ≤ fuel)
    (h : skipInsignificant (fuel + 1) c = .ok () c') : Reads text .space c.chars c'.chars := by
  obtain ⟨r, c₁, hpeek, hrest⟩ := bind_eq_ok.mp h
  obtain ⟨hbefore, hr, -⟩ := peek_eq_ok hpeek
  have hin₁ := (onward_staysIn text).peek.of_ok hpeek hin
  have hle := hbefore.size
  rw [← chars_of_peek hpeek]
  cases r with
  | none =>
    obtain ⟨-, rfl⟩ := pure_eq_ok.mp hrest
    exact .nothing
  | some ch =>
    obtain ⟨cs, hcs⟩ : ∃ cs, c₁.rest = ch :: cs := List.head?_eq_some_iff.mp hr.symm
    have hone := Cursor.size_advance_one hcs
    simp only at hrest
    split at hrest
    · next hseparator =>
      obtain ⟨u, c₂, hskip, hrest⟩ := bind_eq_ok.mp hrest
      obtain ⟨-, rfl⟩ := EStateM.Result.ok.inj hskip
      rw [Cursor.chars_of_rest hcs]
      exact .separator hseparator
        (ih.skip _ _ ((onward_staysIn text).advance c₁ 1 hin₁) (by omega) hrest)
    · split at hrest
      · next hsemicolon =>
        obtain ⟨u, c₂, hmodify, hrest⟩ := bind_eq_ok.mp hrest
        obtain ⟨-, rfl⟩ := EStateM.Result.ok.inj hmodify
        have hlt := Cursor.size_discardLine_lt hcs
        rw [hsemicolon] at hcs
        exact reads_discardLine hin₁ hcs
          (ih.skip _ _ ((onward_staysIn text).discardLine c₁ hin₁) (by omega) hrest)
      · obtain ⟨discard, c₂, hat, hrest⟩ := bind_eq_ok.mp hrest
        obtain ⟨rfl, hmark⟩ := atDiscard_eq_ok hat
        cases discard with
        | false =>
          obtain ⟨-, rfl⟩ := pure_eq_ok.mp hrest
          exact .nothing
        | true =>
          obtain ⟨u, c₂, hskip, hrest⟩ := bind_eq_ok.mp hrest
          obtain ⟨-, rfl⟩ := EStateM.Result.ok.inj hskip
          obtain ⟨g, c₃, hform, hrest⟩ := bind_eq_ok.mp hrest
          obtain ⟨ds, hds⟩ := hmark.mp rfl
          have htwo : (c₁.advance 2).size + 2 = c₁.size := by
            simp only [Cursor.size, Cursor.advance, hds, List.drop_succ_cons, List.drop_zero,
              List.length_cons]
            omega
          have hchars : c₁.chars = '#' :: '_' :: (c₁.advance 2).chars := by
            simp [Cursor.chars, Cursor.advance, hds]
          have hin₂ := (onward_staysIn text).advance c₁ 2 hin₁
          have hin₃ := (onward_staysIn text).made (madeAll fuel).form |>.of_ok hform hin₂
          have hlt := size_readForm_lt hform
          rw [hchars]
          exact .discarded (ih.form _ _ _ hin₂ (by omega) hform)
            (ih.skip _ _ hin₃ (by omega) hrest)

theorem reads_readString {start : Position} {chars : List Char} {p : Position} (hin : c.In text)
    (hended : c.ended = false) (h : readString start fuel c = .ok chars c') :
    Reads text (.source (.str (String.ofList chars) p)) ('"' :: c.chars) c'.chars := by
  obtain ⟨closed, rest, hchars, ⟨body, rfl, hbody, -⟩, hrest⟩ :=
    (recognizes_readString start fuel).sound (hin.holds hended) h
  rw [hchars, List.append_assoc, List.singleton_append, hrest.chars]
  exact .str hbody

theorem reads_readChar {start : Position} {ch : Char} {p : Position} (hin : c.In text)
    (h : readChar start c = .ok ch c') :
    Reads text (.source (.atom p (.char ch))) ('\\' :: c.chars) c'.chars := by
  obtain ⟨first, c₁, hnext, hrest⟩ := bind_eq_ok.mp h
  obtain ⟨more, c₂, hmore, hrest⟩ := bind_eq_ok.mp hrest
  obtain ⟨rfl, rfl⟩ := EStateM.Result.ok.inj hmore
  have hchars := chars_of_next hnext
  obtain ⟨e, cs, hpeek, hcs, rfl⟩ := next_eq_ok hnext
  have hine := (onward_staysIn text).peek.of_ok hpeek hin
  have hin₁ := (onward_staysIn text).advance e 1 hine
  have hplain : ∀ d ∈ (e.advance 1).rest.takeWhile (fun d => !isTerminator d),
      isTerminator d = false := not_terminator_of_all List.all_takeWhile
  cases hname : namedChar? (first :: (e.advance 1).rest.takeWhile fun d => !isTerminator d) with
  | none =>
    simp only [hname] at hrest
    exact absurd hrest throw_ne_ok
  | some d =>
    simp only [hname] at hrest
    obtain ⟨rfl, rfl⟩ := pure_eq_ok.mp hrest
    rw [hchars]
    obtain ⟨piece, hpiece, hline⟩ := hine.rest.resolve_left (by simp [hcs])
    rw [hcs] at hline
    by_cases hfirst : first = '\n'
    · -- the newline ends the line, so that nothing is taken behind it
      have hnil : (e.advance 1).rest = [] := by
        rw [Cursor.advance_rest, hcs, List.drop_succ_cons, List.drop_zero]
        cases piece with
        | nil => exact (List.cons.inj hline).2
        | cons ch piece =>
          rw [hfirst] at hline
          exact absurd (by rw [(List.cons.inj hline).1]; exact List.mem_cons_self) hpiece
      rw [hnil] at hname ⊢
      rw [← List.nil_append (e.advance 1).chars]
      exact .char (List.forall_mem_nil _) (by rw [if_pos hfirst]) hname
    · have hne : (e.advance 1).rest ≠ [] := by
        rw [Cursor.advance_rest, hcs, List.drop_succ_cons, List.drop_zero]
        rintro rfl
        cases piece with
        | nil => exact hfirst (List.cons.inj hline).1
        | cons ch piece => simp at hline
      obtain ⟨htaken, hends⟩ := chars_of_takeUntil hin₁ hne
      rw [htaken]
      exact .char hplain (by rwa [if_neg hfirst]) hname

theorem Parsed.form_succ (ih : Parsed text fuel) (hin : c.In text) (hfuel : 2 * c.size + 1 ≤ fuel)
    {f : Form} (h : readForm (fuel + 1) c = .ok f c') : Reads text (.form f) c.chars c'.chars := by
  obtain ⟨u, c₁, hskip, hrest⟩ := bind_eq_ok.mp h
  obtain ⟨hbefore, hsettled⟩ := (sound fuel).skip c c₁ hin.fullLines hfuel hskip
  have hspace := ih.skip c c₁ hin hfuel hskip
  have hin₁ := (onward_staysIn text).made (madeAll fuel).skip |>.of_ok hskip hin
  obtain ⟨start, c₂, hstart, hrest⟩ := bind_eq_ok.mp hrest
  obtain ⟨rfl, rfl⟩ := EStateM.Result.ok.inj hstart
  obtain ⟨ch, c₂, hnext, hbody⟩ := bind_eq_ok.mp hrest
  obtain ⟨cs, hcs, rfl⟩ := next_of_settled hsettled hnext
  have hsize := hbefore.size
  have hone := Cursor.size_advance_one hcs
  have hne : c₁.rest ≠ [] := by simp [hcs]
  have hpos := hin₁.position_eq hne
  have hended : (c₁.advance 1).ended = false := hin₁.ended_eq_false hne
  have hin₂ := (onward_staysIn text).advance c₁ 1 hin₁
  rw [Cursor.chars_of_rest hcs] at hspace hpos
  cases body_of_readBody hbody with
  | list hxs => exact .plain hspace hpos (.list (ih.items _ _ _ _ _ hin₂ (by omega) hxs))
  | vector hxs => exact .plain hspace hpos (.vector (ih.items _ _ _ _ _ hin₂ (by omega) hxs))
  | map hxs hpairs =>
    have hparts := ih.items _ _ _ _ _ hin₂ (by omega) hxs
    rw [← Form.flatMap_of_pairUp hpairs] at hparts
    exact .plain hspace hpos (.map hparts)
  | str htext => exact .plain hspace hpos (reads_readString hin₂ hended htext)
  | quote hform =>
    have hquoted := ih.form _ _ _ hin₂ (by omega) hform
    exact .plain hspace hpos (.signed (by simp [signs]) hquoted)
  | deref hform =>
    have hnamed := ih.form _ _ _ hin₂ (by omega) hform
    exact .plain hspace hpos (.signed (by simp [signs]) hnamed)
  | hinted hhint hform =>
    have hlt := size_readForm_lt hhint
    have hin₃ := (onward_staysIn text).made (madeAll fuel).form |>.of_ok hhint hin₂
    exact .hinted hspace (ih.form _ _ _ hin₂ (by omega) hhint) (ih.form _ _ _ hin₃ (by omega) hform)
  | char hchar => exact .plain hspace hpos (reads_readChar hin₂ hchar)
  | set hopen hxs =>
    obtain ⟨hbefore₃, hhead, -⟩ := peek_eq_ok hopen
    obtain ⟨ds, hds⟩ := List.head?_eq_some_iff.mp hhead.symm
    have hle := hbefore₃.size
    have hone₃ := Cursor.size_advance_one hds
    have hin₃ := (onward_staysIn text).advance _ 1 ((onward_staysIn text).peek.of_ok hopen hin₂)
    rw [← chars_of_peek hopen, Cursor.chars_of_rest hds] at hspace hpos
    exact .plain hspace hpos (.set (ih.items _ _ _ _ _ hin₃ (by omega) hxs))
  | token hother htoken =>
    obtain ⟨more, hmore, hplain, hatom, rfl⟩ := readToken_eq_ok htoken
    have hbegins := beginsToken_of_settled hsettled hcs hother
    have hne₂ : (c₁.advance 1).rest ≠ [] := by
      rw [Cursor.advance_rest, hcs, List.drop_succ_cons, List.drop_zero]
      rintro rfl
      obtain ⟨piece, -, hline⟩ := hin₁.rest.resolve_left hne
      obtain rfl : ch = '\n' := by simpa using congrArg List.getLast? (hcs.symm.trans hline)
      exact absurd hbegins.1 (by decide)
    obtain ⟨htaken, hends⟩ := chars_of_takeUntil hin₂ hne₂
    rw [hmore] at htaken hends
    rw [htaken] at hspace hpos
    exact .plain hspace hpos (.token hbegins hplain hends hatom)

theorem Parsed.items_succ (ih : Parsed text fuel) (hin : c.In text) (hfuel : 2 * c.size + 2 ≤ fuel)
    {close : Char} {start : Position} {fs : List Form}
    (h : readItems close start (fuel + 1) c = .ok fs c') :
    Reads text (.forms fs) c.chars (close :: c'.chars) := by
  obtain ⟨u, c₁, hskip, hrest⟩ := bind_eq_ok.mp h
  obtain ⟨r, c₂, hpeek, hrest⟩ := bind_eq_ok.mp hrest
  have hspace := ih.skip c c₁ hin (by omega) hskip
  have hin₁ := (onward_staysIn text).made (madeAll fuel).skip |>.of_ok hskip hin
  have hin₂ := (onward_staysIn text).peek.of_ok hpeek hin₁
  obtain ⟨hbefore₂, hr, -⟩ := peek_eq_ok hpeek
  have hle := ((onward_before.made (madeAll fuel).skip).of_ok hskip).trans hbefore₂ |>.size
  rw [← chars_of_peek hpeek] at hspace
  cases r with
  | none => exact absurd hrest throw_ne_ok
  | some ch =>
    obtain ⟨cs, hcs⟩ : ∃ cs, c₂.rest = ch :: cs := List.head?_eq_some_iff.mp hr.symm
    dsimp only at hrest
    split at hrest
    · next hclose =>
      obtain ⟨u, c₃, hskip, hrest⟩ := bind_eq_ok.mp hrest
      obtain ⟨-, rfl⟩ := EStateM.Result.ok.inj hskip
      obtain ⟨rfl, rfl⟩ := pure_eq_ok.mp hrest
      rw [← hclose, ← Cursor.chars_of_rest hcs]
      exact .nil hspace
    · obtain ⟨f, c₃, hform, hrest⟩ := bind_eq_ok.mp hrest
      obtain ⟨rest, c₄, hitems, hpure⟩ := bind_eq_ok.mp hrest
      obtain ⟨rfl, rfl⟩ := pure_eq_ok.mp hpure
      have hlt := size_readForm_lt hform
      have hin₃ := (onward_staysIn text).made (madeAll fuel).form |>.of_ok hform hin₂
      exact .cons (hspace.form_of_space (ih.form _ _ _ hin₂ (by omega) hform))
        (ih.items _ _ _ _ _ hin₃ (by omega) hitems)

theorem parsed (text : List Char) (fuel : Nat) : Parsed text fuel := by
  induction fuel with
  | zero =>
    refine ⟨?_, ?_, ?_⟩
    · intro c c' _ hfuel
      omega
    · intro c f c' _ hfuel
      omega
    · intro close start c fs c' _ hfuel
      omega
  | succ fuel ih =>
    refine ⟨?_, ?_, ?_⟩
    · intro c c' hin hfuel h
      exact ih.skip_succ hin (by omega) h
    · intro c f c' hin hfuel h
      exact ih.form_succ hin (by omega) h
    · intro close start c fs c' hin hfuel h
      exact ih.items_succ hin (by omega) h

/-! ## Whole texts -/

theorem reads_skipLineEnd (c : Cursor) : Reads text .space c.chars (skipLineEnd c).chars := by
  unfold skipLineEnd
  dsimp only
  split
  · next hnewline =>
    obtain ⟨cs, hcs⟩ := List.head?_eq_some_iff.mp hnewline
    have hprefix := List.takeWhile_prefix (fun ch => ch != '\n' && isSeparator ch) (l := c.rest)
    generalize hblanks : c.rest.takeWhile (fun ch => ch != '\n' && isSeparator ch) = blanks at *
    obtain ⟨tail, htail⟩ := hprefix
    rw [← htail, List.drop_left] at hcs
    have hseparators : ∀ ch ∈ blanks, isSeparator ch = true := by
      intro ch hch
      rw [← hblanks] at hch
      have hboth := List.all_eq_true.mp List.all_takeWhile ch hch
      exact (Bool.and_eq_true_iff.mp hboth).2
    have hchars : c.chars = blanks ++ '\n' :: (c.advance (blanks.length + 1)).chars := by
      simp [Cursor.chars, Cursor.advance, ← htail, hcs]
    rw [hchars]
    exact reads_separators hseparators (.separator (by decide) .nothing)
  · exact .nothing

theorem reads_approach {prompt : String} {found : Approach} (hin : c.In text)
    (h : approach prompt fuel c = .ok found c') : Reads text .space c.chars c'.chars := by
  induction fuel generalizing c with
  | zero =>
    obtain ⟨-, rfl⟩ := EStateM.Result.ok.inj h
    exact .nothing
  | succ fuel ih =>
    cases hrest : c.rest with
    | nil =>
      rw [approach_of_nil prompt fuel hrest] at h
      split at h
      · next c₁ hfetch =>
        have hin₁ := (onward_staysIn text).fetch prompt hrest
        rw [finalState_of_ok hfetch] at hin₁
        rw [← chars_of_fetch hrest hfetch]
        exact ih (hin₁ hin) h
      · next c₁ hfetch =>
        obtain ⟨-, rfl⟩ := EStateM.Result.ok.inj h
        rw [chars_of_fetch hrest hfetch]
        exact .nothing
      · contradiction
    | cons ch cs =>
      rw [approach_of_cons prompt fuel hrest] at h
      split at h
      · next hnewline =>
        obtain ⟨-, rfl⟩ := EStateM.Result.ok.inj h
        rw [Cursor.chars_of_rest hrest, hnewline]
        exact .separator (by decide) .nothing
      · split at h
        · next hsemicolon =>
          obtain ⟨-, rfl⟩ := EStateM.Result.ok.inj h
          rw [hsemicolon] at hrest
          exact reads_discardLine hin hrest .nothing
        · split at h
          · next hseparator =>
            rw [Cursor.chars_of_rest hrest]
            exact .separator hseparator (ih ((onward_staysIn text).advance c 1 hin) h)
          · obtain ⟨-, rfl⟩ := EStateM.Result.ok.inj h
            exact .nothing

/-- What a read takes, by what comes of it. -/
theorem reads_read {prompt : String} {outcome : Outcome} (hin : c.In text)
    (h : read prompt c = .ok outcome c') :
    match outcome with
    | .form f => ∃ cs, Reads text (.form f) c.chars cs ∧ Reads text .space cs c'.chars
    | _ => Reads text .space c.chars c'.chars := by
  unfold read at h
  split at h
  · contradiction
  · next c₁ happroach =>
    obtain ⟨rfl, rfl⟩ := EStateM.Result.ok.inj h
    exact reads_approach hin happroach
  · next c₁ happroach =>
    obtain ⟨rfl, rfl⟩ := EStateM.Result.ok.inj h
    exact reads_approach hin happroach
  · next c₁ happroach =>
    have hin₁ := (onward_staysIn text).approach prompt _ |>.of_ok happroach hin
    split at h
    · next f c₂ hform =>
      obtain ⟨rfl, rfl⟩ := EStateM.Result.ok.inj h
      have hread := (parsed text _).form _ _ _ hin₁ (by unfold Cursor.steps; omega) hform
      exact ⟨_, (reads_approach hin happroach).form_of_space hread, reads_skipLineEnd c₂⟩
    · contradiction

theorem reads_readRest {forms : List Form} (hin : c.In text) (hfuel : c.size < fuel)
    (h : readRest fuel c = .ok forms) : Reads text (.forms forms) c.chars [] := by
  induction fuel generalizing c forms with
  | zero => omega
  | succ fuel ih =>
    rw [readRest] at h
    have hprogressed := progressed_read "" c
    cases hread : read "" c with
    | error e c₁ => simp [hread] at h
    | ok outcome c₁ =>
      have htaken := reads_read hin hread
      have hin₁ := (onward_staysIn text).read "" |>.of_ok hread hin
      rw [hread] at h hprogressed
      cases hprogressed with
      | streamEnd _ hend =>
        obtain rfl : [] = forms := Except.ok.inj h
        rw [← Cursor.chars_of_size (hend hin.consistent)]
        exact .nil htaken
      | read hne _ hlt =>
        cases outcome with
        | streamEnd => exact absurd rfl hne
        | lineStart => exact htaken.forms_of_space (ih hin₁ (by omega) h)
        | form f =>
          obtain ⟨cs, hform, hspace⟩ := htaken
          dsimp only at h
          cases hrest : readRest fuel c₁ with
          | error e => simp [hrest, Except.map] at h
          | ok rest =>
            obtain rfl : f :: rest = forms := by simpa [hrest, Except.map] using h
            exact .cons hform (hspace.forms_of_space (ih hin₁ (by omega) hrest))

/-- A text that is read is laid out as the grammar says. -/
theorem reads_readAll {text : String} {forms : List Form} (h : readAll text = .ok forms) :
    Reads (closeText text.toList) (.forms forms) (closeText text.toList) [] := by
  have hin := in_ofLines text
  have hreads := reads_readRest hin (by omega) h
  rwa [chars_ofLines] at hreads

end Parsed

end Reading

end LiveLisp
