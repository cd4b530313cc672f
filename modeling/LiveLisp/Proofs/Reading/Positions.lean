import LiveLisp.Proofs.Reading.Sources
/-!
# Where forms stand

A text has one layout: the forms that the grammar finds in it, and so those that are read from it.
Each stands at the first character of its own source, and in reading order the positions increase.
-/

namespace LiveLisp

open Text (Position)

/-- The character at a position: in the line of that number the one of that number. -/
def Text.charAt? (text : List Char) : Position → Option Char
  | ⟨line + 1, column + 1⟩ => ((text.splitOn '\n')[line]?.getD [])[column]?
  | _ => none

theorem Text.Position.compare_eq_lt_iff {p q : Position} :
    p.compare q = .lt ↔ p.line < q.line ∨ p.line = q.line ∧ p.column < q.column := by
  simp only [Position.compare, Ordering.then_eq_lt, Nat.compare_eq_lt, Nat.compare_eq_eq]

namespace Reading

/-- The form stands at `cs`, as its position says: its source begins there, or the sign that it is
the symbol for. -/
def StandsAt (text cs : List Char) (f : Form) : Prop :=
  cs <:+ text ∧ f.pos = Text.standing text cs ∧
    ((∃ rest, Reads text (.source f) cs rest) ∨
      ∃ sign name more, (sign, name) ∈ signs ∧ f = .symbol name f.pos ∧ cs = sign :: more)

/-- `g` is the symbol that the sign before a form stands for, and `f` what is made of it and the
form. -/
def SignOf (f g : Form) : Prop :=
  ∃ p sign name h, (sign, name) ∈ signs ∧ g = .symbol name p ∧ f = .list p [g, h]

/-- `f` stands before `g`, or they stand for the same sign. -/
def Precedes (f g : Form) : Prop := f.pos.compare g.pos = .lt ∨ SignOf f g

/-! ## Lines -/

/-- In these lines `cs` are still to come from the position on. -/
def Left (lines : List (List Char)) (p : Position) (cs : List Char) : Prop :=
  ∃ line before here more, p = ⟨line + 1, before.length + 1⟩ ∧ cs.splitOn '\n' = here :: more ∧
    lines.drop line = (before ++ here) :: more

theorem Left.next {lines : List (List Char)} {p : Position} {ch : Char} {cs : List Char}
    (h : Left lines p (ch :: cs)) : Left lines (p.next ch) cs := by
  obtain ⟨line, before, here, more, rfl, hsplit, hdrop⟩ := h
  obtain ⟨here', more', hcs⟩ := List.exists_cons_of_ne_nil (List.splitOn_ne_nil '\n' cs)
  rw [List.splitOn_cons_eq_if_modifyHead, hcs] at hsplit
  unfold Position.next
  split
  · next hch =>
    rw [if_pos (by simpa using hch)] at hsplit
    obtain ⟨rfl, rfl⟩ := List.cons.inj hsplit
    refine ⟨line + 1, [], here', more', rfl, hcs, ?_⟩
    rw [← List.drop_drop, hdrop]
    rfl
  · next hch =>
    rw [if_neg (by simpa using hch)] at hsplit
    obtain ⟨rfl, rfl⟩ := List.cons.inj hsplit
    exact ⟨line, before ++ [ch], here', more', by simp, hcs, by simpa using hdrop⟩

theorem Left.foldl_next {lines : List (List Char)} {p : Position} {before cs : List Char}
    (h : Left lines p (before ++ cs)) : Left lines (before.foldl Position.next p) cs := by
  induction before generalizing p with
  | nil => exact h
  | cons ch before ih => exact ih h.next

/-- Where the rest of a text stands, there is its first character. -/
theorem charAt?_standing {text cs : List Char} {ch : Char} (h : ch :: cs <:+ closeText text)
    (hch : ch ≠ '\n') :
    Text.charAt? text (Text.standing (closeText text) (ch :: cs)) = some ch := by
  obtain ⟨before, hclosed⟩ := h
  have htext : ∃ cs', text = before ++ ch :: cs' := by
    unfold closeText closeLine at hclosed
    split at hclosed
    · simp at hclosed
    · split at hclosed
      · exact ⟨cs, hclosed.symm⟩
      · rcases List.eq_nil_or_concat cs with rfl | ⟨cs', last, rfl⟩
        · exact absurd (List.cons.inj (List.append_inj' hclosed rfl).2).1 hch
        · rw [List.concat_eq_append, ← List.cons_append, ← List.append_assoc] at hclosed
          exact ⟨cs', (List.append_inj' hclosed rfl).1.symm⟩
  obtain ⟨cs', rfl⟩ := htext
  rw [← hclosed, standing_append]
  obtain ⟨here, more, hsplit⟩ := List.exists_cons_of_ne_nil
    (List.splitOn_ne_nil '\n' (before ++ ch :: cs'))
  have hleft : Left ((before ++ ch :: cs').splitOn '\n') .start (before ++ ch :: cs') :=
    ⟨0, [], here, more, rfl, hsplit, hsplit⟩
  obtain ⟨line, front, here, more, hp, hsplit, hdrop⟩ := hleft.foldl_next
  rw [List.splitOn_cons_eq_if_modifyHead, if_neg (by simpa using hch)] at hsplit
  obtain ⟨here', more', hcs'⟩ := List.exists_cons_of_ne_nil (List.splitOn_ne_nil '\n' cs')
  rw [hcs'] at hsplit
  obtain ⟨rfl, rfl⟩ := List.cons.inj hsplit
  have hline := congrArg List.head? hdrop
  rw [List.head?_drop] at hline
  simp [hp, Text.charAt?, hline]

/-! ## Order -/

theorem compare_foldl_next {more : List Char} (hne : more ≠ []) (p : Position) :
    p.compare (more.foldl Position.next p) = .lt := by
  have hnext : ∀ (q : Position) (ch : Char), q.compare (q.next ch) = .lt := by
    intro q ch
    rw [Position.compare_eq_lt_iff]
    unfold Position.next
    split
    · exact .inl (Nat.lt_succ_self _)
    · exact .inr ⟨rfl, Nat.lt_succ_self _⟩
  induction more generalizing p with
  | nil => contradiction
  | cons ch more ih =>
    rw [List.foldl_cons]
    cases more with
    | nil => exact hnext p ch
    | cons d more =>
      have hfirst := hnext p ch
      have hmore := ih (by simp) (p.next ch)
      rw [Position.compare_eq_lt_iff] at *
      omega

/-- What comes later in a text stands behind. -/
theorem standing_lt {text cs cs' : List Char} (htext : cs <:+ text) (hsuffix : cs' <:+ cs)
    (hne : cs ≠ cs') :
    (Text.standing text cs).compare (Text.standing text cs') = .lt := by
  obtain ⟨before, rfl⟩ := htext
  obtain ⟨more, rfl⟩ := hsuffix
  rw [standing_append, ← List.append_assoc, standing_append, List.foldl_append]
  refine compare_foldl_next ?_ _
  rintro rfl
  exact hne rfl

/-- The position of a place in the text from `cs` on and before `rest`. -/
def Between (text cs rest : List Char) (p : Position) : Prop :=
  ∃ place, place <:+ cs ∧ rest <:+ place ∧ place ≠ rest ∧ p = Text.standing text place

/-- The forms stand where their positions say, one after the other, from `cs` on and before
`rest`. -/
structure Laid (text cs rest : List Char) (forms : List Form) : Prop where
  stands : ∀ f ∈ forms.flatMap Form.preorder, ∃ place, StandsAt text place f
  between : ∀ f ∈ forms.flatMap Form.preorder, Between text cs rest f.pos
  ordered : (forms.flatMap Form.preorder).Pairwise Precedes

section Laid

variable {text cs cs' rest rest' : List Char} {p q : Position} {f : Form} {fs : List Form}

theorem Between.mono (h : Between text cs rest p) (hcs : cs <:+ cs') (hrest : rest' <:+ rest) :
    Between text cs' rest' p := by
  obtain ⟨place, hlower, hupper, hne, hp⟩ := h
  refine ⟨place, hlower.trans hcs, hrest.trans hupper, ?_, hp⟩
  rintro rfl
  exact hne (hrest.eq_of_length_le hupper.length_le)

theorem Between.compare_eq_lt (hp : Between text cs cs' p) (hq : Between text cs' rest q)
    (htext : cs <:+ text) : p.compare q = .lt := by
  obtain ⟨place, hlower, hupper, hne, rfl⟩ := hp
  obtain ⟨place', hlower', -, -, rfl⟩ := hq
  refine standing_lt (hlower.trans htext) (hlower'.trans hupper) ?_
  rintro rfl
  exact hne (hlower'.eq_of_length_le hupper.length_le)

theorem between_self (hsuffix : rest <:+ cs) (hne : cs ≠ rest) (hp : p = Text.standing text cs) :
    Between text cs rest p :=
  ⟨cs, List.suffix_refl cs, hsuffix, hne, hp⟩

theorem laid_nil (text cs rest : List Char) : Laid text cs rest [] :=
  ⟨by simp, by simp, by simp⟩

theorem Laid.mono (h : Laid text cs rest fs) (hcs : cs <:+ cs') (hrest : rest' <:+ rest) :
    Laid text cs' rest' fs :=
  ⟨h.stands, fun g hg => (h.between g hg).mono hcs hrest, h.ordered⟩

theorem Laid.cons (hf : Laid text cs cs' [f]) (hfs : Laid text cs' rest fs) (htext : cs <:+ text)
    (hcs : cs' <:+ cs) (hrest : rest <:+ cs') : Laid text cs rest (f :: fs) := by
  have hsplit : (f :: fs).flatMap Form.preorder =
      [f].flatMap Form.preorder ++ fs.flatMap Form.preorder := by
    rw [List.flatMap_cons, List.flatMap_singleton]
  refine ⟨?_, ?_, ?_⟩ <;> rw [hsplit]
  · exact List.forall_mem_append.mpr ⟨hf.stands, hfs.stands⟩
  · exact List.forall_mem_append.mpr
      ⟨fun g hg => (hf.between g hg).mono (List.suffix_refl cs) hrest,
        fun g hg => (hfs.between g hg).mono hcs (List.suffix_refl rest)⟩
  · exact List.pairwise_append.mpr ⟨hf.ordered, hfs.ordered, fun g hg h hh =>
      .inl ((hf.between g hg).compare_eq_lt (hfs.between h hh) htext)⟩

/-- A form around its parts, which stand between its first characters and its last one. -/
theorem Laid.around {close : Char} (front : List Char)
    (hparts : Laid text cs (close :: rest) f.parts) (hclose : close :: rest <:+ cs)
    (hread : Reads text (.source f) (front ++ cs) rest)
    (hfront : front ≠ []) (htext : front ++ cs <:+ text)
    (hpos : f.pos = Text.standing text (front ++ cs)) : Laid text (front ++ cs) rest [f] := by
  have hpreorder : [f].flatMap Form.preorder = f :: f.parts.flatMap Form.preorder := by
    rw [List.flatMap_singleton, Form.preorder_eq]
  have hcs : cs <:+ front ++ cs := List.suffix_append _ _
  have hrest : rest <:+ close :: rest := List.suffix_cons _ _
  have hself : Between text (front ++ cs) cs f.pos := between_self hcs (by simpa) hpos
  have hinner := hparts.mono (List.suffix_refl cs) hrest
  refine ⟨?_, ?_, ?_⟩ <;> rw [hpreorder]
  · exact List.forall_mem_cons.mpr ⟨⟨_, htext, hpos, .inl ⟨rest, hread⟩⟩, hinner.stands⟩
  · exact List.forall_mem_cons.mpr ⟨hself.mono (List.suffix_refl _) (hrest.trans hclose),
      fun g hg => (hinner.between g hg).mono hcs (List.suffix_refl rest)⟩
  · exact List.pairwise_cons.mpr
      ⟨fun g hg => .inl (hself.compare_eq_lt (hinner.between g hg) htext), hinner.ordered⟩

theorem laid_of_atom {a : Atom} (hread : Reads text (.source (.atom p a)) cs rest)
    (htext : cs <:+ text) (hpos : p = Text.standing text cs) : Laid text cs rest [.atom p a] := by
  have hpreorder : [Form.atom p a].flatMap Form.preorder = [.atom p a] := by
    simp [Form.preorder_eq, Form.parts]
  obtain ⟨hsuffix, hlt⟩ := hread.suffix
  have hne : cs ≠ rest := by
    rintro rfl
    exact absurd (hlt trivial) (Nat.lt_irrefl _)
  refine ⟨?_, ?_, ?_⟩ <;> rw [hpreorder]
  · exact List.forall_mem_singleton.mpr ⟨cs, htext, hpos, .inl ⟨rest, hread⟩⟩
  · exact List.forall_mem_singleton.mpr (between_self hsuffix hne hpos)
  · exact List.pairwise_singleton _ _

/-- A form after a sign. -/
theorem Laid.signed {sign : Char} {name : String} (hf : Laid text cs rest [f])
    (hsign : (sign, name) ∈ signs)
    (hread : Reads text (.source (.list p [.symbol name p, f])) (sign :: cs) rest)
    (htext : sign :: cs <:+ text) (hpos : p = Text.standing text (sign :: cs))
    (hrest : rest <:+ cs) : Laid text (sign :: cs) rest [.list p [.symbol name p, f]] := by
  have hpreorder : [Form.list p [.symbol name p, f]].flatMap Form.preorder =
      .list p [.symbol name p, f] :: .symbol name p :: [f].flatMap Form.preorder := by
    simp [Form.preorder_eq, Form.parts, Form.symbol]
  have hself : Between text (sign :: cs) cs p :=
    between_self (List.suffix_cons _ _) (by simp) hpos
  have hself' := hself.mono (List.suffix_refl _) hrest
  refine ⟨?_, ?_, ?_⟩ <;> rw [hpreorder]
  · exact List.forall_mem_cons.mpr ⟨⟨_, htext, hpos, .inl ⟨rest, hread⟩⟩,
      List.forall_mem_cons.mpr
        ⟨⟨_, htext, hpos, .inr ⟨sign, name, cs, hsign, rfl, rfl⟩⟩, hf.stands⟩⟩
  · exact List.forall_mem_cons.mpr ⟨hself', List.forall_mem_cons.mpr ⟨hself',
      fun g hg => (hf.between g hg).mono (List.suffix_cons _ _) (List.suffix_refl rest)⟩⟩
  · have hbefore : ∀ g ∈ [f].flatMap Form.preorder, p.compare g.pos = .lt :=
      fun g hg => hself.compare_eq_lt (hf.between g hg) htext
    refine List.pairwise_cons.mpr ⟨List.forall_mem_cons.mpr ⟨.inr ?_, fun g hg =>
      .inl (hbefore g hg)⟩, List.pairwise_cons.mpr ⟨fun g hg => .inl (hbefore g hg), hf.ordered⟩⟩
    exact ⟨p, sign, name, f, hsign, rfl, rfl⟩

/-- What holds of the forms in a phrase where it stands. -/
def Phrase.Laid (text cs rest : List Char) : Phrase → Prop
  | .space => True
  | .form f => Reading.Laid text cs rest [f]
  | .source f => f.pos = Text.standing text cs → Reading.Laid text cs rest [f]
  | .forms fs => Reading.Laid text cs rest fs

end Laid

/-- In every part of a text the forms stand in order. -/
theorem Reads.laid {text cs rest : List Char} {phrase : Phrase} (h : Reads text phrase cs rest)
    (htext : cs <:+ text) : phrase.Laid text cs rest := by
  induction h with
  | nothing | separator | comment | discarded => trivial
  | plain hspace hpos hf _ ih =>
    have hcs := hspace.suffix.1
    exact (ih (hcs.trans htext) hpos).mono hcs (List.suffix_refl _)
  | hinted hspace hhint hf _ _ ih =>
    have hcs := (hhint.suffix.1.trans (List.suffix_cons _ _)).trans hspace.suffix.1
    exact (ih (hcs.trans htext)).mono hcs (List.suffix_refl _)
  | list h ih =>
    have hparts := ih ((List.suffix_cons _ _).trans htext)
    exact Laid.around (f := .list _ _) ['('] hparts h.suffix.1 (.list h) (by simp) htext
  | vector h ih =>
    have hparts := ih ((List.suffix_cons _ _).trans htext)
    exact Laid.around (f := .vector _ _) ['['] hparts h.suffix.1 (.vector h) (by simp) htext
  | @set p items cs rest h ih =>
    have hparts := ih ((List.suffix_append ['#', '\x7b'] cs).trans htext)
    exact Laid.around (f := .set _ _) ['#', '\x7b'] hparts h.suffix.1 (.set h) (by simp) htext
  | map h ih =>
    have hparts := ih ((List.suffix_cons _ _).trans htext)
    exact Laid.around (f := .map _ _) ['\x7b'] hparts h.suffix.1 (.map h) (by simp) htext
  | signed hsign h ih =>
    intro hpos
    exact (ih ((List.suffix_cons _ _).trans htext)).signed hsign (.signed hsign h) htext hpos
      h.suffix.1
  | str h => exact laid_of_atom (.str h) htext
  | char hmore hend hch => exact laid_of_atom (.char hmore hend hch) htext
  | token hfirst hmore hend ha => exact laid_of_atom (.token hfirst hmore hend ha) htext
  | nil => exact laid_nil _ _ _
  | cons hf hfs ihf ih =>
    exact (ihf htext).cons (ih (hf.suffix.1.trans htext)) htext hf.suffix.1 hfs.suffix.1

/-! ## The forms of a text -/

/-- Where a form stands, its source has a first character, and the line has it there. -/
theorem StandsAt.charAt? {text place : List Char} {f : Form}
    (h : StandsAt (closeText text) place f) :
    ∃ ch more, place = ch :: more ∧ Text.charAt? text f.pos = some ch := by
  obtain ⟨hsuffix, hpos, hown⟩ := h
  have hfirst : ∃ ch more, place = ch :: more ∧ ch ≠ '\n' := by
    rcases hown with ⟨rest, hread⟩ | ⟨sign, name, more, hsign, -, rfl⟩
    · obtain ⟨hunspaced, -, hclosing⟩ := hread.begins
      cases place with
      | nil => exact absurd (by simp [Closing]) hclosing
      | cons ch more =>
        refine ⟨ch, more, rfl, ?_⟩
        rintro rfl
        exact absurd hunspaced.1 (by decide)
    · refine ⟨sign, more, rfl, ?_⟩
      rintro rfl
      exact absurd hsign (by simp [signs])
  obtain ⟨ch, more, rfl, hch⟩ := hfirst
  exact ⟨ch, more, rfl, by rw [hpos, charAt?_standing hsuffix hch]⟩

/-- The forms of a text, each with its position, are the only ones that its characters are laid
out as.  All of them, at every depth, stand where their positions say: in the line of that number
the character of that number is the first one of their source.  In reading order the positions
increase, except that the symbol for a sign stands where its list does. -/
theorem positions_exact {text : String} {forms : List Form} (h : readAll text = .ok forms) :
    let closed := closeText text.toList
    Reads closed (.forms forms) closed [] ∧
      (∀ forms', Reads closed (.forms forms') closed [] → forms' = forms) ∧
      (∀ f ∈ forms.flatMap Form.preorder, ∃ ch more, StandsAt closed (ch :: more) f ∧
        Text.charAt? text.toList f.pos = some ch) ∧
      (forms.flatMap Form.preorder).Pairwise Precedes := by
  intro closed
  have hreads := reads_readAll h
  have hlaid := hreads.laid (List.suffix_refl _)
  have hover : Closing [] := by simp [Closing]
  refine ⟨hreads, fun forms' h' => (hreads.unique hover _ _ h' hover).1, fun f hf => ?_,
    hlaid.ordered⟩
  obtain ⟨place, hstands⟩ := hlaid.stands f hf
  obtain ⟨ch, more, rfl, hch⟩ := hstands.charAt?
  exact ⟨ch, more, hstands, hch⟩

/-- A quoted symbol: a list and its head on the sign, and the symbol after them. -/
theorem positions_exact_quoted :
    let quoted : Form := .list ⟨1, 1⟩ [.symbol "quote" ⟨1, 1⟩, .symbol "a" ⟨1, 2⟩]
    readAll "'a" = .ok [quoted] ∧ Reads "'a\n".toList (.forms [quoted]) "'a\n".toList [] ∧
      (∀ forms, Reads "'a\n".toList (.forms forms) "'a\n".toList [] → forms = [quoted]) ∧
      (∀ f ∈ [quoted].flatMap Form.preorder, ∃ ch more, StandsAt "'a\n".toList (ch :: more) f ∧
        Text.charAt? "'a".toList f.pos = some ch) ∧
      ([quoted].flatMap Form.preorder).Pairwise Precedes := by
  intro quoted
  have hread : readAll "'a" = .ok [quoted] := rfl
  exact ⟨hread, positions_exact hread⟩

end Reading

end LiveLisp
