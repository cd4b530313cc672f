import LiveLisp.Munge
import Mathlib.Data.List.Infix
/-!
# Which names are read back from their identifiers

An underscore of an identifier opens or closes a spelling, or stands for a hyphen.  Reading goes
from the left and takes a spelling where it can, so a hyphen is lost exactly where the characters
behind it complete one.  Up to the first such hyphen the reader is in step with the name.
-/

namespace LiveLisp.Munge

/-! ## Spellings -/

/-- The character is written with a spelling. -/
def IsSpelled (c : Char) : Prop := c ∈ spellings.map Prod.fst

instance (c : Char) : Decidable (IsSpelled c) := inferInstanceAs (Decidable (c ∈ _))

/-- The word that stands between the underscores of a spelling. -/
def IsInnerWord (word : List Char) : Prop := ∃ s ∈ spellings, s.2 = '_' :: (word ++ ['_'])

/-- What is checked of the table once: the characters are neither letters nor hyphens nor
underscores, and each is written as letters between underscores. -/
theorem spelling_shape {s : Char × List Char} (hs : s ∈ spellings) :
    s.1.isAlpha = false ∧ s.1 ≠ '-' ∧ s.1 ≠ '_' ∧ mungeChar s.1 = s.2 ∧
      ∃ word, s.2 = '_' :: (word ++ ['_']) ∧ ∀ d ∈ word, d.isAlpha = true := by
  have hall : ∀ s ∈ spellings, s.1.isAlpha = false ∧ s.1 ≠ '-' ∧ s.1 ≠ '_' ∧
      mungeChar s.1 = s.2 ∧ s.2 = '_' :: (s.2.tail.dropLast ++ ['_']) ∧
      s.2.tail.dropLast.all Char.isAlpha = true := by
    decide +kernel
  obtain ⟨halpha, hhyphen, hunderscore, hmunge, hshape, hword⟩ := hall s hs
  exact ⟨halpha, hhyphen, hunderscore, hmunge, _, hshape, List.all_eq_true.mp hword⟩

/-- No spelling begins another one. -/
theorem spelling_eq_of_begins {s t : Char × List Char} (hs : s ∈ spellings) (ht : t ∈ spellings)
    (h : s.2 <+: t.2) : s = t := by
  have hall : ∀ s ∈ spellings, ∀ t ∈ spellings, s.2.isPrefixOf t.2 = true → s = t := by
    decide +kernel
  exact hall s hs t ht (List.isPrefixOf_iff_prefix.mpr h)

theorem IsInnerWord.isAlpha {word : List Char} (h : IsInnerWord word) :
    ∀ d ∈ word, d.isAlpha = true := by
  obtain ⟨s, hs, hword⟩ := h
  obtain ⟨-, -, -, -, word', hword', halpha⟩ := spelling_shape hs
  have heq : word ++ ['_'] = word' ++ ['_'] := (List.cons.inj (hword.symm.trans hword')).2
  rw [List.append_cancel_right heq]
  exact halpha

/-! ## What stands for a character -/

@[simp] theorem mungeChar_hyphen : mungeChar '-' = ['_'] := rfl

theorem mungeChar_plain {c : Char} (hhyphen : c ≠ '-') (hspelled : ¬ IsSpelled c) :
    mungeChar c = [c] := by
  have hnone : spellings.find? (fun s => s.1 == c) = none := by
    rw [List.find?_eq_none]
    intro s hs heq
    exact hspelled (List.mem_map.mpr ⟨s, hs, by simpa using heq⟩)
  rw [mungeChar, if_neg hhyphen, hnone]

theorem mungeChar_of_isAlpha {c : Char} (h : c.isAlpha = true) : mungeChar c = [c] := by
  apply mungeChar_plain
  · rintro rfl
    cases h
  · intro hspelled
    obtain ⟨s, hs, rfl⟩ := List.mem_map.mp hspelled
    rw [(spelling_shape hs).1] at h
    cases h

/-- A hyphen or a character that is spelled out is written with an underscore in front. -/
theorem exists_mungeChar_eq {c : Char} (h : c = '-' ∨ IsSpelled c) :
    ∃ rest, mungeChar c = '_' :: rest := by
  rcases h with rfl | h
  · exact ⟨[], rfl⟩
  · obtain ⟨s, hs, rfl⟩ := List.mem_map.mp h
    obtain ⟨-, -, -, hmunge, word, hword, -⟩ := spelling_shape hs
    exact ⟨word ++ ['_'], hmunge.trans hword⟩

/-- What is written for a character is underscores, letters, or the character itself. -/
theorem mem_mungeChar {c d : Char} (h : c ∈ mungeChar d) :
    c = '_' ∨ c.isAlpha = true ∨ c = d := by
  by_cases hhyphen : d = '-'
  · subst hhyphen
    exact .inl (by simpa using h)
  · by_cases hspelled : IsSpelled d
    · obtain ⟨s, hs, rfl⟩ := List.mem_map.mp hspelled
      obtain ⟨-, -, -, hmunge, word, hword, halpha⟩ := spelling_shape hs
      rw [hmunge, hword] at h
      simp only [List.mem_cons, List.mem_append, List.not_mem_nil, or_false] at h
      rcases h with rfl | hletter | rfl
      · exact .inl rfl
      · exact .inr (.inl (halpha c hletter))
      · exact .inl rfl
    · rw [mungeChar_plain hhyphen hspelled, List.mem_singleton] at h
      exact .inr (.inr h)

/-- Behind letters, an underscore is written exactly for a hyphen or for a character that is
spelled out. -/
theorem prefix_flatMap_mungeChar_iff {word name : List Char}
    (hword : ∀ d ∈ word, d.isAlpha = true) (hname : '_' ∉ name) :
    word ++ ['_'] <+: name.flatMap mungeChar ↔
      ∃ c after, name = word ++ c :: after ∧ (c = '-' ∨ IsSpelled c) := by
  induction word generalizing name with
  | nil =>
    cases name with
    | nil => simp
    | cons c name =>
      by_cases hc : c = '-' ∨ IsSpelled c
      · obtain ⟨rest, hrest⟩ := exists_mungeChar_eq hc
        simp [hrest, hc]
      · obtain ⟨hhyphen, hspelled⟩ := not_or.mp hc
        have hne : '_' ≠ c := (List.ne_and_not_mem_of_not_mem_cons hname).1
        simp [mungeChar_plain hhyphen hspelled, hne, hhyphen, hspelled]
  | cons w word ih =>
    obtain ⟨hw, hrest⟩ := List.forall_mem_cons.mp hword
    have hletter : w ≠ '_' := by
      rintro rfl
      cases hw
    cases name with
    | nil => simp
    | cons c name =>
      have htail := (List.ne_and_not_mem_of_not_mem_cons hname).2
      rw [List.flatMap_cons, List.cons_append]
      by_cases hcw : c = w
      · subst hcw
        rw [mungeChar_of_isAlpha hw, List.singleton_append, List.cons_prefix_cons, ih hrest htail]
        simp
      · -- another character begins with itself or with an underscore
        have hfirst : ¬ w :: (word ++ ['_']) <+: mungeChar c ++ name.flatMap mungeChar := by
          by_cases hc : c = '-' ∨ IsSpelled c
          · obtain ⟨rest, hrest⟩ := exists_mungeChar_eq hc
            simp [hrest, hletter]
          · obtain ⟨hhyphen, hspelled⟩ := not_or.mp hc
            simp [mungeChar_plain hhyphen hspelled, Ne.symm hcw]
        simp [hfirst, hcw]

/-! ## Reading back -/

theorem demungeFrom_eq_drop (skip : Nat) (cs : List Char) :
    demungeFrom skip cs = demungeFrom 0 (cs.drop skip) := by
  induction cs generalizing skip with
  | nil => simp [demungeFrom]
  | cons c cs ih =>
    cases skip with
    | zero => rfl
    | succ skip =>
      rw [demungeFrom, ih skip]
      rfl

theorem demungeFrom_plain {c : Char} (hc : c ≠ '_') (rest : List Char) :
    demungeFrom 0 (c :: rest) = c :: demungeFrom 0 rest := by
  simp [demungeFrom, hc]

/-- A spelling is read back as its character, whatever follows. -/
theorem demungeFrom_spelling {s : Char × List Char} (hs : s ∈ spellings) (rest : List Char) :
    demungeFrom 0 (s.2 ++ rest) = s.1 :: demungeFrom 0 rest := by
  obtain ⟨-, -, -, -, word, hword, -⟩ := spelling_shape hs
  have hfound : spellings.find? (fun t => t.2.isPrefixOf (s.2 ++ rest)) = some s := by
    cases hfind : spellings.find? (fun t => t.2.isPrefixOf (s.2 ++ rest)) with
    | none =>
      have hmissing := List.find?_eq_none.mp hfind s hs
      exact absurd (List.isPrefixOf_iff_prefix.mpr (List.prefix_append s.2 rest)) hmissing
    | some t =>
      have hfits := List.find?_some hfind
      have hprefix := List.isPrefixOf_iff_prefix.mp hfits
      have ht := List.mem_of_find?_eq_some hfind
      -- two spellings that begin one text begin each other
      rcases List.prefix_or_prefix_of_prefix hprefix (List.prefix_append s.2 rest) with h | h
      · rw [spelling_eq_of_begins ht hs h]
      · rw [spelling_eq_of_begins hs ht h]
  have hcons : s.2 ++ rest = '_' :: (word ++ '_' :: rest) := by simp [hword]
  rw [hcons] at hfound ⊢
  rw [demungeFrom, if_pos rfl, hfound]
  dsimp only
  rw [demungeFrom_eq_drop, hword]
  simp

/-- An underscore that begins no spelling is read back as a hyphen. -/
theorem demungeFrom_underscore {rest : List Char}
    (h : ∀ s ∈ spellings, ¬ s.2 <+: '_' :: rest) :
    demungeFrom 0 ('_' :: rest) = '-' :: demungeFrom 0 rest := by
  have hnone : spellings.find? (fun s => s.2.isPrefixOf ('_' :: rest)) = none := by
    rw [List.find?_eq_none]
    intro s hs hprefix
    exact h s hs (List.isPrefixOf_iff_prefix.mp hprefix)
  rw [demungeFrom, if_pos rfl, hnone]

theorem underscore_not_mem_demungeFrom (skip : Nat) (cs : List Char) :
    '_' ∉ demungeFrom skip cs := by
  induction cs generalizing skip with
  | nil => simp [demungeFrom]
  | cons c cs ih =>
    cases skip with
    | succ skip => exact ih skip
    | zero =>
      rw [demungeFrom]
      split
      · split
        · next s _ hfound =>
          have hne := (spelling_shape (List.mem_of_find?_eq_some hfound)).2.2.1
          exact List.not_mem_cons_of_ne_of_not_mem (Ne.symm hne) (ih _)
        · exact List.not_mem_cons_of_ne_of_not_mem (by decide) (ih 0)
      · next hc => exact List.not_mem_cons_of_ne_of_not_mem (Ne.symm hc) (ih 0)

/-! ## Hyphens that are taken for spellings -/

/-- The text goes on like a spelling does behind its first underscore: with an inner word, and then
with a hyphen or a character that is spelled out. -/
def CompletesSpelling (text : List Char) : Prop :=
  ∃ word c after, text = word ++ c :: after ∧ IsInnerWord word ∧ (c = '-' ∨ IsSpelled c)

/-- Somewhere in the name a hyphen stands before a text that completes a spelling. -/
def HasFalseSpelling (name : List Char) : Prop :=
  ∃ before rest, name = before ++ '-' :: rest ∧ CompletesSpelling rest

theorem hasFalseSpelling_cons_iff (c : Char) (name : List Char) :
    HasFalseSpelling (c :: name) ↔
      c = '-' ∧ CompletesSpelling name ∨ HasFalseSpelling name := by
  constructor
  · rintro ⟨before, rest, hname, hrest⟩
    cases before with
    | nil =>
      obtain ⟨rfl, rfl⟩ := List.cons.inj hname
      exact .inl ⟨rfl, hrest⟩
    | cons d before => exact .inr ⟨before, rest, (List.cons.inj hname).2, hrest⟩
  · rintro (⟨rfl, hrest⟩ | ⟨before, rest, rfl, hrest⟩)
    · exact ⟨[], name, rfl, hrest⟩
    · exact ⟨c :: before, rest, rfl, hrest⟩

/-- A spelling is found at the underscore of a hyphen exactly if what follows completes one. -/
theorem exists_spelling_prefix_iff {rest : List Char} (hrest : '_' ∉ rest) :
    (∃ s ∈ spellings, s.2 <+: '_' :: rest.flatMap mungeChar) ↔ CompletesSpelling rest := by
  constructor
  · rintro ⟨s, hs, hprefix⟩
    obtain ⟨-, -, -, -, word, hword, halpha⟩ := spelling_shape hs
    rw [hword, List.cons_prefix_cons, prefix_flatMap_mungeChar_iff halpha hrest] at hprefix
    obtain ⟨-, c, after, hname, hc⟩ := hprefix
    exact ⟨word, c, after, hname, ⟨s, hs, hword⟩, hc⟩
  · rintro ⟨word, c, after, hname, hinner, hc⟩
    have hprefix := (prefix_flatMap_mungeChar_iff hinner.isAlpha hrest).mpr ⟨c, after, hname, hc⟩
    obtain ⟨s, hs, hword⟩ := hinner
    refine ⟨s, hs, ?_⟩
    rw [hword, List.cons_prefix_cons]
    exact ⟨rfl, hprefix⟩

/-- Without underscores, a name is read back exactly if none of its hyphens is taken for the
beginning of a spelling. -/
theorem demungeFrom_flatMap_iff {name : List Char} (hname : '_' ∉ name) :
    demungeFrom 0 (name.flatMap mungeChar) = name ↔ ¬ HasFalseSpelling name := by
  induction name with
  | nil => simp [demungeFrom, HasFalseSpelling]
  | cons c name ih =>
    obtain ⟨hc, htail⟩ := List.ne_and_not_mem_of_not_mem_cons hname
    rw [hasFalseSpelling_cons_iff, List.flatMap_cons]
    by_cases hspelled : IsSpelled c
    · obtain ⟨s, hs, rfl⟩ := List.mem_map.mp hspelled
      obtain ⟨-, hhyphen, -, hmunge, -⟩ := spelling_shape hs
      rw [hmunge, demungeFrom_spelling hs]
      simp [ih htail, hhyphen]
    · by_cases hhyphen : c = '-'
      · subst hhyphen
        rw [mungeChar_hyphen, List.singleton_append]
        by_cases hrest : CompletesSpelling name
        · -- the reader takes the spelling, and its character is no hyphen
          obtain ⟨s, hs, more, hmore⟩ := (exists_spelling_prefix_iff htail).mpr hrest
          rw [← hmore, demungeFrom_spelling hs]
          simp [hrest, (spelling_shape hs).2.1]
        · have hnone : ∀ s ∈ spellings, ¬ s.2 <+: '_' :: name.flatMap mungeChar := by
            intro s hs hprefix
            exact hrest ((exists_spelling_prefix_iff htail).mp ⟨s, hs, hprefix⟩)
          rw [demungeFrom_underscore hnone]
          simp [ih htail, hrest]
      · rw [mungeChar_plain hhyphen hspelled, List.singleton_append,
          demungeFrom_plain (Ne.symm hc)]
        simp [ih htail, hhyphen]

/-! ## Reserved words -/

/-- An identifier without underscores is the name itself. -/
theorem flatMap_mungeChar_eq_self {name : List Char} (h : '_' ∉ name.flatMap mungeChar) :
    name.flatMap mungeChar = name := by
  induction name with
  | nil => rfl
  | cons c name ih =>
    rw [List.flatMap_cons, List.mem_append, not_or] at h
    have hc : ¬ (c = '-' ∨ IsSpelled c) := by
      intro hc
      obtain ⟨rest, hrest⟩ := exists_mungeChar_eq hc
      exact h.1 (by simp [hrest])
    obtain ⟨hhyphen, hspelled⟩ := not_or.mp hc
    rw [List.flatMap_cons, mungeChar_plain hhyphen hspelled, ih h.2, List.singleton_append]

theorem isAlpha_of_reserved {word : List Char} (h : word ∈ reserved) :
    ∀ d ∈ word, d.isAlpha = true := by
  have hall : ∀ word ∈ reserved, word.all Char.isAlpha = true := by decide +kernel
  exact List.all_eq_true.mp (hall word h)

theorem not_mem_reserved {word : List Char} (h : word ∈ reserved) {c : Char}
    (hc : c.isAlpha = false) : c ∉ word := by
  intro hmem
  rw [isAlpha_of_reserved h c hmem] at hc
  cases hc

/-- A reserved word is written as it is, but for its mark. -/
theorem flatMap_mungeChar_of_reserved {word : List Char} (h : word ∈ reserved) :
    word.flatMap mungeChar = word := by
  have hself : word.flatMap mungeChar = word.flatMap fun c => [c] :=
    List.flatMap_congr fun c hc => mungeChar_of_isAlpha (isAlpha_of_reserved h c hc)
  rw [hself, List.flatMap_singleton']

/-- The mark of a reserved word is taken off again; so the name is read back from what stands for
its characters, unless the name itself ends with such a mark. -/
theorem demunge_munge {name : String} (h : ∀ word ∈ reserved, name.toList ≠ word ++ ['$']) :
    demunge (munge name) = String.ofList (demungeFrom 0 (name.toList.flatMap mungeChar)) := by
  unfold demunge munge mungeChars
  dsimp only
  rw [String.toList_ofList]
  generalize hout : name.toList.flatMap mungeChar = out
  by_cases hreserved : out ∈ reserved
  · simp [hreserved]
  · have hunmarked : ¬ (out.getLast? = some '$' ∧ out.dropLast ∈ reserved) := by
      rintro ⟨hlast, hword⟩
      have hsplit : out = out.dropLast ++ ['$'] := by
        obtain ⟨front, rfl⟩ := List.getLast?_eq_some_iff.mp hlast
        simp
      have hplain : '_' ∉ out := by
        rw [hsplit]
        simp [not_mem_reserved hword]
      have hself : out = name.toList := by
        rw [← hout] at hplain ⊢
        exact flatMap_mungeChar_eq_self hplain
      exact h _ hword (hself ▸ hsplit)
    simp [hreserved, hunmarked]

theorem demungeFrom_eq_self {cs : List Char} (h : '_' ∉ cs) : demungeFrom 0 cs = cs := by
  induction cs with
  | nil => rfl
  | cons c cs ih =>
    obtain ⟨hc, hcs⟩ := List.ne_and_not_mem_of_not_mem_cons h
    rw [demungeFrom_plain (Ne.symm hc), ih hcs]

/-- A reserved word with a dollar sign is read back without it. -/
theorem demunge_munge_marked {word : List Char} (h : word ∈ reserved) :
    demunge (munge (String.ofList (word ++ ['$']))) = String.ofList word := by
  have hunderscore : '_' ∉ word := not_mem_reserved h rfl
  have hwritten : (word ++ ['$']).flatMap mungeChar = word ++ ['$'] := by
    rw [List.flatMap_append, flatMap_mungeChar_of_reserved h]
    rfl
  have hfree : word ++ ['$'] ∉ reserved :=
    fun hmem => not_mem_reserved hmem (c := '$') rfl (by simp)
  simp [demunge, munge, mungeChars, hwritten, hfree, h, demungeFrom_eq_self hunderscore]

/-- A name is read back from its identifier exactly if it has no underscore, is no reserved word
with one dollar sign behind it, and has no hyphen before an inner word of a spelling and then a
hyphen or a character that is spelled out. -/
theorem demunge_munge_iff (name : String) :
    demunge (munge name) = name ↔
      '_' ∉ name.toList ∧ (∀ word ∈ reserved, name.toList ≠ word ++ ['$']) ∧
        ¬ HasFalseSpelling name.toList := by
  by_cases hmarked : ∀ word ∈ reserved, name.toList ≠ word ++ ['$']
  · rw [demunge_munge hmarked, ← String.toList_inj, String.toList_ofList]
    by_cases hunderscore : '_' ∈ name.toList
    · have hne : demungeFrom 0 (name.toList.flatMap mungeChar) ≠ name.toList := by
        intro heq
        exact underscore_not_mem_demungeFrom 0 _ (heq ▸ hunderscore)
      simp [hne, hunderscore]
    · rw [demungeFrom_flatMap_iff hunderscore]
      exact ⟨fun h => ⟨hunderscore, hmarked, h⟩, fun h => h.2.2⟩
  · have hne : demunge (munge name) ≠ name := by
      push Not at hmarked
      obtain ⟨word, hword, hname⟩ := hmarked
      rw [← String.ofList_toList (s := name), hname, demunge_munge_marked hword]
      intro heq
      have hlength := congrArg (fun s => s.toList.length) heq
      simp at hlength
    simp [hne, hmarked]

end LiveLisp.Munge
