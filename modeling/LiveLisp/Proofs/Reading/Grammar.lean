import LiveLisp.Proofs.Form.Tree
import LiveLisp.Proofs.Reading.Literals
import LiveLisp.Text.Split
/-!
# The grammar of texts

What a text is read as is said without the reader: forms stand one after the other with spacing
between them, each with a source of its own, and the position of a form is that of the first
character of its source.  A text has one layout only.
-/

namespace LiveLisp

open Text (Position)

/-- The position behind one more character. -/
def Text.Position.next (p : Position) (ch : Char) : Position :=
  if ch = '\n' then ⟨p.line + 1, 1⟩ else ⟨p.line, p.column + 1⟩

/-- Where the last characters `cs` of a text stand: behind all characters before them. -/
def Text.standing (text cs : List Char) : Position :=
  (text.take (text.length - cs.length)).foldl Position.next .start

namespace Reading

open Fallible

/-! ## The grammar -/

/-- The signs before a form, each with the symbol that it stands for. -/
def signs : List (Char × String) := [('\x27', "quote"), ('@', "deref")]

/-- A token that comes before these characters is not cut short. -/
def EndsToken (cs : List Char) : Prop := ∀ ch ∈ cs.head?, isTerminator ch = true

/-- The parts of a text: what divides forms, a form with what may stand before it, the source of
the form alone, and forms one after the other. -/
inductive Phrase where
  | space
  | form (f : Form)
  | source (f : Form)
  | forms (fs : List Form)

/-- Where `cs` stand in the text, there is such a part, with `rest` behind it.  Every form has its
position from the place where its source begins. -/
inductive Reads (text : List Char) : Phrase → List Char → List Char → Prop
  | nothing {cs : List Char} : Reads text .space cs cs
  | separator {ch : Char} {cs rest : List Char} (hch : isSeparator ch = true)
    (h : Reads text .space cs rest) : Reads text .space (ch :: cs) rest
  | comment {comment cs rest : List Char} (hcomment : '\n' ∉ comment)
    (h : Reads text .space cs rest) : Reads text .space (';' :: (comment ++ '\n' :: cs)) rest
  | discarded {f : Form} {cs cs' rest : List Char} (hf : Reads text (.form f) cs cs')
    (h : Reads text .space cs' rest) : Reads text .space ('#' :: '_' :: cs) rest
  | plain {f : Form} {cs cs' rest : List Char} (hspace : Reads text .space cs cs')
    (hpos : f.pos = Text.standing text cs') (h : Reads text (.source f) cs' rest) :
    Reads text (.form f) cs rest
  | hinted {f hint : Form} {cs cs' cs'' rest : List Char}
    (hspace : Reads text .space cs ('^' :: cs'))
    (hhint : Reads text (.form hint) cs' cs'') (h : Reads text (.form f) cs'' rest) :
    Reads text (.form f) cs rest
  | list {p : Position} {items : List Form} {cs rest : List Char}
    (h : Reads text (.forms items) cs (')' :: rest)) :
    Reads text (.source (.list p items)) ('(' :: cs) rest
  | vector {p : Position} {items : List Form} {cs rest : List Char}
    (h : Reads text (.forms items) cs (']' :: rest)) :
    Reads text (.source (.vector p items)) ('[' :: cs) rest
  | set {p : Position} {items : List Form} {cs rest : List Char}
    (h : Reads text (.forms items) cs ('\x7d' :: rest)) :
    Reads text (.source (.set p items)) ('#' :: '\x7b' :: cs) rest
  | map {p : Position} {entries : List (Form × Form)} {cs rest : List Char}
    (h : Reads text (.forms (Form.map p entries).parts) cs ('\x7d' :: rest)) :
    Reads text (.source (.map p entries)) ('\x7b' :: cs) rest
  | signed {p : Position} {sign : Char} {name : String} {f : Form} {cs rest : List Char}
    (hsign : (sign, name) ∈ signs) (h : Reads text (.form f) cs rest) :
    Reads text (.source (.list p [.symbol name p, f])) (sign :: cs) rest
  | str {p : Position} {body chars rest : List Char} (h : Spelled SignedCode body chars) :
    Reads text (.source (.str (String.ofList chars) p)) ('"' :: (body ++ '"' :: rest)) rest
  | char {p : Position} {first ch : Char} {more rest : List Char}
    (hmore : ∀ d ∈ more, isTerminator d = false)
    (hend : if first = '\n' then more = [] else EndsToken rest)
    (hch : namedChar? (first :: more) = some ch) :
    Reads text (.source (.atom p (.char ch))) ('\\' :: first :: (more ++ rest)) rest
  | token {p : Position} {first : Char} {more rest : List Char} {a : Atom}
    (hfirst : BeginsToken first) (hmore : ∀ d ∈ more, isTerminator d = false)
    (hend : EndsToken rest) (ha : atom? (first :: more) = some a) :
    Reads text (.source (.atom p a)) (first :: (more ++ rest)) rest
  | nil {cs rest : List Char} (h : Reads text .space cs rest) : Reads text (.forms []) cs rest
  | cons {f : Form} {fs : List Form} {cs cs' rest : List Char} (h : Reads text (.form f) cs cs')
    (hrest : Reads text (.forms fs) cs' rest) : Reads text (.forms (f :: fs)) cs rest

section Reads

variable {text cs cs' rest : List Char}

theorem Reads.space_trans (h : Reads text .space cs cs') (h' : Reads text .space cs' rest) :
    Reads text .space cs rest := by
  generalize hphrase : Phrase.space = phrase at h
  induction h with
  | nothing => exact h'
  | separator hch _ ih => exact .separator hch (ih h' hphrase)
  | comment hcomment _ ih => exact .comment hcomment (ih h' hphrase)
  | discarded hf _ _ ih => exact .discarded hf (ih h' hphrase)
  | _ => contradiction

theorem Reads.form_of_space {f : Form} (h : Reads text .space cs cs')
    (h' : Reads text (.form f) cs' rest) : Reads text (.form f) cs rest := by
  cases h' with
  | plain hspace hpos hf => exact .plain (h.space_trans hspace) hpos hf
  | hinted hspace hhint hf => exact .hinted (h.space_trans hspace) hhint hf

theorem Reads.forms_of_space {fs : List Form} (h : Reads text .space cs cs')
    (h' : Reads text (.forms fs) cs' rest) : Reads text (.forms fs) cs rest := by
  cases h' with
  | nil hspace => exact .nil (h.space_trans hspace)
  | cons hf hrest => exact .cons (h.form_of_space hf) hrest

theorem reads_separators {blanks : List Char} (hblanks : ∀ ch ∈ blanks, isSeparator ch = true)
    (h : Reads text .space cs rest) : Reads text .space (blanks ++ cs) rest := by
  induction blanks with
  | nil => exact h
  | cons ch blanks ih =>
    obtain ⟨hch, hblanks⟩ := List.forall_mem_cons.mp hblanks
    exact .separator hch (ih hblanks)

end Reads

/-- A form takes something of its text. -/
def Phrase.IsForm : Phrase → Prop
  | .form _ | .source _ => True
  | _ => False

theorem Reads.suffix {text cs rest : List Char} {phrase : Phrase} (h : Reads text phrase cs rest) :
    rest <:+ cs ∧ (phrase.IsForm → rest.length < cs.length) := by
  have hbehind : ∀ {cs rest : List Char} (front : List Char), front ≠ [] → rest <:+ cs →
      rest <:+ front ++ cs ∧ rest.length < (front ++ cs).length := by
    intro cs rest front hfront hsuffix
    have hlength := hsuffix.length_le
    have hpos := List.length_pos_iff.mpr hfront
    refine ⟨hsuffix.trans (List.suffix_append _ _), ?_⟩
    rw [List.length_append]
    omega
  have hwithin : ∀ {cs rest : List Char} {close : Char} (front : List Char), front ≠ [] →
      close :: rest <:+ cs → rest <:+ front ++ cs ∧ rest.length < (front ++ cs).length :=
    fun front hfront hsuffix => hbehind front hfront ((List.suffix_cons _ _).trans hsuffix)
  induction h with
  | nothing => exact ⟨List.suffix_refl _, False.elim⟩
  | separator _ _ ih => exact ⟨ih.1.trans (List.suffix_cons _ _), False.elim⟩
  | @comment comment cs _ _ _ ih =>
    have hcs : cs <:+ ';' :: (comment ++ '\n' :: cs) := ⟨';' :: comment ++ ['\n'], by simp⟩
    exact ⟨ih.1.trans hcs, False.elim⟩
  | @discarded _ cs _ _ _ _ ihf ih =>
    have hcs : cs <:+ '#' :: '_' :: cs := ⟨['#', '_'], rfl⟩
    exact ⟨ih.1.trans (ihf.1.trans hcs), False.elim⟩
  | plain _ _ _ ihspace ih =>
    exact ⟨ih.1.trans ihspace.1, fun _ => (ih.2 trivial).trans_le ihspace.1.length_le⟩
  | hinted _ _ _ ihspace ihhint ih =>
    have hhint := (ihhint.1.trans (List.suffix_cons _ _)).trans ihspace.1
    exact ⟨ih.1.trans hhint, fun _ => (ih.2 trivial).trans_le hhint.length_le⟩
  | list _ ih => exact (hwithin ['('] (by simp) ih.1).imp_right fun h _ => h
  | vector _ ih => exact (hwithin ['['] (by simp) ih.1).imp_right fun h _ => h
  | set _ ih => exact (hwithin ['#', '\x7b'] (by simp) ih.1).imp_right fun h _ => h
  | map _ ih => exact (hwithin ['\x7b'] (by simp) ih.1).imp_right fun h _ => h
  | @signed _ sign _ _ _ _ _ _ ih => exact (hbehind [sign] (by simp) ih.1).imp_right fun h _ => h
  | @str _ body _ rest _ =>
    have hrest := hbehind ('"' :: body ++ ['"']) (by simp) (List.suffix_refl rest)
    simp only [List.cons_append, List.append_assoc, List.nil_append] at hrest
    exact hrest.imp_right fun h _ => h
  | @char _ first _ more rest _ _ _ =>
    have hrest := hbehind ('\\' :: first :: more) (by simp) (List.suffix_refl rest)
    exact hrest.imp_right fun h _ => h
  | @token _ first more rest _ _ _ _ _ =>
    have hrest := hbehind (first :: more) (by simp) (List.suffix_refl rest)
    exact hrest.imp_right fun h _ => h
  | nil _ ih => exact ⟨ih.1, False.elim⟩
  | cons _ _ ihf ih => exact ⟨ih.1.trans ihf.1, False.elim⟩

/-! ## One layout -/

/-- No spacing stands before these characters. -/
def Unspaced : List Char → Prop
  | [] => True
  | ch :: cs => isSeparator ch = false ∧ ch ≠ ';' ∧ (ch ≠ '#' ∨ cs.head? ≠ some '_')

/-- No form comes before a closing delimiter or the end of the text. -/
def Closing (cs : List Char) : Prop := ∀ ch ∈ cs.head?, ch ∈ [')', ']', '\x7d']

/-- What is left of a source, and the form that it is read as, by its first character. -/
def SourceFrom (text : List Char) (f : Form) (cs rest : List Char) : Char → Prop
  | '(' => ∃ items, f = .list f.pos items ∧ Reads text (.forms items) cs (')' :: rest)
  | '[' => ∃ items, f = .vector f.pos items ∧ Reads text (.forms items) cs (']' :: rest)
  | '\x7b' => ∃ entries, f = .map f.pos entries ∧
      Reads text (.forms (Form.map f.pos entries).parts) cs ('\x7d' :: rest)
  | '#' => ∃ items inside, cs = '\x7b' :: inside ∧ f = .set f.pos items ∧
      Reads text (.forms items) inside ('\x7d' :: rest)
  | '\x27' => ∃ g, f = .list f.pos [.symbol "quote" f.pos, g] ∧ Reads text (.form g) cs rest
  | '@' => ∃ g, f = .list f.pos [.symbol "deref" f.pos, g] ∧ Reads text (.form g) cs rest
  | '"' => ∃ body chars, cs = body ++ '"' :: rest ∧ Spelled SignedCode body chars ∧
      f = .str (String.ofList chars) f.pos
  | '\\' => ∃ first more ch, cs = first :: (more ++ rest) ∧
      (∀ d ∈ more, isTerminator d = false) ∧ (if first = '\n' then more = [] else EndsToken rest) ∧
      namedChar? (first :: more) = some ch ∧ f = .atom f.pos (.char ch)
  | first => BeginsToken first ∧ ∃ more a, cs = more ++ rest ∧
      (∀ d ∈ more, isTerminator d = false) ∧ EndsToken rest ∧ atom? (first :: more) = some a ∧
      f = .atom f.pos a

section Unique

variable {text cs cs' rest rest' : List Char} {ch : Char} {f : Form}

theorem sourceFrom_of_beginsToken (h : BeginsToken ch) :
    SourceFrom text f cs rest ch ↔ BeginsToken ch ∧ ∃ more a, cs = more ++ rest ∧
      (∀ d ∈ more, isTerminator d = false) ∧ EndsToken rest ∧ atom? (ch :: more) = some a ∧
      f = .atom f.pos a := by
  obtain ⟨hterminator, hquote, hderef, -, hchar, hset⟩ := h
  unfold SourceFrom
  split
  · exact absurd hterminator (by decide)
  · exact absurd hterminator (by decide)
  · exact absurd hterminator (by decide)
  · exact absurd rfl hset
  · exact absurd rfl hquote
  · exact absurd rfl hderef
  · exact absurd hterminator (by decide)
  · exact absurd rfl hchar
  · exact Iff.rfl

theorem sourceFrom_of_mem_signs {name : String} (h : (ch, name) ∈ signs) :
    SourceFrom text f cs rest ch ↔
      ∃ g, f = .list f.pos [.symbol name f.pos, g] ∧ Reads text (.form g) cs rest := by
  simp only [signs, List.mem_cons, Prod.mk.injEq, List.not_mem_nil, or_false] at h
  rcases h with ⟨rfl, rfl⟩ | ⟨rfl, rfl⟩ <;> exact Iff.rfl

theorem Reads.sourceFrom (h : Reads text (.source f) (ch :: cs) rest) :
    SourceFrom text f cs rest ch := by
  cases h with
  | list h => exact ⟨_, rfl, h⟩
  | vector h => exact ⟨_, rfl, h⟩
  | set h => exact ⟨_, _, rfl, rfl, h⟩
  | map h => exact ⟨_, rfl, h⟩
  | signed hsign h => exact (sourceFrom_of_mem_signs hsign).mpr ⟨_, rfl, h⟩
  | str h => exact ⟨_, _, rfl, h, rfl⟩
  | char hmore hend hch => exact ⟨_, _, _, rfl, hmore, hend, hch, rfl⟩
  | token hfirst hmore hend ha =>
    exact (sourceFrom_of_beginsToken hfirst).mpr ⟨hfirst, _, _, rfl, hmore, hend, ha, rfl⟩

theorem begins_cons (hseparator : isSeparator ch = false)
    (hch : ch ∉ [';', '^', ')', ']', '\x7d']) (hset : ch ≠ '#' ∨ cs.head? ≠ some '_') :
    Unspaced (ch :: cs) ∧ (ch :: cs).head? ≠ some '^' ∧ ¬ Closing (ch :: cs) := by
  simp only [List.mem_cons, List.not_mem_nil, or_false, not_or] at hch
  obtain ⟨hcomment, hhint, hlist, hvector, hmap⟩ := hch
  exact ⟨⟨hseparator, hcomment, hset⟩, by simpa using hhint,
    by simp [Closing, hlist, hvector, hmap]⟩

/-- A source begins with no spacing, no hint and no closing delimiter. -/
theorem Reads.begins (h : Reads text (.source f) cs rest) :
    Unspaced cs ∧ cs.head? ≠ some '^' ∧ ¬ Closing cs := by
  cases h with
  | list => exact begins_cons (by decide) (by decide) (.inl (by decide))
  | vector => exact begins_cons (by decide) (by decide) (.inl (by decide))
  | set => exact begins_cons (by decide) (by decide) (.inr (by simp))
  | map => exact begins_cons (by decide) (by decide) (.inl (by decide))
  | signed hsign =>
    simp only [signs, List.mem_cons, Prod.mk.injEq, List.not_mem_nil, or_false] at hsign
    rcases hsign with ⟨rfl, -⟩ | ⟨rfl, -⟩
    · exact begins_cons (by decide) (by decide) (.inl (by decide))
    · exact begins_cons (by decide) (by decide) (.inl (by decide))
  | str => exact begins_cons (by decide) (by decide) (.inl (by decide))
  | char => exact begins_cons (by decide) (by decide) (.inl (by decide))
  | token hfirst =>
    obtain ⟨hterminator, -, -, hhint, -, hset⟩ := hfirst
    simp only [isTerminator, Bool.or_eq_false_iff] at hterminator
    obtain ⟨hseparator, hdelimiter⟩ := hterminator
    refine begins_cons hseparator ?_ (.inl hset)
    simp only [List.contains_eq_mem, decide_eq_false_iff_not] at hdelimiter
    simp_all

theorem unspaced_hint (cs : List Char) : Unspaced ('^' :: cs) :=
  ⟨by decide, by decide, .inl (by decide)⟩

theorem Closing.unspaced (h : Closing cs) : Unspaced cs := by
  cases cs with
  | nil => trivial
  | cons ch cs =>
    have hch := h ch rfl
    simp only [List.mem_cons, List.not_mem_nil, or_false] at hch
    rcases hch with rfl | rfl | rfl <;> exact ⟨by decide, by decide, .inl (by decide)⟩

theorem Reads.form_begins (h : Reads text (.form f) cs rest) :
    ∃ cs', Reads text .space cs cs' ∧ Unspaced cs' ∧ ¬ Closing cs' := by
  cases h with
  | plain hspace _ hf => exact ⟨_, hspace, hf.begins.1, hf.begins.2.2⟩
  | hinted hspace => exact ⟨_, hspace, unspaced_hint _, by simp [Closing]⟩

/-- No spacing is taken off where a form begins, or where there is no more. -/
theorem Reads.eq_of_unspaced (h : Reads text .space cs rest) (hcs : Unspaced cs) :
    rest = cs := by
  cases h with
  | nothing => rfl
  | separator hch => exact absurd (hch.symm.trans hcs.1) (by decide)
  | comment => exact absurd rfl hcs.2.1
  | discarded => exact absurd hcs.2.2 (by simp)

theorem token_inj {more more' : List Char} (hmore : ∀ d ∈ more, isTerminator d = false)
    (hmore' : ∀ d ∈ more', isTerminator d = false) (hend : EndsToken rest)
    (hend' : EndsToken rest') (h : more ++ rest = more' ++ rest') :
    more = more' ∧ rest = rest' := by
  have htaken : ∀ {more rest : List Char}, (∀ d ∈ more, isTerminator d = false) →
      EndsToken rest → (more ++ rest).takeWhile (fun d => !isTerminator d) = more := by
    intro more rest hmore hend
    rw [List.takeWhile_append_of_pos (by simpa using hmore)]
    cases rest with
    | nil => simp
    | cons d rest => simp [hend d rfl]
  have hsame : more = more' := by rw [← htaken hmore hend, h, htaken hmore' hend']
  exact ⟨hsame, List.append_cancel_left (hsame ▸ h)⟩

/-- A string ends at one place and is read as one text. -/
theorem spelled_inj {body body' chars chars' : List Char} (hbody : Spelled SignedCode body chars)
    (hbody' : Spelled SignedCode body' chars') (h : body ++ '"' :: rest = body' ++ '"' :: rest') :
    chars = chars' ∧ rest = rest' := by
  -- the reader takes both of them from the same place
  let c : Cursor := ⟨body ++ '"' :: rest, 0, 0, [], false, []⟩
  have hc : c.Holds ((body ++ ['"']) ++ rest) :=
    ⟨by simp [c, Cursor.chars], by simp [c], rfl⟩
  have hc' : c.Holds ((body' ++ ['"']) ++ rest') :=
    ⟨by simp [c, Cursor.chars, h], by simp [c], rfl⟩
  have hreads := recognizes_readString .start (chars.length + chars'.length + 1)
  obtain ⟨d, hd, hrest⟩ := hreads.complete hc ⟨body, rfl, hbody, by omega⟩
  obtain ⟨d', hd', hrest'⟩ := hreads.complete hc' ⟨body', rfl, hbody', by omega⟩
  obtain ⟨rfl, rfl⟩ := EStateM.Result.ok.inj (hd.symm.trans hd')
  exact ⟨rfl, hrest.chars.symm.trans hrest'.chars⟩

theorem entries_inj {entries entries' : List (Form × Form)} {p p' : Position}
    (h : (Form.map p entries).parts = (Form.map p' entries').parts) : entries = entries' := by
  have hpairs : ∀ es : List (Form × Form),
      Form.pairUp (es.flatMap fun e => [e.1, e.2]) = some es := by
    intro es
    induction es with
    | nil => rfl
    | cons e es ih => simp [Form.pairUp, ih]
  exact Option.some.inj ((hpairs entries).symm.trans ((congrArg Form.pairUp h).trans (hpairs _)))

end Unique

/-- A phrase ends at one place only, and is read as one thing, wherever something else comes
next. -/
def Phrase.Unique (text cs rest : List Char) : Phrase → Prop
  | .space => Unspaced rest → ∀ rest', Reads text .space cs rest' → Unspaced rest' →
      rest' = rest
  | .form f => (∀ f' rest', Reads text (.form f') cs rest' → f' = f ∧ rest' = rest) ∧
      ∀ rest', Reads text .space cs rest' → ¬ Closing rest'
  | .source f => ∀ f' rest', Reads text (.source f') cs rest' → f'.pos = f.pos →
      f' = f ∧ rest' = rest
  | .forms fs => Closing rest → ∀ fs' rest', Reads text (.forms fs') cs rest' → Closing rest' →
      fs' = fs ∧ rest' = rest

theorem Reads.unique {text cs rest : List Char} {phrase : Phrase} (h : Reads text phrase cs rest) :
    phrase.Unique text cs rest := by
  have hclose : ∀ {ch : Char} {cs : List Char}, ch ∈ [')', ']', '\x7d'] → Closing (ch :: cs) := by
    intro ch cs hch d hd
    rwa [← Option.some.inj hd]
  induction h with
  | nothing => exact fun hcs rest' h' _ => h'.eq_of_unspaced hcs
  | separator hch _ ih =>
    intro hrest rest' h' hrest'
    cases h' with
    | nothing => exact absurd (hch.symm.trans hrest'.1) (by decide)
    | separator _ h' => exact ih hrest rest' h' hrest'
    | comment => exact absurd hch (by decide)
    | discarded => exact absurd hch (by decide)
  | @comment comment cs rest hcomment _ ih =>
    intro hrest rest' h' hrest'
    generalize hwhole : ';' :: (comment ++ '\n' :: cs) = whole at h'
    cases h' with
    | nothing =>
      subst hwhole
      exact absurd rfl hrest'.2.1
    | separator hch =>
      obtain ⟨rfl, -⟩ := List.cons.inj hwhole
      exact absurd hch (by decide)
    | comment hcomment' h' =>
      obtain ⟨-, rfl⟩ := Text.append_mark_inj hcomment hcomment' (List.cons.inj hwhole).2
      exact ih hrest rest' h' hrest'
    | discarded => simp at hwhole
  | @discarded f cs _ _ _ _ ihf ih =>
    intro hrest rest' h' hrest'
    generalize hwhole : '#' :: '_' :: cs = whole at h'
    cases h' with
    | nothing =>
      subst hwhole
      exact absurd hrest'.2.2 (by simp)
    | separator hch =>
      obtain ⟨rfl, -⟩ := List.cons.inj hwhole
      exact absurd hch (by decide)
    | comment => simp at hwhole
    | discarded hf' h' =>
      obtain ⟨-, hcs⟩ := List.cons.inj hwhole
      obtain rfl := (List.cons.inj hcs).2
      obtain ⟨-, rfl⟩ := ihf.1 _ _ hf'
      exact ih hrest rest' h' hrest'
  | plain hspace hpos hf ihspace ih =>
    obtain ⟨hunspaced, hhint, hclosing⟩ := hf.begins
    refine ⟨fun f' rest' h' => ?_, fun rest' h' hrest' => ?_⟩
    · cases h' with
      | plain hspace' hpos' hf' =>
        obtain rfl := ihspace hunspaced _ hspace' hf'.begins.1
        exact ih _ _ hf' (hpos'.trans hpos.symm)
      | hinted hspace' =>
        have hcs := ihspace hunspaced _ hspace' (unspaced_hint _)
        exact absurd (by rw [← hcs]; rfl) hhint
    · obtain rfl := ihspace hunspaced _ h' hrest'.unspaced
      exact hclosing hrest'
  | hinted hspace hhint hf ihspace ihhint ih =>
    refine ⟨fun f' rest' h' => ?_, fun rest' h' hrest' => ?_⟩
    · cases h' with
      | plain hspace' hpos' hf' =>
        have hcs := ihspace (unspaced_hint _) _ hspace' hf'.begins.1
        exact absurd (by rw [hcs]; rfl) hf'.begins.2.1
      | hinted hspace' hhint' hf' =>
        have hcs := ihspace (unspaced_hint _) _ hspace' (unspaced_hint _)
        obtain rfl := (List.cons.inj hcs).2
        obtain ⟨-, rfl⟩ := ihhint.1 _ _ hhint'
        exact ih.1 _ _ hf'
    · obtain rfl := ihspace (unspaced_hint _) _ h' hrest'.unspaced
      exact absurd hrest' (by simp [Closing])
  | list _ ih =>
    intro f' rest' h' hpos
    obtain ⟨items', hf', h'⟩ := h'.sourceFrom
    obtain ⟨rfl, hrest⟩ := ih (hclose (by decide)) _ _ h' (hclose (by decide))
    exact ⟨by rw [hf', hpos]; rfl, (List.cons.inj hrest).2⟩
  | vector _ ih =>
    intro f' rest' h' hpos
    obtain ⟨items', hf', h'⟩ := h'.sourceFrom
    obtain ⟨rfl, hrest⟩ := ih (hclose (by decide)) _ _ h' (hclose (by decide))
    exact ⟨by rw [hf', hpos]; rfl, (List.cons.inj hrest).2⟩
  | set _ ih =>
    intro f' rest' h' hpos
    obtain ⟨items', inside, hcs, hf', h'⟩ := h'.sourceFrom
    obtain rfl := (List.cons.inj hcs).2
    obtain ⟨rfl, hrest⟩ := ih (hclose (by decide)) _ _ h' (hclose (by decide))
    exact ⟨by rw [hf', hpos]; rfl, (List.cons.inj hrest).2⟩
  | map _ ih =>
    intro f' rest' h' hpos
    obtain ⟨entries', hf', h'⟩ := h'.sourceFrom
    obtain ⟨hparts, hrest⟩ := ih (hclose (by decide)) _ _ h' (hclose (by decide))
    obtain rfl := entries_inj hparts
    exact ⟨by rw [hf', hpos]; rfl, (List.cons.inj hrest).2⟩
  | signed hsign _ ih =>
    intro f' rest' h' hpos
    obtain ⟨g, hf', h'⟩ := (sourceFrom_of_mem_signs hsign).mp h'.sourceFrom
    obtain ⟨rfl, rfl⟩ := ih.1 _ _ h'
    exact ⟨by rw [hf', hpos]; rfl, rfl⟩
  | str hbody =>
    intro f' rest' h' hpos
    obtain ⟨body', chars', hcs, hbody', hf'⟩ := h'.sourceFrom
    obtain ⟨rfl, rfl⟩ := spelled_inj hbody hbody' hcs
    exact ⟨by rw [hf', hpos]; rfl, rfl⟩
  | @char _ first _ more rest hmore hend hch =>
    intro f' rest' h' hpos
    obtain ⟨first', more', ch', hcs, hmore', hend', hch', hf'⟩ := h'.sourceFrom
    obtain ⟨rfl, htail⟩ := List.cons.inj hcs
    have hsame : more = more' ∧ rest = rest' := by
      split at hend
      · next hfirst =>
        rw [if_pos hfirst] at hend'
        subst hend hend'
        exact ⟨rfl, htail⟩
      · next hfirst =>
        rw [if_neg hfirst] at hend'
        exact token_inj hmore hmore' hend hend' htail
    obtain ⟨rfl, rfl⟩ := hsame
    obtain rfl := Option.some.inj (hch.symm.trans hch')
    exact ⟨by rw [hf', hpos]; rfl, rfl⟩
  | token hfirst hmore hend ha =>
    intro f' rest' h' hpos
    obtain ⟨-, more', a', hcs, hmore', hend', ha', hf'⟩ :=
      (sourceFrom_of_beginsToken hfirst).mp h'.sourceFrom
    obtain ⟨rfl, rfl⟩ := token_inj hmore hmore' hend hend' hcs
    obtain rfl := Option.some.inj (ha.symm.trans ha')
    exact ⟨by rw [hf', hpos]; rfl, rfl⟩
  | nil _ ih =>
    intro hrest fs' rest' h' hrest'
    cases h' with
    | nil h' => exact ⟨rfl, ih hrest.unspaced _ h' hrest'.unspaced⟩
    | cons hf' =>
      obtain ⟨cs', hspace, hunspaced, hclosing⟩ := hf'.form_begins
      obtain rfl := ih hrest.unspaced _ hspace hunspaced
      exact absurd hrest hclosing
  | cons _ _ ihf ih =>
    intro hrest fs' rest' h' hrest'
    cases h' with
    | nil h' => exact absurd hrest' (ihf.2 _ h')
    | cons hf' hfs' =>
      obtain ⟨rfl, rfl⟩ := ihf.1 _ _ hf'
      obtain ⟨rfl, rfl⟩ := ih hrest _ _ hfs' hrest'
      exact ⟨rfl, rfl⟩

end Reading

end LiveLisp
