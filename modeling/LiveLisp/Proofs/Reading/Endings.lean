import LiveLisp.Proofs.Reading.Positions
import LiveLisp.Proofs.Reading.Requests
/-!
# Where forms end

A form is over with its last character: its closing delimiter, or the last character of its last
token.  Nothing behind this character is asked for, so that a form that is complete at the end of a
line does not wait for another one.
-/

namespace LiveLisp.Reading

open Fallible
open Readers (within)
open Text (Position)

/-! ## One character further -/

namespace Cursor

variable {c c' c'' : Cursor}

/-- Some characters have been passed over. -/
def Takes (c c' : Cursor) : Prop := ∃ passed, passed ≠ [] ∧ c.chars = passed ++ c'.chars

theorem Reaches.takes (h : c.Reaches c') (h' : c'.Takes c'') : c.Takes c'' := by
  obtain ⟨passed, hchars, -⟩ := h.chars
  obtain ⟨passed', hne, hchars'⟩ := h'
  exact ⟨passed ++ passed', by simp [hne], by rw [hchars, hchars', List.append_assoc]⟩

theorem Takes.reaches (h : c.Takes c') (h' : c'.Reaches c'') : c.Takes c'' := by
  obtain ⟨passed, hne, hchars⟩ := h
  obtain ⟨passed', hchars', -⟩ := h'.chars
  exact ⟨passed ++ passed', by simp [hne], by rw [hchars, hchars', List.append_assoc]⟩

theorem takes_advance {ch : Char} {cs : List Char} (h : c.rest = ch :: cs) :
    c.Takes (c.advance 1) :=
  ⟨[ch], by simp, by simp [chars, advance, h]⟩

theorem takes_discardLine (h : c.rest ≠ []) : c.Takes c.discardLine :=
  ⟨c.rest, h, by simp [chars, discardLine]⟩

/-- From `c` on, the last character that is taken is in `P`, and behind it is `c'`. -/
def EndsIn (P : Char → Prop) (c c' : Cursor) : Prop :=
  ∃ e ch cs, c.Reaches e ∧ e.rest = ch :: cs ∧ P ch ∧ c' = e.advance 1

theorem Reaches.endsIn {P : Char → Prop} (h : c.Reaches c') (h' : c'.EndsIn P c'') :
    c.EndsIn P c'' := by
  obtain ⟨e, ch, cs, hreach, hrest⟩ := h'
  exact ⟨e, ch, cs, h.trans hreach, hrest⟩

theorem EndsIn.imp {P Q : Char → Prop} (h : c.EndsIn P c') (hPQ : ∀ ch, P ch → Q ch) :
    c.EndsIn Q c' := by
  obtain ⟨e, ch, cs, hreach, hrest, hch, hc'⟩ := h
  exact ⟨e, ch, cs, hreach, hrest, hPQ ch hch, hc'⟩

theorem EndsIn.takes {P : Char → Prop} (h : c.EndsIn P c') : c.Takes c' := by
  obtain ⟨e, ch, cs, hreach, hrest, -, rfl⟩ := h
  exact hreach.takes (takes_advance hrest)

end Cursor

theorem reaches_of_made {α : Type} {ending : Bool} {x : Reader α} (hx : Made ending x) :
    Relates Cursor.Reaches x :=
  onward_reaches.made hx

section Endings

variable {c c' c₁ : Cursor} {start : Position}

/-- Taking one character. -/
theorem endsIn_next {ch : Char} (h : next start c = .ok ch c') : c.EndsIn (· = ch) c' := by
  obtain ⟨c₁, cs, hpeek, hcs, rfl⟩ := next_eq_ok h
  exact ⟨c₁, ch, cs, onward_reaches.peek.of_ok hpeek, hcs, rfl, rfl⟩

/-- Taking a stretch of the line behind a character. -/
theorem endsIn_stretch {first : Char} {stop : Char → Bool} {token : List Char}
    (h : next start c = .ok first c₁) (htoken : c₁.rest.takeWhile stop = token) :
    c.EndsIn (fun ch => (first :: token).getLast? = some ch) (c₁.advance token.length) := by
  rcases List.eq_nil_or_concat token with rfl | ⟨front, last, rfl⟩
  · exact (endsIn_next h).imp fun ch hch => by rw [hch]; rfl
  · rw [List.concat_eq_append] at htoken ⊢
    obtain ⟨more, hmore⟩ := List.takeWhile_prefix stop (l := c₁.rest)
    rw [htoken, List.append_assoc, List.singleton_append] at hmore
    obtain ⟨e, ch, cs, hreach, hrest, -, rfl⟩ := endsIn_next h
    refine ⟨(e.advance 1).advance front.length, last, more, ?_, ?_, ?_, ?_⟩
    · exact hreach.trans ((onward_reaches.advance e 1).trans (onward_reaches.advance _ _))
    · rw [Cursor.advance_rest, ← hmore, List.drop_left]
    · rw [← List.cons_append, List.getLast?_concat]
    · rw [Cursor.advance_advance _ front.length 1, List.length_append, List.length_singleton]

/-- A string ends with its closing quote. -/
theorem endsIn_readString {fuel : Nat} {cs : List Char}
    (h : readString start fuel c = .ok cs c') : c.EndsIn (· = '"') c' := by
  induction fuel generalizing c cs with
  | zero => exact absurd h throw_ne_ok
  | succ fuel ih =>
    rw [readString] at h
    obtain ⟨ch, c₁, hnext, hrest⟩ := bind_eq_ok.mp h
    have hreach := (reaches_of_made (made_next start)).of_ok hnext
    split at hrest
    · obtain ⟨-, rfl⟩ := pure_eq_ok.mp hrest
      exact endsIn_next hnext
    · obtain ⟨d, c₂, hescape, hrest⟩ := bind_eq_ok.mp hrest
      obtain ⟨more, c₃, hmore, hpure⟩ := bind_eq_ok.mp hrest
      obtain ⟨-, rfl⟩ := pure_eq_ok.mp hpure
      exact (hreach.trans ((reaches_of_made (made_readEscape start)).of_ok hescape)).endsIn
        (ih hmore)
    · obtain ⟨more, c₃, hmore, hpure⟩ := bind_eq_ok.mp hrest
      obtain ⟨-, rfl⟩ := pure_eq_ok.mp hpure
      exact hreach.endsIn (ih hmore)

/-- A character ends with the last character of its name. -/
theorem endsIn_readChar {d : Char} (h : readChar start c = .ok d c') :
    c.EndsIn (fun ch => ∃ name, namedChar? name = some d ∧ name.getLast? = some ch) c' := by
  obtain ⟨first, c₁, hnext, hrest⟩ := bind_eq_ok.mp h
  obtain ⟨more, c₂, hmore, hrest⟩ := bind_eq_ok.mp hrest
  obtain ⟨rfl, rfl⟩ := EStateM.Result.ok.inj hmore
  cases hname : namedChar? (first :: c₁.rest.takeWhile fun ch => !isTerminator ch) with
  | none =>
    simp only [hname] at hrest
    exact absurd hrest throw_ne_ok
  | some d' =>
    simp only [hname] at hrest
    obtain ⟨rfl, rfl⟩ := pure_eq_ok.mp hrest
    exact (endsIn_stretch hnext rfl).imp fun ch hch => ⟨_, hname, hch⟩

end Endings

/-! ## Forms -/

/-- What the last character of a form is: its closing delimiter or closing quote, or the last one of
the token or the name that it is written with. -/
inductive Closes : Form → Char → Prop
  | list (p : Position) (items : List Form) : Closes (.list p items) ')'
  | vector (p : Position) (items : List Form) : Closes (.vector p items) ']'
  | set (p : Position) (items : List Form) : Closes (.set p items) '\x7d'
  | map (p : Position) (entries : List (Form × Form)) : Closes (.map p entries) '\x7d'
  | str (s : String) (p : Position) : Closes (.str s p) '"'
  | signed {p : Position} {sign : Char} {name : String} {f : Form} {ch : Char}
    (hsign : (sign, name) ∈ signs) (h : Closes f ch) : Closes (.list p [.symbol name p, f]) ch
  | char (p : Position) {name : List Char} {d ch : Char} (h : namedChar? name = some d)
    (hlast : name.getLast? = some ch) : Closes (.atom p (.char d)) ch
  | token (p : Position) {token : List Char} {a : Atom} {ch : Char} (h : atom? token = some a)
    (hlast : token.getLast? = some ch) : Closes (.atom p a) ch

/-- `f` stands behind `c`, and `c'` is right behind its last character. -/
def Cursor.Spans (f : Form) (c c' : Cursor) : Prop :=
  ∃ s : Cursor, c.Reaches s ∧ f.pos = s.position ∧ s.EndsIn (Closes f) c'

theorem Cursor.Reaches.spans {f : Form} {c c' c'' : Cursor} (h : c.Reaches c')
    (h' : c'.Spans f c'') : c.Spans f c'' := by
  obtain ⟨s, hreach, hspan⟩ := h'
  exact ⟨s, h.trans hreach, hspan⟩

/-- What holds of readers with `fuel` steps. -/
structure Spanned (fuel : Nat) : Prop where
  form : ∀ {c f c'}, readForm fuel c = .ok f c' → c.Spans f c'
  items : ∀ {close start c fs c'}, readItems close start fuel c = .ok fs c' →
    c.EndsIn (· = close) c'

section Spanned

variable {fuel : Nat} {c c' : Cursor}

theorem Spanned.form_succ (ih : Spanned fuel) {f : Form} (h : readForm (fuel + 1) c = .ok f c') :
    c.Spans f c' := by
  obtain ⟨u, s, hskip, hrest⟩ := bind_eq_ok.mp h
  obtain ⟨start, s', hstart, hrest⟩ := bind_eq_ok.mp hrest
  obtain ⟨rfl, rfl⟩ := EStateM.Result.ok.inj hstart
  obtain ⟨first, c₁, hnext, hbody⟩ := bind_eq_ok.mp hrest
  have hreach := (reaches_of_made (madeAll fuel).skip).of_ok hskip
  have hfirst := (reaches_of_made (made_next _)).of_ok hnext
  refine hreach.spans ?_
  -- a form that begins at `s` and ends behind its first character
  have hspan : ∀ {P : Char → Prop}, f.pos = s.position → c₁.EndsIn P c' →
      (∀ ch, P ch → Closes f ch) → s.Spans f c' :=
    fun hpos hend hP => ⟨s, .refl s, hpos, (hfirst.endsIn hend).imp hP⟩
  cases body_of_readBody hbody with
  | list hxs => exact hspan rfl (ih.items hxs) fun ch hch => hch ▸ .list _ _
  | vector hxs => exact hspan rfl (ih.items hxs) fun ch hch => hch ▸ .vector _ _
  | map hxs hpairs => exact hspan rfl (ih.items hxs) fun ch hch => hch ▸ .map _ _
  | str htext => exact hspan rfl (endsIn_readString htext) fun ch hch => hch ▸ .str _ _
  | quote hform =>
    obtain ⟨s₁, hs₁, -, hend⟩ := ih.form hform
    have hsign : ('\x27', "quote") ∈ signs := by simp [signs]
    exact hspan rfl (hs₁.endsIn hend) fun ch hch => .signed hsign hch
  | deref hform =>
    obtain ⟨s₁, hs₁, -, hend⟩ := ih.form hform
    have hsign : ('@', "deref") ∈ signs := by simp [signs]
    exact hspan rfl (hs₁.endsIn hend) fun ch hch => .signed hsign hch
  | hinted hhint hform =>
    have hhinted := (reaches_of_made (madeAll fuel).form).of_ok hhint
    exact (hfirst.trans hhinted).spans (ih.form hform)
  | char hchar =>
    refine hspan rfl (endsIn_readChar hchar) fun ch hch => ?_
    obtain ⟨name, hname, hlast⟩ := hch
    exact .char _ hname hlast
  | set hopen hxs =>
    have hset := (onward_reaches.peek.of_ok hopen).trans (onward_reaches.advance _ 1)
    exact hspan rfl (hset.endsIn (ih.items hxs)) fun ch hch => hch ▸ .set _ _
  | token hch htoken =>
    obtain ⟨more, hmore, -, hatom, rfl⟩ := readToken_eq_ok htoken
    exact ⟨s, .refl s, rfl, (endsIn_stretch hnext hmore).imp fun ch hlast => .token _ hatom hlast⟩

theorem Spanned.items_succ (ih : Spanned fuel) {close : Char} {start : Position} {fs : List Form}
    (h : readItems close start (fuel + 1) c = .ok fs c') : c.EndsIn (· = close) c' := by
  obtain ⟨u, c₁, hskip, hrest⟩ := bind_eq_ok.mp h
  obtain ⟨found, c₂, hpeek, hrest⟩ := bind_eq_ok.mp hrest
  obtain ⟨-, hfound, -⟩ := peek_eq_ok hpeek
  have hreach := ((reaches_of_made (madeAll fuel).skip).of_ok hskip).trans
    (onward_reaches.peek.of_ok hpeek)
  cases found with
  | none => exact absurd hrest throw_ne_ok
  | some ch =>
    obtain ⟨cs, hcs⟩ : ∃ cs, c₂.rest = ch :: cs := List.head?_eq_some_iff.mp hfound.symm
    dsimp only at hrest
    split at hrest
    · next hclose =>
      obtain ⟨u, c₃, hskip, hpure⟩ := bind_eq_ok.mp hrest
      obtain ⟨-, rfl⟩ := EStateM.Result.ok.inj hskip
      obtain ⟨-, rfl⟩ := pure_eq_ok.mp hpure
      exact ⟨c₂, ch, cs, hreach, hcs, hclose, rfl⟩
    · obtain ⟨item, c₃, hform, hrest⟩ := bind_eq_ok.mp hrest
      obtain ⟨rest, c₄, hitems, hpure⟩ := bind_eq_ok.mp hrest
      obtain ⟨-, rfl⟩ := pure_eq_ok.mp hpure
      have hitem := (reaches_of_made (madeAll fuel).form).of_ok hform
      exact (hreach.trans hitem).endsIn (ih.items hitems)

end Spanned

/-- A form that is read ends right behind its last character. -/
theorem spanned (fuel : Nat) : Spanned fuel := by
  induction fuel with
  | zero => exact ⟨fun h => absurd h (by simp [readForm]), fun h => absurd h throw_ne_ok⟩
  | succ fuel ih => exact ⟨ih.form_succ, ih.items_succ⟩

end LiveLisp.Reading
