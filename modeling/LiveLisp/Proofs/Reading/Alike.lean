import LiveLisp.Proofs.Form.Tree
import LiveLisp.Proofs.Reading.Fuel
/-!
# The same input elsewhere

What is read depends on the characters and lines that are still to come and on nothing else.  Two
cursors with the same input before them, wherever they stand and whatever prompts were shown, lead
to the same forms, positions aside, and leave the same input.
-/

namespace LiveLisp

/-! ## The same forms -/

namespace Form

mutual

theorem same_self : ∀ f : Form, f.same f = true
  | .atom _ a => by rw [same, a.same_self]
  | .list _ items => by rw [same, sameAll_self items]
  | .vector _ items => by rw [same, sameAll_self items]
  | .set _ items => by rw [same, sameAll_self items]
  | .map _ entries => by rw [same, sameEntries_self entries]

theorem sameAll_self : ∀ items : List Form, sameAll items items = true
  | [] => rfl
  | f :: rest => by rw [sameAll, same_self f, sameAll_self rest, Bool.and_self]

theorem sameEntries_self : ∀ entries : List (Form × Form), sameEntries entries entries = true
  | [] => rfl
  | (k, v) :: rest => by
    rw [sameEntries, same_self k, same_self v, sameEntries_self rest, Bool.and_self, Bool.and_self]

end

theorem sameAll_append_left (items : List Form) {fs gs : List Form}
    (h : sameAll fs gs = true) : sameAll (items ++ fs) (items ++ gs) = true := by
  induction items with
  | nil => exact h
  | cons f items ih =>
    rw [List.cons_append, List.cons_append, sameAll, same_self, ih, Bool.and_self]

/-- The same forms pair up in the same way. -/
theorem pairUp_sameAll {fs gs : List Form} (h : sameAll fs gs = true) :
    Option.Rel (fun es ds => sameEntries es ds = true) (pairUp fs) (pairUp gs) := by
  induction fs using pairUp.induct generalizing gs with
  | case1 =>
    cases gs with
    | nil => exact .some rfl
    | cons g gs => simp [sameAll] at h
  | case2 f =>
    rcases gs with _ | ⟨g, _ | ⟨g', gs⟩⟩
    · simp [sameAll] at h
    · exact .none
    · simp [sameAll] at h
  | case3 k v fs ih =>
    rcases gs with _ | ⟨l, _ | ⟨w, gs⟩⟩
    · simp [sameAll] at h
    · simp [sameAll] at h
    · simp only [sameAll, Bool.and_eq_true] at h
      obtain ⟨hk, hv, hrest⟩ := h
      have hpairs := ih hrest
      unfold pairUp
      generalize pairUp fs = es at hpairs
      generalize pairUp gs = ds at hpairs
      cases hpairs with
      | none => exact .none
      | some hentries => exact .some (by simp [sameEntries, hk, hv, hentries])

end Form

namespace Reading

open Fallible
open Text (Position)

/-- The same input is still to come. -/
structure Cursor.Alike (c d : Cursor) : Prop where
  rest : c.rest = d.rest
  pending : c.pending = d.pending
  ended : c.ended = d.ended

namespace Cursor.Alike

variable {c d : Cursor}

theorem size (h : c.Alike d) : c.size = d.size := by
  simp only [Cursor.size, h.rest, h.pending]

theorem steps (h : c.Alike d) : c.steps = d.steps := by
  rw [Cursor.steps, h.size, Cursor.steps]

theorem advance (h : c.Alike d) (n : Nat) : (c.advance n).Alike (d.advance n) :=
  ⟨congrArg (List.drop n) h.rest, h.pending, h.ended⟩

theorem discardLine (h : c.Alike d) : c.discardLine.Alike d.discardLine :=
  ⟨rfl, h.pending, h.ended⟩

theorem skipLineEnd (h : c.Alike d) : (skipLineEnd c).Alike (skipLineEnd d) := by
  unfold Reading.skipLineEnd
  rw [h.rest]
  dsimp only
  split
  · exact h.advance _
  · exact h

end Cursor.Alike

/-- Both results are in `R`, or both are failures, and the same input is left. -/
inductive Matches {α β : Type} (R : α → β → Prop) :
    EStateM.Result ReadError Cursor α → EStateM.Result ReadError Cursor β → Prop
  | ok {a : α} {b : β} {c d : Cursor} (h : R a b) (hleft : c.Alike d) :
    Matches R (.ok a c) (.ok b d)
  | error {e e' : ReadError} {c d : Cursor} (hleft : c.Alike d) :
    Matches R (.error e c) (.error e' d)

/-- From the same input `x` and `y` read what is in `R`. -/
def Agrees {α β : Type} (R : α → β → Prop) (x : Reader α) (y : Reader β) : Prop :=
  ∀ c d : Cursor, c.Alike d → Matches R (x c) (y d)

theorem Agrees.of_ok {α β : Type} {R : α → β → Prop} {x : Reader α} {y : Reader β}
    (h : Agrees R x y) {c c' d : Cursor} {a : α} (halike : c.Alike d) (hrun : x c = .ok a c') :
    ∃ b d', y d = .ok b d' ∧ R a b ∧ c'.Alike d' := by
  have hmatch := h c d halike
  rw [hrun] at hmatch
  generalize y d = result at hmatch
  cases hmatch with
  | ok hR hleft => exact ⟨_, _, rfl, hR, hleft⟩

section Agrees

variable {α β γ δ : Type} {R : α → β → Prop} {S : γ → δ → Prop}

theorem agrees_pure {a : α} {b : β} (h : R a b) : Agrees R (pure a) (pure b) :=
  fun _ _ halike => .ok h halike

theorem agrees_throw (e e' : ReadError) : Agrees R (throw e) (throw e') :=
  fun _ _ halike => .error halike

theorem Agrees.bind {x : Reader α} {y : Reader β} (hx : Agrees R x y) {k : α → Reader γ}
    {l : β → Reader δ} (hk : ∀ a b, R a b → Agrees S (k a) (l b)) :
    Agrees S (x >>= k) (y >>= l) := by
  intro c d halike
  have hfirst := hx c d halike
  cases hrun : x c with
  | ok a c₁ =>
    obtain ⟨b, d₁, hrun', hR, hleft⟩ := hx.of_ok halike hrun
    rw [bind_of_ok hrun, bind_of_ok hrun']
    exact hk a b hR c₁ d₁ hleft
  | error e c₁ =>
    rw [hrun] at hfirst
    cases hrun' : y d with
    | ok b d₁ =>
      rw [hrun'] at hfirst
      cases hfirst
    | error e' d₁ =>
      rw [hrun'] at hfirst
      rw [bind_of_error hrun, bind_of_error hrun']
      cases hfirst with
      | error hleft => exact .error hleft

end Agrees

/-! ## Characters -/

theorem agrees_fetch (prompt prompt' : String) : Agrees (· = ·) (fetch prompt) (fetch prompt') := by
  intro c d halike
  cases hended : c.ended with
  | true =>
    rw [fetch_of_ended hended, fetch_of_ended (halike.ended ▸ hended)]
    exact .ok rfl halike
  | false =>
    have hended' : d.ended = false := halike.ended ▸ hended
    cases hpending : c.pending with
    | nil =>
      rw [fetch_of_nil hended hpending, fetch_of_nil hended' (halike.pending ▸ hpending)]
      exact .ok rfl ⟨halike.rest, halike.pending, rfl⟩
    | cons line more =>
      cases line with
      | failed reason =>
        rw [fetch_of_failed hended hpending, fetch_of_failed hended' (halike.pending ▸ hpending)]
        exact .error ⟨halike.rest, rfl, halike.ended⟩
      | text cs =>
        rw [fetch_of_text hended hpending, fetch_of_text hended' (halike.pending ▸ hpending)]
        exact .ok rfl ⟨rfl, rfl, halike.ended⟩

theorem agrees_peek : Agrees (· = ·) peek peek := by
  intro c d halike
  cases hrest : c.rest with
  | cons ch cs =>
    rw [peek_of_cons hrest, peek_of_cons (halike.rest ▸ hrest)]
    exact .ok rfl halike
  | nil =>
    have hfetch := agrees_fetch continuationPrompt continuationPrompt c d halike
    rw [peek_of_nil hrest, peek_of_nil (halike.rest ▸ hrest)]
    generalize fetch continuationPrompt c = found at hfetch
    generalize fetch continuationPrompt d = found' at hfetch
    cases hfetch with
    | error hleft => exact .error hleft
    | @ok more _ c₁ d₁ hmore hleft =>
      subst hmore
      cases more with
      | true => exact .ok (congrArg List.head? hleft.rest) hleft
      | false => exact .ok rfl hleft

theorem agrees_skip (n : Nat) : Agrees (· = ·) (skip n) (skip n) :=
  fun _ _ halike => .ok rfl (halike.advance n)

theorem agrees_discardLine :
    Agrees (· = ·) (modify Cursor.discardLine : Reader PUnit) (modify Cursor.discardLine) :=
  fun _ _ halike => .ok rfl halike.discardLine

theorem agrees_currentPosition : Agrees (fun _ _ => True) currentPosition currentPosition :=
  fun _ _ halike => .ok trivial halike

theorem agrees_takeUntil (stop : Char → Bool) :
    Agrees (· = ·) (takeUntil stop) (takeUntil stop) := by
  intro c d halike
  unfold takeUntil
  rw [halike.rest]
  exact .ok rfl (halike.advance _)

theorem agrees_atDiscard : Agrees (· = ·) atDiscard atDiscard := by
  intro c d halike
  unfold atDiscard
  rw [halike.rest]
  split
  · exact .ok rfl halike
  · exact .ok rfl halike

theorem agrees_next (start start' : Position) : Agrees (· = ·) (next start) (next start') := by
  refine agrees_peek.bind ?_
  rintro r _ rfl
  cases r with
  | none => exact agrees_throw _ _
  | some ch => exact (agrees_skip 1).bind fun _ _ _ => agrees_pure rfl

/-! ## Strings, characters and tokens -/

theorem agrees_readEscape (start start' : Position) :
    Agrees (· = ·) (readEscape start) (readEscape start') := by
  have hunicode : ∀ pos pos', Agrees (· = ·) (readUnicodeEscape start pos)
      (readUnicodeEscape start' pos') := by
    intro pos pos'
    refine (agrees_next start start').bind ?_
    rintro w _ rfl
    refine (agrees_next start start').bind ?_
    rintro x _ rfl
    refine (agrees_next start start').bind ?_
    rintro y _ rfl
    refine (agrees_next start start').bind ?_
    rintro z _ rfl
    split
    · exact agrees_pure rfl
    · exact agrees_throw _ _
  refine agrees_currentPosition.bind fun pos pos' _ => (agrees_next start start').bind ?_
  rintro ch _ rfl
  split
  all_goals first | exact agrees_pure rfl | exact hunicode pos pos' | exact agrees_throw _ _

theorem agrees_readString (start start' : Position) (fuel : Nat) :
    Agrees (· = ·) (readString start fuel) (readString start' fuel) := by
  induction fuel with
  | zero => exact agrees_throw _ _
  | succ fuel ih =>
    refine (agrees_next start start').bind ?_
    rintro ch _ rfl
    have hcons : ∀ d : Char, Agrees (· = ·)
        (readString start fuel >>= fun rest => pure (d :: rest))
        (readString start' fuel >>= fun rest => pure (d :: rest)) :=
      fun d => ih.bind fun _ _ hrest => agrees_pure (congrArg (d :: ·) hrest)
    split
    · exact agrees_pure rfl
    · refine (agrees_readEscape start start').bind ?_
      rintro d _ rfl
      exact hcons d
    · exact hcons _

theorem agrees_readChar (start start' : Position) :
    Agrees (· = ·) (readChar start) (readChar start') := by
  refine (agrees_next start start').bind ?_
  rintro first _ rfl
  refine (agrees_takeUntil _).bind ?_
  rintro more _ rfl
  split
  · exact agrees_pure rfl
  · exact agrees_throw _ _

theorem agrees_readToken (first : Char) (start start' : Position) :
    Agrees (· = ·) (readToken first start) (readToken first start') := by
  refine (agrees_takeUntil _).bind ?_
  rintro more _ rfl
  split
  · exact agrees_pure rfl
  · exact agrees_throw _ _

/-! ## Forms -/

/-- The same form, positions aside. -/
def SameForm (f g : Form) : Prop := f.same g = true

/-- The same forms, positions aside. -/
def SameItems (fs gs : List Form) : Prop := Form.sameAll fs gs = true

theorem agrees_readBody {form form' : Reader Form} {items items' : Char → Reader (List Form)}
    {text text' : Reader (List Char)} (hform : Agrees SameForm form form')
    (hitems : ∀ close, Agrees SameItems (items close) (items' close))
    (htext : Agrees (· = ·) text text') (start start' : Position) (ch : Char) :
    Agrees SameForm (readBody form items text start ch)
      (readBody form' items' text' start' ch) := by
  have hsigned : ∀ name : String, Agrees SameForm
      (form >>= fun f => pure (.list start [.symbol name start, f]))
      (form' >>= fun f => pure (.list start' [.symbol name start', f])) := by
    intro name
    refine hform.bind fun f g hfg => agrees_pure ?_
    have hself := (Form.symbol name start).same_self
    simp_all [SameForm, Form.same, Form.sameAll, Form.symbol]
  unfold readBody
  split
  · exact (hitems _).bind fun fs gs hsame => agrees_pure hsame
  · exact (hitems _).bind fun fs gs hsame => agrees_pure hsame
  · refine (hitems _).bind fun fs gs hsame => ?_
    have hpairs := Form.pairUp_sameAll hsame
    generalize Form.pairUp fs = es at hpairs
    generalize Form.pairUp gs = ds at hpairs
    cases hpairs with
    | none => exact agrees_throw _ _
    | some hentries => exact agrees_pure hentries
  · exact agrees_throw _ _
  · exact agrees_throw _ _
  · exact agrees_throw _ _
  · refine htext.bind ?_
    rintro cs _ rfl
    exact agrees_pure (Atom.same_self (.str _))
  · exact hsigned "quote"
  · exact hsigned "deref"
  · exact hform.bind fun _ _ _ => hform
  · refine (agrees_readChar start start').bind ?_
    rintro d _ rfl
    exact agrees_pure (Atom.same_self (.char d))
  · refine agrees_peek.bind ?_
    rintro r _ rfl
    split
    · exact (agrees_skip 1).bind fun _ _ _ =>
        (hitems _).bind fun fs gs hsame => agrees_pure hsame
    · exact (agrees_skip 1).bind fun _ _ _ => agrees_throw _ _
    · exact agrees_throw _ _
  · refine (agrees_readToken ch start start').bind ?_
    rintro a _ rfl
    exact agrees_pure (Atom.same_self a)

/-- The readers with `fuel` steps read the same elsewhere. -/
structure AgreesAll (fuel : Nat) : Prop where
  skip : Agrees (· = ·) (skipInsignificant fuel) (skipInsignificant fuel)
  form : Agrees SameForm (readForm fuel) (readForm fuel)
  items : ∀ close start start', Agrees SameItems (readItems close start fuel)
    (readItems close start' fuel)

theorem agreesAll (fuel : Nat) : AgreesAll fuel := by
  induction fuel with
  | zero =>
    exact ⟨agrees_pure rfl, fun _ _ halike => .error halike, fun _ _ _ => agrees_throw _ _⟩
  | succ fuel ih =>
    refine ⟨?_, ?_, ?_⟩
    · refine agrees_peek.bind ?_
      rintro r _ rfl
      cases r with
      | none => exact agrees_pure rfl
      | some ch =>
        dsimp only
        split
        · exact (agrees_skip 1).bind fun _ _ _ => ih.skip
        · split
          · exact agrees_discardLine.bind fun _ _ _ => ih.skip
          · refine agrees_atDiscard.bind ?_
            rintro discard _ rfl
            split
            · exact (agrees_skip 2).bind fun _ _ _ => ih.form.bind fun _ _ _ => ih.skip
            · exact agrees_pure rfl
    · refine ih.skip.bind fun _ _ _ => agrees_currentPosition.bind fun start start' _ =>
        (agrees_next start start').bind ?_
      rintro ch _ rfl
      exact agrees_readBody ih.form (fun close => ih.items close start start')
        (agrees_readString start start' fuel) start start' ch
    · intro close start start'
      refine ih.skip.bind fun _ _ _ => agrees_peek.bind ?_
      rintro r _ rfl
      cases r with
      | none => exact agrees_throw _ _
      | some ch =>
        dsimp only
        split
        · exact (agrees_skip 1).bind fun _ _ _ => agrees_pure rfl
        · refine ih.form.bind fun f g hfg => (ih.items close start start').bind fun fs gs hrest =>
            agrees_pure ?_
          simp_all [SameForm, SameItems, Form.sameAll]

/-! ## Whole reads -/

/-- The same outcome, positions aside. -/
inductive SameOutcome : Outcome → Outcome → Prop
  | lineStart : SameOutcome .lineStart .lineStart
  | streamEnd : SameOutcome .streamEnd .streamEnd
  | form {f g : Form} (h : SameForm f g) : SameOutcome (.form f) (.form g)

theorem agrees_approach (prompt prompt' : String) (fuel : Nat) :
    Agrees (· = ·) (approach prompt fuel) (approach prompt' fuel) := by
  induction fuel with
  | zero => exact agrees_pure rfl
  | succ fuel ih =>
    intro c d halike
    cases hrest : c.rest with
    | nil =>
      have hfetch := agrees_fetch prompt prompt' c d halike
      rw [approach_of_nil _ _ hrest, approach_of_nil _ _ (halike.rest ▸ hrest)]
      generalize fetch prompt c = found at hfetch
      generalize fetch prompt' d = found' at hfetch
      cases hfetch with
      | error hleft => exact .error hleft
      | @ok more _ c₁ d₁ hmore hleft =>
        subst hmore
        cases more with
        | true => exact ih c₁ d₁ hleft
        | false => exact .ok rfl hleft
    | cons ch cs =>
      rw [approach_of_cons _ _ hrest, approach_of_cons _ _ (halike.rest ▸ hrest)]
      split_ifs
      · exact .ok rfl (halike.advance 1)
      · exact .ok rfl halike.discardLine
      · exact ih _ _ (halike.advance 1)
      · exact .ok rfl halike

theorem agrees_enter (found : Approach) : Agrees SameOutcome (enter found) (enter found) := by
  intro c d halike
  cases found with
  | lineStart => exact .ok .lineStart halike
  | streamEnd => exact .ok .streamEnd halike
  | body =>
    have hform := (agreesAll c.steps).form c d halike
    simp only [enter, ← halike.steps]
    generalize readForm c.steps c = result at hform
    generalize readForm c.steps d = result' at hform
    cases hform with
    | ok hsame hleft => exact .ok (.form hsame) hleft.skipLineEnd
    | error hleft => exact .error hleft.discardLine

theorem agrees_read (prompt prompt' : String) :
    Agrees SameOutcome (read prompt) (read prompt') := by
  intro c d halike
  have hlt : d.size < c.size + 1 := by
    rw [halike.size]
    omega
  rw [read_eq prompt (Nat.lt_succ_self c.size), read_eq prompt' hlt]
  refine (agrees_approach prompt prompt' (c.size + 1)).bind ?_ c d halike
  rintro found _ rfl
  exact agrees_enter found

/-- The same forms are read, or reading fails both times. -/
inductive SameForms : Except ReadError (List Form) → Except ReadError (List Form) → Prop
  | ok {fs gs : List Form} (h : SameItems fs gs) : SameForms (.ok fs) (.ok gs)
  | error {e e' : ReadError} : SameForms (.error e) (.error e')

/-- The same input gives the same forms wherever it stands. -/
theorem Cursor.Alike.readRest {c d : Cursor} (h : c.Alike d) (fuel : Nat) :
    SameForms (readRest fuel c) (readRest fuel d) := by
  induction fuel generalizing c d with
  | zero => exact .ok rfl
  | succ fuel ih =>
    have hread := agrees_read "" "" c d h
    rw [Reading.readRest, Reading.readRest]
    generalize read "" c = result at hread
    generalize read "" d = result' at hread
    cases hread with
    | error => exact .error
    | ok hsame hleft =>
      cases hsame with
      | lineStart => exact ih hleft
      | streamEnd => exact .ok rfl
      | form hform =>
        have hrest := ih hleft
        dsimp only
        generalize Reading.readRest fuel _ = rest at hrest
        generalize Reading.readRest fuel _ = rest' at hrest
        cases hrest with
        | error => exact .error
        | ok hitems => exact .ok (by simp_all [SameItems, SameForm, Form.sameAll])

end Reading

end LiveLisp
