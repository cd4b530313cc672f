import LiveLisp.Proofs.Reading.Tokens
import Mathlib.Data.List.Basic
/-!
# Printed forms are read back

The text of a form that was read, if it has no floats, is read as one form, and this is the same
form.  A printed form stands on one line, so that reading it is a matter of what stands in front
of the cursor: `Takes x text rest P` says that `x` passes over `text` when `rest` follows it.
-/

namespace LiveLisp.Reading

open Fallible
open Text (Position)

/-! ## Taking a text -/

/-- With `rest` behind it, `x` takes `text` and its value satisfies `P`. -/
def Takes {α : Type} (x : Reader α) (text rest : List Char) (P : α → Prop) : Prop :=
  ∀ c : Cursor, c.rest = text ++ rest → ∃ a, x c = .ok a (c.advance text.length) ∧ P a

section Takes

variable {α β : Type} {x : Reader α} {k : α → Reader β} {t u rest : List Char}
  {P : α → Prop} {Q : β → Prop}

theorem takes_pure {a : α} (ha : P a) : Takes (pure a) [] rest P := by
  intro c _
  exact ⟨a, by rw [List.length_nil, c.advance_zero]; rfl, ha⟩

theorem Takes.bind (hx : Takes x t (u ++ rest) P) (hk : ∀ a, P a → Takes (k a) u rest Q) :
    Takes (x >>= k) (t ++ u) rest Q := by
  intro c hc
  rw [List.append_assoc] at hc
  obtain ⟨a, ha, hP⟩ := hx c hc
  have hu : (c.advance t.length).rest = u ++ rest := by
    rw [Cursor.advance_rest, hc, List.drop_left]
  obtain ⟨b, hb, hQ⟩ := hk a hP _ hu
  refine ⟨b, ?_, hQ⟩
  rw [bind_of_ok ha, hb, Cursor.advance_advance, List.length_append]

/-- What follows takes nothing more. -/
theorem Takes.then (hx : Takes x t rest P) (hk : ∀ a, P a → Takes (k a) [] rest Q) :
    Takes (x >>= k) t rest Q := by
  have h := Takes.bind (u := []) hx hk
  rwa [List.append_nil] at h

end Takes

theorem takes_currentPosition (rest : List Char) :
    Takes currentPosition [] rest fun _ => True := by
  intro c _
  exact ⟨c.position, by rw [List.length_nil, c.advance_zero]; rfl, trivial⟩

theorem takes_peek (ch : Char) (rest : List Char) : Takes peek [] (ch :: rest) (· = some ch) := by
  intro c hc
  refine ⟨some ch, ?_, rfl⟩
  rw [List.length_nil, c.advance_zero, peek, hc]
  rfl

theorem takes_skip (text rest : List Char) : Takes (skip text.length) text rest fun _ => True := by
  intro c _
  exact ⟨(), rfl, trivial⟩

theorem takes_next (start : Position) (ch : Char) (rest : List Char) :
    Takes (next start) [ch] rest (· = ch) := by
  refine Takes.bind (t := []) (takes_peek ch rest) ?_
  rintro _ rfl
  exact (takes_skip [ch] rest).then fun _ _ => takes_pure rfl

/-- What stands behind a token: a character that ends it. -/
def Ends (rest : List Char) : Prop := ∃ ch more, rest = ch :: more ∧ isTerminator ch = true

theorem takes_takeUntil {text rest : List Char} (htext : ∀ ch ∈ text, isTerminator ch = false)
    (hrest : Ends rest) : Takes (takeUntil isTerminator) text rest (· = text) := by
  intro c hc
  obtain ⟨ch, more, rfl, hch⟩ := hrest
  have htake : c.rest.takeWhile (fun ch => !isTerminator ch) = text := by
    rw [hc, List.takeWhile_append_of_pos (by simpa using htext)]
    simp [hch]
  exact ⟨text, by simp only [takeUntil, htake], rfl⟩

/-! ## Atoms -/

theorem takes_readToken {ch : Char} {more rest : List Char} {a : Atom} (start : Position)
    (htoken : IsToken (ch :: more)) (hatom : atom? (ch :: more) = some a) (hrest : Ends rest) :
    Takes (readToken ch start) more rest (· = a) := by
  have hmore : ∀ d ∈ more, isTerminator d = false := (List.forall_mem_cons.mp htoken.all).2
  refine (takes_takeUntil hmore hrest).then ?_
  rintro _ rfl
  simp only [hatom]
  exact takes_pure rfl

theorem takes_readChar {ch d : Char} {more rest : List Char} (start : Position)
    (hmore : ∀ e ∈ more, isTerminator e = false) (hname : namedChar? (d :: more) = some ch)
    (hrest : Ends rest) : Takes (readChar start) (d :: more) rest (· = ch) := by
  refine Takes.bind (t := [d]) (takes_next start d _) ?_
  rintro _ rfl
  refine (takes_takeUntil hmore hrest).then ?_
  rintro _ rfl
  simp only [hname]
  exact takes_pure rfl

/-- A printed character is a backslash and a name for it. -/
theorem charLiteral_eq (ch : Char) : ∃ d more, (charLiteral ch).toList = '\\' :: d :: more ∧
    (∀ e ∈ more, isTerminator e = false) ∧ namedChar? (d :: more) = some ch := by
  unfold charLiteral
  split
  · exact ⟨'n', "ewline".toList, rfl, not_terminator_of_all (by decide), by decide⟩
  · exact ⟨'s', "pace".toList, rfl, not_terminator_of_all (by decide), by decide⟩
  · exact ⟨'t', "ab".toList, rfl, not_terminator_of_all (by decide), by decide⟩
  · exact ⟨'r', "eturn".toList, rfl, not_terminator_of_all (by decide), by decide⟩
  · exact ⟨ch, [], by simp, by simp, rfl⟩

theorem escapeChar_cases (ch : Char) :
    (∃ d, escapeChar ch = ['\\', d]) ∨ escapeChar ch = [ch] ∧ ch ≠ '"' ∧ ch ≠ '\\' := by
  unfold escapeChar
  split
  case h_6 hquote hbackslash _ _ _ => exact .inr ⟨rfl, hquote, hbackslash⟩
  all_goals exact .inl ⟨_, rfl⟩

theorem takes_readEscape {ch d : Char} (start : Position) (rest : List Char)
    (h : escapeChar ch = ['\\', d]) : Takes (readEscape start) [d] rest (· = ch) := by
  refine Takes.bind (t := []) (takes_currentPosition _) fun pos _ => ?_
  refine (takes_next start d rest).then ?_
  rintro _ rfl
  unfold escapeChar at h
  split at h
  case h_6 => simp at h
  all_goals
    obtain rfl := (List.cons.inj (List.cons.inj h).2).1
    exact takes_pure rfl

/-- One more character in front of a string that is read back. -/
theorem takes_readString_cons {start : Position} {fuel : Nat} {t rest cs : List Char} (ch : Char)
    (h : Takes (readString start fuel) t rest (· = cs)) :
    Takes (readString start (fuel + 1)) (escapeChar ch ++ t) rest (· = ch :: cs) := by
  have hcons : Takes (readString start fuel >>= fun cs => pure (ch :: cs)) t rest
      (· = ch :: cs) := by
    refine h.then ?_
    rintro _ rfl
    exact takes_pure rfl
  rcases escapeChar_cases ch with ⟨d, hd⟩ | ⟨hplain, hquote, hbackslash⟩
  · rw [hd]
    refine Takes.bind (t := ['\\']) (takes_next start _ _) ?_
    rintro _ rfl
    refine Takes.bind (t := [d]) (takes_readEscape start _ hd) ?_
    rintro _ rfl
    exact hcons
  · rw [hplain]
    refine Takes.bind (takes_next start ch _) ?_
    rintro _ rfl
    split
    · exact absurd rfl hquote
    · exact absurd rfl hbackslash
    · exact hcons

theorem takes_readString {start : Position} {fuel : Nat} (cs rest : List Char)
    (hfuel : (cs.flatMap escapeChar).length < fuel) :
    Takes (readString start fuel) (cs.flatMap escapeChar ++ ['"']) rest (· = cs) := by
  obtain ⟨fuel, rfl⟩ := Nat.exists_eq_succ_of_ne_zero (Nat.ne_zero_of_lt hfuel)
  induction cs generalizing fuel with
  | nil =>
    refine (takes_next start '"' rest).then ?_
    rintro _ rfl
    exact takes_pure rfl
  | cons ch cs ih =>
    have hpos : 0 < (escapeChar ch).length := by
      rcases escapeChar_cases ch with ⟨d, hd⟩ | ⟨hplain, -⟩ <;> simp [*]
    rw [List.flatMap_cons, List.length_append] at hfuel
    obtain ⟨fuel, rfl⟩ : ∃ n, fuel = n + 1 := Nat.exists_eq_succ_of_ne_zero (by omega)
    rw [List.flatMap_cons, List.append_assoc]
    exact takes_readString_cons ch (ih fuel (by omega))

/-! ## Forms in a row -/

/-- A text with nothing to pass over in front. -/
def Significant (text : List Char) : Prop :=
  ∃ ch more, text = ch :: more ∧ isSeparator ch = false ∧ ch ≠ ';' ∧
    (ch = '#' → more.head? ≠ some '_')

theorem takes_atDiscard {text : List Char} (htext : Significant text) :
    Takes atDiscard [] text (· = false) := by
  intro c hc
  obtain ⟨ch, more, rfl, -, -, hmark⟩ := htext
  refine ⟨false, ?_, rfl⟩
  rw [List.length_nil, c.advance_zero]
  unfold atDiscard
  split
  · next more' hdiscard =>
    rw [hc, List.nil_append] at hdiscard
    obtain ⟨rfl, rfl⟩ := List.cons.inj hdiscard
    exact absurd rfl (hmark rfl)
  · rfl

theorem takes_skipInsignificant {seps text : List Char} {fuel : Nat}
    (hseps : ∀ s ∈ seps, isSeparator s = true) (hfuel : seps.length ≤ fuel)
    (htext : Significant text) : Takes (skipInsignificant fuel) seps text fun _ => True := by
  induction seps generalizing fuel with
  | nil =>
    cases fuel with
    | zero =>
      rw [skipInsignificant]
      exact takes_pure trivial
    | succ fuel =>
      obtain ⟨ch, more, rfl, hseparator, hsemicolon, -⟩ := id htext
      rw [skipInsignificant]
      refine Takes.bind (t := []) (takes_peek ch more) ?_
      rintro _ rfl
      simp only [hseparator, Bool.false_eq_true, if_false, hsemicolon]
      refine Takes.bind (t := []) (takes_atDiscard htext) ?_
      rintro _ rfl
      exact takes_pure trivial
  | cons s seps ih =>
    obtain ⟨fuel, rfl⟩ := Nat.exists_eq_succ_of_ne_zero (Nat.ne_zero_of_lt hfuel)
    obtain ⟨hs, hseps⟩ := List.forall_mem_cons.mp hseps
    rw [skipInsignificant]
    refine Takes.bind (t := []) (takes_peek s _) ?_
    rintro _ rfl
    simp only [hs, if_true]
    exact Takes.bind (takes_skip [s] _) fun _ _ => ih hseps (Nat.le_of_succ_le_succ hfuel)

/-- A text that begins with a form and not with a closing delimiter. -/
def BeginsForm (text : List Char) : Prop :=
  ∃ ch more, text = ch :: more ∧ isSeparator ch = false ∧ ch ∉ [';', ')', ']', '\x7d'] ∧
    (ch = '#' → more.head? = some '\x7b')

theorem BeginsForm.significant {text : List Char} (h : BeginsForm text) (rest : List Char) :
    Significant (text ++ rest) := by
  obtain ⟨ch, more, rfl, hseparator, hother, hset⟩ := h
  refine ⟨ch, more ++ rest, rfl, hseparator, ?_, ?_⟩
  · rintro rfl
    simp at hother
  · intro hch
    rw [List.head?_append, hset hch]
    simp

theorem takes_readForm {ch : Char} {text rest : List Char} {fuel : Nat} {P : Form → Prop}
    (hbegins : BeginsForm (ch :: text))
    (h : ∀ start, Takes (readBody (readForm fuel) (fun close => readItems close start fuel)
      (readString start fuel) start ch) text rest P) :
    Takes (readForm (fuel + 1)) (ch :: text) rest P := by
  rw [readForm]
  have hskip : Takes (skipInsignificant fuel) [] (ch :: text ++ rest) fun _ => True :=
    takes_skipInsignificant (by simp) (Nat.zero_le _) (hbegins.significant rest)
  refine Takes.bind (t := []) hskip fun _ _ => ?_
  refine Takes.bind (t := []) (takes_currentPosition _) fun start _ => ?_
  refine Takes.bind (t := [ch]) (takes_next start ch _) ?_
  rintro _ rfl
  exact h start

/-- The form is printed on one line, and its text is read as the same form. -/
structure ReadsBack (f : Form) : Prop where
  begins : BeginsForm f.render.toList
  oneLine : '\n' ∉ f.render.toList
  takes : ∀ fuel rest, f.render.toList.length ≤ fuel → Ends rest →
    Takes (readForm fuel) f.render.toList rest fun g => g.same f = true

/-- The texts of forms with blanks and commas in front of them, and behind all but the last. -/
inductive Spaced : List Char → List Form → Prop
  | nil : Spaced [] []
  | cons (seps : List Char) (f : Form) {text : List Char} {fs : List Form}
    (hseps : ∀ s ∈ seps, s ∈ [' ', ','])
    (hends : ∀ s ∈ text.head?, s ∈ [' ', ',']) (h : Spaced text fs) :
    Spaced (seps ++ f.render.toList ++ text) (f :: fs)

theorem gap_facts {s : Char} (h : s ∈ [' ', ',']) : isSeparator s = true ∧ s ≠ '\n' := by
  simp only [List.mem_cons, List.not_mem_nil, or_false] at h
  rcases h with rfl | rfl <;> decide

theorem closing_facts {close : Char} (h : close ∈ [')', ']', '\x7d']) :
    isTerminator close = true ∧ ∀ rest, Significant (close :: rest) := by
  have hfacts : isTerminator close = true ∧ isSeparator close = false ∧ close ≠ ';' ∧
      close ≠ '#' := by
    simp only [List.mem_cons, List.not_mem_nil, or_false] at h
    rcases h with rfl | rfl | rfl <;> decide
  obtain ⟨hterminator, hseparator, hsemicolon, hmark⟩ := hfacts
  exact ⟨hterminator, fun rest =>
    ⟨close, rest, rfl, hseparator, hsemicolon, fun heq => absurd heq hmark⟩⟩

/-- Reading items up to `close` gives the same forms. -/
theorem takes_readItems {text : List Char} {fs : List Form} (hspaced : Spaced text fs)
    (hfs : ∀ f ∈ fs, ReadsBack f) {close : Char} (hclose : close ∈ [')', ']', '\x7d'])
    (start : Position) {fuel : Nat} (hfuel : text.length < fuel) (rest : List Char) :
    Takes (readItems close start fuel) (text ++ [close]) rest
      fun gs => Form.sameAll gs fs = true := by
  obtain ⟨hterminator, hsignificant⟩ := closing_facts hclose
  -- each item takes one step and at least one character of the text
  induction hspaced generalizing fuel with
  | nil =>
    obtain ⟨fuel, rfl⟩ := Nat.exists_eq_succ_of_ne_zero (Nat.ne_zero_of_lt hfuel)
    rw [readItems]
    have hskip : Takes (skipInsignificant fuel) [] (close :: rest) fun _ => True :=
      takes_skipInsignificant (by simp) (Nat.zero_le _) (hsignificant rest)
    refine Takes.bind (t := []) hskip fun _ _ => ?_
    refine Takes.bind (t := []) (takes_peek close rest) ?_
    rintro _ rfl
    simp only [if_true]
    exact (takes_skip [close] rest).then fun _ _ => takes_pure rfl
  | @cons seps f text fs hseps hends _ ih =>
    obtain ⟨fuel, rfl⟩ := Nat.exists_eq_succ_of_ne_zero (Nat.ne_zero_of_lt hfuel)
    obtain ⟨hf, hfs⟩ := List.forall_mem_cons.mp hfs
    obtain ⟨ch, more, hrender, hseparator, hother, hset⟩ := id hf.begins
    have hne : ch ≠ close := by
      rintro rfl
      exact absurd (List.mem_cons_of_mem _ hclose) hother
    have hends' : Ends (text ++ [close] ++ rest) := by
      cases text with
      | nil => exact ⟨close, rest, rfl, hterminator⟩
      | cons s more => exact ⟨s, _, rfl, by simp [isTerminator, (gap_facts (hends s rfl)).1]⟩
    simp only [List.length_append] at hfuel
    have hpos : 0 < f.render.toList.length := by simp [hrender]
    rw [readItems]
    simp only [List.append_assoc]
    have hskip : Takes (skipInsignificant fuel) seps
        (f.render.toList ++ (text ++ [close] ++ rest)) fun _ => True :=
      takes_skipInsignificant (fun s hs => (gap_facts (hseps s hs)).1) (by omega)
        (hf.begins.significant _)
    have hpeek : Takes peek [] (f.render.toList ++ (text ++ [close] ++ rest)) (· = some ch) := by
      rw [hrender]
      exact takes_peek ch _
    refine Takes.bind (by simpa using hskip) fun _ _ => ?_
    refine Takes.bind (t := []) (by simpa using hpeek) ?_
    rintro _ rfl
    simp only [hne, if_false]
    refine Takes.bind (hf.takes fuel _ (by omega) (by simpa using hends')) fun g hg => ?_
    refine (ih hfs (by omega)).then fun gs hgs => ?_
    exact takes_pure (by simp [Form.sameAll, hg, hgs])

theorem Spaced.last (f : Form) : Spaced f.render.toList [f] := by
  simpa using Spaced.cons [] f (by simp) (by simp) .nil

/-- One more form in front, with separators behind it. -/
theorem Spaced.join {text : List Char} {fs : List Form} (f : Form) (seps : List Char)
    (h : Spaced text fs) (hfs : fs ≠ []) (hne : seps ≠ []) (hseps : ∀ s ∈ seps, s ∈ [' ', ',']) :
    Spaced (f.render.toList ++ (seps ++ text)) (f :: fs) := by
  have hpad : Spaced (seps ++ text) fs := by
    cases h with
    | nil => exact absurd rfl hfs
    | cons seps' g hseps' hends h =>
      have hall : ∀ s ∈ seps ++ seps', s ∈ [' ', ','] :=
        List.forall_mem_append.mpr ⟨hseps, hseps'⟩
      simpa using Spaced.cons _ g hall hends h
  obtain ⟨s, seps, rfl⟩ := List.exists_cons_of_ne_nil hne
  refine Spaced.cons [] f (by simp) ?_ hpad
  intro s' hs'
  obtain rfl : s = s' := by simpa using hs'
  exact hseps s (by simp)

theorem spaced_renderAll (fs : List Form) : Spaced (Form.renderAll fs).toList fs := by
  induction fs with
  | nil => exact .nil
  | cons f fs ih =>
    cases fs with
    | nil => exact .last f
    | cons g fs =>
      have h := Spaced.join f [' '] ih (by simp) (by simp) (by simp)
      simpa [Form.renderAll] using h

theorem spaced_renderEntries (es : List (Form × Form)) :
    Spaced (Form.renderEntries es).toList (es.flatMap fun e => [e.1, e.2]) := by
  induction es with
  | nil => exact .nil
  | cons e es ih =>
    obtain ⟨k, v⟩ := e
    cases es with
    | nil =>
      have h := Spaced.join k [' '] (.last v) (by simp) (by simp) (by simp)
      simpa [Form.renderEntries] using h
    | cons e es =>
      have hv := Spaced.join v [',', ' '] ih (by simp) (by simp) (by simp)
      have h := Spaced.join k [' '] hv (by simp) (by simp) (by simp)
      simpa [Form.renderEntries] using h

theorem Spaced.oneLine {text : List Char} {fs : List Form} (h : Spaced text fs)
    (hfs : ∀ f ∈ fs, ReadsBack f) : '\n' ∉ text := by
  induction h with
  | nil => simp
  | cons seps f hseps _ _ ih =>
    obtain ⟨hf, hfs⟩ := List.forall_mem_cons.mp hfs
    have hnot : '\n' ∉ seps := fun hmem => (gap_facts (hseps _ hmem)).2 rfl
    simp [hnot, hf.oneLine, ih hfs]

/-! ## All forms -/

theorem pairUp_of_sameAll {es : List (Form × Form)} {gs : List Form}
    (h : Form.sameAll gs (es.flatMap fun e => [e.1, e.2]) = true) :
    ∃ ds, Form.pairUp gs = some ds ∧ Form.sameEntries ds es = true := by
  induction es generalizing gs with
  | nil =>
    cases gs with
    | nil => exact ⟨[], rfl, rfl⟩
    | cons => simp [Form.sameAll] at h
  | cons e es ih =>
    obtain ⟨k, v⟩ := e
    cases gs with
    | nil => simp [Form.sameAll] at h
    | cons k' gs =>
      cases gs with
      | nil => simp [Form.sameAll] at h
      | cons v' gs =>
        simp only [List.flatMap_cons, List.cons_append, List.nil_append, Form.sameAll,
          Bool.and_eq_true] at h
        obtain ⟨ds, hds, hsame⟩ := ih h.2.2
        exact ⟨(k', v') :: ds, by simp [Form.pairUp, hds], by simp [Form.sameEntries, h, hsame]⟩

theorem escapeChar_ne_newline (ch : Char) : '\n' ∉ escapeChar ch := by
  unfold escapeChar
  split
  case h_6 _ _ hnewline _ _ => simpa using Ne.symm hnewline
  all_goals decide

theorem charLiteral_ne_newline (ch : Char) : '\n' ∉ (charLiteral ch).toList := by
  unfold charLiteral
  split
  case h_5 hnewline _ _ _ => simpa using Ne.symm hnewline
  all_goals decide

theorem readBody_of_beginsToken {ch : Char} (hch : BeginsToken ch) (form : Reader Form)
    (items : Char → Reader (List Form)) (text : Reader (List Char)) (start : Position) :
    readBody form items text start ch = readToken ch start >>= fun a => pure (.atom start a) := by
  unfold BeginsToken at hch
  unfold readBody
  split
  case h_13 => rfl
  all_goals exact absurd hch (by decide)

theorem readsBack_token (pos : Position) {a : Atom} (htoken : IsToken a.render.toList)
    (hatom : atom? a.render.toList = some a) : ReadsBack (.atom pos a) := by
  obtain ⟨ch, more, hrender, hch⟩ := htoken.first
  have hbegins : BeginsForm (ch :: more) := by
    have hother := hch.1
    simp only [isTerminator, Bool.or_eq_false_iff] at hother
    refine ⟨ch, more, rfl, hother.1, ?_, fun hmark => absurd hmark hch.2.2.2.2.2⟩
    have hdelimiter := hother.2
    simp at hdelimiter ⊢
    simp [hdelimiter]
  rw [hrender] at htoken hatom
  refine ⟨?_, ?_, ?_⟩
  · rw [Form.render, hrender]
    exact hbegins
  · rw [Form.render, hrender]
    intro hmem
    exact absurd (htoken.all _ hmem) (by decide)
  · intro fuel rest hfuel hrest
    rw [Form.render, hrender] at hfuel ⊢
    obtain ⟨fuel, rfl⟩ := Nat.exists_eq_succ_of_ne_zero (Nat.ne_zero_of_lt hfuel)
    refine takes_readForm hbegins fun start => ?_
    rw [readBody_of_beginsToken hch]
    refine (takes_readToken start htoken hatom hrest).then ?_
    rintro _ rfl
    exact takes_pure (Atom.same_self _)

theorem readsBack_str (pos : Position) (text : String) : ReadsBack (.atom pos (.str text)) := by
  have hrender : (Form.atom pos (.str text)).render.toList =
      '"' :: (text.toList.flatMap escapeChar ++ ['"']) := by
    simp [Form.render, Atom.render, quoteText]
  have hbegins : BeginsForm ('"' :: (text.toList.flatMap escapeChar ++ ['"'])) :=
    ⟨'"', _, rfl, by decide, by decide, by simp⟩
  refine ⟨?_, ?_, ?_⟩
  · rwa [hrender]
  · rw [hrender]
    simp [escapeChar_ne_newline]
  · intro fuel rest hfuel hrest
    rw [hrender] at hfuel ⊢
    obtain ⟨fuel, rfl⟩ := Nat.exists_eq_succ_of_ne_zero (Nat.ne_zero_of_lt hfuel)
    simp only [List.length_cons, List.length_append] at hfuel
    refine takes_readForm hbegins fun start => ?_
    refine (takes_readString text.toList rest (by omega)).then ?_
    rintro _ rfl
    exact takes_pure (by simp [Form.same, Form.str, Atom.same])

theorem readsBack_char (pos : Position) (ch : Char) : ReadsBack (.atom pos (.char ch)) := by
  obtain ⟨d, more, hrender, hmore, hname⟩ := charLiteral_eq ch
  have hbegins : BeginsForm ('\\' :: d :: more) := ⟨'\\', _, rfl, by decide, by decide, by simp⟩
  refine ⟨?_, charLiteral_ne_newline ch, ?_⟩
  · change BeginsForm (charLiteral ch).toList
    rwa [hrender]
  · intro fuel rest hfuel hrest
    change (charLiteral ch).toList.length ≤ fuel at hfuel
    change Takes _ (charLiteral ch).toList _ _
    rw [hrender] at hfuel ⊢
    obtain ⟨fuel, rfl⟩ := Nat.exists_eq_succ_of_ne_zero (Nat.ne_zero_of_lt hfuel)
    refine takes_readForm hbegins fun start => ?_
    refine (takes_readChar start hmore hname hrest).then ?_
    rintro _ rfl
    exact takes_pure (by simp [Form.same, Atom.same])

/-- A form is read back if it is printed as `ch` and `mid`, items that are read back, and a closing
delimiter, and if reading on after `ch` makes the form of these items. -/
theorem readsBack_of_items {f : Form} {fs : List Form} {text : List Char} (ch close : Char)
    (mid : List Char) (hrender : f.render.toList = ch :: (mid ++ (text ++ [close])))
    (hbegins : BeginsForm (ch :: (mid ++ (text ++ [close])))) (hmid : '\n' ∉ ch :: mid)
    (hspaced : Spaced text fs) (hclose : close ∈ [')', ']', '\x7d'])
    (hbody : ∀ form items string start rest,
      Takes (items close) (text ++ [close]) rest (fun gs => Form.sameAll gs fs = true) →
      Takes (readBody form items string start ch) (mid ++ (text ++ [close])) rest
        fun g => g.same f = true)
    (hfs : ∀ g ∈ fs, ReadsBack g) : ReadsBack f := by
  refine ⟨?_, ?_, ?_⟩
  · rwa [hrender]
  · rw [hrender]
    have hne : close ≠ '\n' := by
      rintro rfl
      simp at hclose
    have htext := hspaced.oneLine hfs
    simp_all [Ne.symm hne]
  · intro fuel rest hfuel _
    rw [hrender] at hfuel ⊢
    obtain ⟨fuel, rfl⟩ := Nat.exists_eq_succ_of_ne_zero (Nat.ne_zero_of_lt hfuel)
    simp only [List.length_cons, List.length_append] at hfuel
    refine takes_readForm hbegins fun start => hbody _ _ _ _ _ ?_
    exact takes_readItems hspaced hfs hclose start (by omega) rest

/-- Every form that can be read is read back, floats aside. -/
theorem readsBack_of_readable (f : Form) (hread : Readable f) (hfloat : f.FloatFree) :
    ReadsBack f := by
  induction f using Form.induct with
  | step f ih =>
    have hparts : ∀ g ∈ f.parts, ReadsBack g := by
      intro g hg
      exact ih g hg (hread.of_mem_parts hg) (hfloat.of_mem_parts hg)
    cases f with
    | atom pos a =>
      cases a with
      | str text => exact readsBack_str pos text
      | char ch => exact readsBack_char pos ch
      | _ =>
        obtain ⟨token, htoken, hatom⟩ := hread
        obtain ⟨htoken, hatom⟩ := atom?_render htoken hatom hfloat
        exact readsBack_token pos htoken hatom
    | list pos items =>
      refine readsBack_of_items '(' ')' [] (by simp [Form.render])
        ⟨'(', _, rfl, by decide, by decide, by simp⟩ (by decide) (spaced_renderAll items)
        (by decide) ?_ hparts
      intro form items string start rest h
      exact h.then fun gs hgs => takes_pure hgs
    | vector pos items =>
      refine readsBack_of_items '[' ']' [] (by simp [Form.render])
        ⟨'[', _, rfl, by decide, by decide, by simp⟩ (by decide) (spaced_renderAll items)
        (by decide) ?_ hparts
      intro form items string start rest h
      exact h.then fun gs hgs => takes_pure hgs
    | set pos items =>
      refine readsBack_of_items '#' '\x7d' ['\x7b'] (by simp [Form.render])
        ⟨'#', _, rfl, by decide, by decide, fun _ => rfl⟩ (by decide) (spaced_renderAll items)
        (by decide) ?_ hparts
      intro form items string start rest h
      refine Takes.bind (t := []) (takes_peek '\x7b' _) ?_
      rintro _ rfl
      refine Takes.bind (takes_skip ['\x7b'] _) fun _ _ => ?_
      exact h.then fun gs hgs => takes_pure hgs
    | map pos entries =>
      refine readsBack_of_items '\x7b' '\x7d' [] (by simp [Form.render])
        ⟨'\x7b', _, rfl, by decide, by decide, by simp⟩ (by decide)
        (spaced_renderEntries entries) (by decide) ?_ hparts
      intro form items string start rest h
      refine h.then fun gs hgs => ?_
      obtain ⟨ds, hds, hsame⟩ := pairUp_of_sameAll hgs
      simp only [hds]
      exact takes_pure hsame

/-! ## Whole texts -/

theorem splitLines_of_oneLine {cs : List Char} (hne : cs ≠ []) (h : '\n' ∉ cs) :
    splitLines '\n' cs = [cs] := by
  induction cs with
  | nil => exact absurd rfl hne
  | cons ch cs ih =>
    simp only [List.mem_cons, not_or] at h
    cases cs with
    | nil => simp [splitLines, Ne.symm h.1]
    | cons d ds => rw [splitLines, if_neg (Ne.symm h.1), ih (by simp) h.2]

theorem ReadsBack.linesOfText {f : Form} (h : ReadsBack f) :
    linesOfText f.render = [.text (f.render.toList ++ ['\n'])] := by
  obtain ⟨ch, more, hrender, -⟩ := h.begins
  have hlast : f.render.toList.getLast? ≠ some '\n' :=
    fun hlast => h.oneLine (List.mem_of_getLast? hlast)
  rw [Reading.linesOfText, splitLines_of_oneLine (by simp [hrender]) h.oneLine]
  simp [closeLine, hlast]

theorem approach_of_beginsForm {prompt : String} {fuel : Nat} {c : Cursor}
    {text rest : List Char} (hrest : c.rest = text ++ rest) (hbegins : BeginsForm text) :
    approach prompt (fuel + 1) c = .ok .body c := by
  obtain ⟨ch, more, rfl, hseparator, hother, -⟩ := hbegins
  have hnewline : ch ≠ '\n' := by
    rintro rfl
    exact absurd hseparator (by decide)
  have hsemicolon : ch ≠ ';' := by
    rintro rfl
    simp at hother
  simp [approach, hrest, hnewline, hsemicolon, hseparator]

theorem skipLineEnd_rest {c : Cursor} (h : c.rest = ['\n']) : (skipLineEnd c).rest = [] := by
  have hskip : skipLineEnd c = c.advance 1 := by simp [skipLineEnd, h]
  rw [hskip, Cursor.advance_rest, h]
  rfl

/-- The line of a printed form gives the form, and nothing of the line is left. -/
theorem ReadsBack.read {f : Form} (h : ReadsBack f) {c : Cursor} (hrest : c.rest = [])
    (hended : c.ended = false) (hpending : c.pending = [.text (f.render.toList ++ ['\n'])]) :
    ∃ g c', Reading.read "" c = .ok (.form g) c' ∧ g.same f = true ∧ c'.rest = [] ∧
      c'.pending = [] := by
  obtain ⟨c₁, hfetch, hrest₁, hpending₁⟩ : ∃ c₁, fetch "" c = .ok true c₁ ∧
      c₁.rest = f.render.toList ++ ['\n'] ∧ c₁.pending = [] := by
    simp [fetch, hended, hpending]
  have happroach : approach "" c.steps c = .ok .body c₁ := by
    obtain ⟨n, hsteps⟩ : ∃ n, c.steps = n + 1 + 1 := ⟨_, rfl⟩
    have hfirst : approach "" (n + 1 + 1) c = approach "" (n + 1) c₁ := by
      simp only [approach, hrest, hfetch]
    rw [hsteps, hfirst]
    exact approach_of_beginsForm hrest₁ h.begins
  have hlength : f.render.toList.length ≤ c₁.steps := by
    simp only [Cursor.steps, Cursor.size, hrest₁, List.length_append]
    omega
  obtain ⟨g, hform, hsame⟩ := h.takes c₁.steps ['\n'] hlength ⟨'\n', [], rfl, by decide⟩ c₁ hrest₁
  have hleft : (c₁.advance f.render.toList.length).rest = ['\n'] := by
    rw [Cursor.advance_rest, hrest₁, List.drop_left]
  refine ⟨g, skipLineEnd (c₁.advance f.render.toList.length), ?_, hsame, ?_, ?_⟩
  · simp only [Reading.read, happroach, hform]
  · exact skipLineEnd_rest hleft
  · simp only [skipLineEnd]
    split <;> exact hpending₁

/-- Nothing stands in the current line and none is to come. -/
theorem readRest_of_empty {fuel : Nat} {c : Cursor} (hrest : c.rest = [])
    (hpending : c.pending = []) : readRest fuel c = .ok [] := by
  cases fuel with
  | zero => rfl
  | succ fuel =>
    have hfetch : ∃ c', fetch "" c = .ok false c' := by
      unfold fetch
      split
      · exact ⟨c, rfl⟩
      · exact ⟨_, by simp only [hpending]; rfl⟩
    obtain ⟨c', hfetch⟩ := hfetch
    obtain ⟨n, hsteps⟩ : ∃ n, c.steps = n + 1 := ⟨_, rfl⟩
    simp [readRest, Reading.read, hsteps, approach, hrest, hfetch]

/-- Printing and reading: whatever form, at any depth, was read from a text, its own text is read
as one form, and this is the same form.  Floats are left out: what is printed for them need not be
what reading takes. -/
theorem readAll_render {text : String} {forms : List Form} {f g : Form}
    (hread : readAll text = .ok forms) (hg : g ∈ forms) (hf : f.Within g)
    (hfloat : f.FloatFree) : ∃ h, readAll f.render = .ok [h] ∧ h.same f = true := by
  have hback : ReadsBack f :=
    readsBack_of_readable f ((readable_of_readAll hread g hg).of_within hf) hfloat
  obtain ⟨h, c, hfirst, hsame, hrest, hpending⟩ := hback.read
    (c := Cursor.ofLines (linesOfText f.render)) rfl rfl hback.linesOfText
  have hrest' : ∀ fuel, readRest (fuel + 1) (Cursor.ofLines (linesOfText f.render)) = .ok [h] := by
    intro fuel
    have hnone : readRest fuel c = .ok [] := readRest_of_empty hrest hpending
    rw [readRest]
    simp only [hfirst, hnone]
    rfl
  exact ⟨h, hrest' _, hsame⟩

/-- The vector in `'[\( "\n"]`. -/
theorem readAll_render_quoted :
    readAll "'[\\( \"\\n\"]" = .ok [.list ⟨1, 1⟩ [.symbol "quote" ⟨1, 1⟩,
        .vector ⟨1, 2⟩ [.atom ⟨1, 3⟩ (.char '('), .str "\n" ⟨1, 6⟩]]] ∧
      ∃ h, readAll (Form.vector ⟨1, 2⟩ [.atom ⟨1, 3⟩ (.char '('), .str "\n" ⟨1, 6⟩]).render =
          .ok [h] ∧
        h.same (.vector ⟨1, 2⟩ [.atom ⟨1, 3⟩ (.char '('), .str "\n" ⟨1, 6⟩]) = true := by
  have hread : readAll "'[\\( \"\\n\"]" = .ok [.list ⟨1, 1⟩ [.symbol "quote" ⟨1, 1⟩,
      .vector ⟨1, 2⟩ [.atom ⟨1, 3⟩ (.char '('), .str "\n" ⟨1, 6⟩]]] := by cbv
  refine ⟨hread, readAll_render hread (List.mem_singleton_self _) ?_ ?_⟩
  · exact .part (List.mem_cons_of_mem _ (List.mem_singleton_self _)) .refl
  · simp [Form.FloatFree, Form.All, Form.AllItems, Form.str]
end LiveLisp.Reading
