import LiveLisp.Proofs.Form.Tree
import LiveLisp.Proofs.Reading.Progress
import Mathlib.Data.List.TakeDrop
/-!
# Symbols that are read

A symbol that comes out of reading is a token of the text, or one of the two that stand for signs.
So it is spelled with characters of the text, and a plain name, written as a symbol again, is the
same plain name: it has no slash at which the text would be cut.
-/

namespace LiveLisp

open Fallible
open Text (Position)

/-- If the symbol is a plain name, then the name stands for it. -/
def Symbol.Legible (s : Symbol) : Prop :=
  ∀ name, s.plainName? = some name → Symbol.ofText name = .plain name

theorem Symbol.legible_ofChars (token : List Char) : (Symbol.ofChars token).Legible := by
  intro name hname
  have hself : Symbol.ofText (String.ofList token) = Symbol.ofChars token := by
    rw [ofText, String.toList_ofList]
  unfold ofChars at hname
  split at hname
  · contradiction
  · next hplain =>
    obtain rfl := Option.some.inj hname
    change Symbol.ofText (String.ofList token) = _
    rw [hself, ofChars]
    split
    · next hspan => exact absurd hspan (hplain _ _ _ _ _)
    · rfl

/-- The character stands in no part of the symbol. -/
def Symbol.Avoids (c : Char) (s : Symbol) : Prop :=
  (∀ ns ∈ s.ns, c ∉ ns.toList) ∧ c ∉ s.name.toList

theorem Symbol.avoids_ofChars {c : Char} {token : List Char} (h : c ∉ token) :
    (Symbol.ofChars token).Avoids c := by
  have hsplit := List.takeWhile_append_dropWhile (p := (· ≠ '/')) (l := token)
  unfold ofChars
  split
  · next n ns slash m name hspan =>
    rw [List.span_eq_takeWhile_dropWhile, Prod.mk.injEq] at hspan
    rw [hspan.1, hspan.2] at hsplit
    rw [← hsplit] at h
    simp only [List.mem_append, List.mem_cons, not_or] at h
    simp [Avoids, h]
  · simpa [Avoids, plain] using h

namespace Form

/-- Every symbol in the form is in `P`. -/
def Symbols (P : Symbol → Prop) (f : Form) : Prop := f.All fun a => ∀ s, a = .symbol s → P s

theorem Symbols.part {P : Symbol → Prop} {f g : Form} (h : f.Symbols P) (hg : g ∈ f.parts) :
    g.Symbols P :=
  h.of_mem_parts hg

theorem Symbols.symbol? {P : Symbol → Prop} {f : Form} (h : f.Symbols P) {s : Symbol}
    (hs : f.symbol? = some s) : P s := by
  unfold Form.symbol? at hs
  split at hs
  · obtain rfl := Option.some.inj hs
    exact h _ rfl
  · contradiction

theorem Symbols.plainName? {P : Symbol → Prop} {f : Form} (h : f.Symbols P) {name : String}
    (hname : f.plainName? = some name) : P (.plain name) := by
  obtain ⟨⟨ns, own⟩, hs, hplain⟩ := Option.bind_eq_some_iff.mp hname
  cases ns with
  | some ns => contradiction
  | none =>
    obtain rfl := Option.some.inj hplain
    exact h.symbol? hs

theorem Symbols.unquote {P : Symbol → Prop} {f : Form} (h : f.Symbols P) :
    f.unquote.Symbols P := by
  unfold Form.unquote
  split
  · next p head quoted =>
    split
    · exact h.part (List.mem_cons_of_mem _ List.mem_cons_self)
    · exact h
  · exact h

/-- Every plain name in the form stands for itself. -/
def Legible (f : Form) : Prop := f.Symbols Symbol.Legible

theorem Legible.plainName {f : Form} (h : f.Legible) {name : String}
    (hname : f.plainName? = some name) : Symbol.ofText name = .plain name :=
  Symbols.plainName? h hname name rfl

/-- The character stands in no symbol of the form. -/
def Avoids (c : Char) (f : Form) : Prop := f.Symbols (Symbol.Avoids c)

end Form

namespace Reading

open Cursor (Past)

/-- The brackets and the quote, which stand in no token. -/
def delimiters : List Char := ['(', ')', '[', ']', '\x7b', '\x7d', '"']

theorem not_delimiter_of_not_terminator {c : Char} (h : isTerminator c = false) :
    c ∉ delimiters := by
  have hall : ∀ d ∈ delimiters, isTerminator d = true := List.all_eq_true.mp (by decide)
  intro hc
  rw [hall c hc] at h
  contradiction

theorem not_mem_of_mem_delimiters {text : List Char} (h : text.all (· ∉ delimiters) = true)
    {c : Char} (hc : c ∈ delimiters) : c ∉ text :=
  fun hmem => of_decide_eq_true (List.all_eq_true.mp h c hmem) hc

/-- `P` holds of the symbols that are read where all characters are in `ok`. -/
structure Tokens (ok : Char → Prop) (P : Symbol → Prop) : Prop where
  token : ∀ token, (∀ c ∈ token, ok c ∧ c ∉ delimiters) → P (.ofChars token)
  quote : P (.ofText "quote")
  deref : P (.ofText "deref")

/-- All characters that are still to come are in `ok`. -/
def Cursor.Within (ok : Char → Prop) (c : Cursor) : Prop := ∀ ch ∈ c.chars, ok ch

section Reading

variable {ok : Char → Prop} {P : Symbol → Prop}

theorem Cursor.Within.past {c c' : Cursor} (h : c.Within ok) (hpast : c.Past c') :
    c'.Within ok :=
  fun ch hch => h ch (hpast.chars hch)

theorem gives_of_made {α : Type} {ending : Bool} {x : Reader α} (h : Made ending x) :
    Gives (Cursor.Within ok) (fun _ => True) x :=
  fun _ _ _ hc hrun => ⟨trivial, hc.past ((past_of_made h).of_ok hrun)⟩

theorem gives_next (start : Position) : Gives (Cursor.Within ok) ok (next start) := by
  intro c ch c' hc hrun
  obtain ⟨c₁, cs, hpeek, hrest, rfl⟩ := next_eq_ok hrun
  have hc₁ : c₁.Within ok := hc.past (onward_past.peek.of_ok hpeek)
  refine ⟨hc₁ ch ?_, hc₁.past (c₁.past_advance 1)⟩
  rw [Cursor.chars, hrest]
  exact List.mem_cons_self

theorem gives_takeUntil (stop : Char → Bool) :
    Gives (Cursor.Within ok) (fun token => ∀ ch ∈ token, ok ch ∧ stop ch = false)
      (takeUntil stop) := by
  intro c token c' hc hrun
  refine ⟨?_, hc.past ((past_of_made (.takeUntil stop)).of_ok hrun)⟩
  obtain ⟨rfl, -⟩ := EStateM.Result.ok.inj hrun
  intro ch hch
  refine ⟨hc ch (List.mem_append_left _ (List.takeWhile_subset _ hch)), ?_⟩
  simpa using List.all_eq_true.mp List.all_takeWhile ch hch

variable (hP : Tokens ok P)
include hP

theorem Tokens.atom? {token : List Char} (htoken : ∀ c ∈ token, ok c ∧ c ∉ delimiters) {a : Atom}
    (h : atom? token = some a) (p : Position) : (Form.atom p a).Symbols P := by
  rintro s rfl
  unfold Reading.atom? at h
  split at h
  · simp at h
  · split at h
    · simp at h
    · split at h
      · simp at h
      · split at h
        · split at h
          · simp at h
          · simp at h
        · split at h
          · split at h <;> simp at h
          · rw [← Atom.symbol.inj (Option.some.inj h)]
            exact hP.token token htoken

theorem Tokens.readToken {first : Char} (hfirst : ok first ∧ first ∉ delimiters)
    (start : Position) :
    Gives (Cursor.Within ok) (fun a => (Form.atom start a).Symbols P) (readToken first start) := by
  refine (gives_takeUntil isTerminator).bind fun more hmore => ?_
  have htoken : ∀ c ∈ first :: more, ok c ∧ c ∉ delimiters :=
    List.forall_mem_cons.mpr ⟨hfirst, fun c hc =>
      ⟨(hmore c hc).1, not_delimiter_of_not_terminator (hmore c hc).2⟩⟩
  split
  · next a ha => exact gives_pure (hP.atom? htoken ha start)
  · exact gives_throw _

theorem Tokens.readBody {form : Reader Form} {items : Char → Reader (List Form)}
    {text : Reader (List Char)} (hform : Gives (Cursor.Within ok) (Form.Symbols P) form)
    (hitems : ∀ close, Gives (Cursor.Within ok) (fun fs => ∀ f ∈ fs, f.Symbols P) (items close))
    (htext : Made false text) (start : Position) {ch : Char} (hch : ok ch) :
    Gives (Cursor.Within ok) (Form.Symbols P) (readBody form items text start ch) := by
  have hskip : Gives (Cursor.Within ok) (fun _ => True) (skip 1) := gives_of_made (.skip 1)
  unfold Reading.readBody
  split
  · exact (hitems _).bind fun fs hfs => gives_pure (Form.allItems_iff.mpr hfs)
  · exact (hitems _).bind fun fs hfs => gives_pure (Form.allItems_iff.mpr hfs)
  · refine (hitems _).bind fun fs hfs => ?_
    split
    · next entries hpair =>
      refine gives_pure (Form.allEntries_iff.mpr ?_)
      rw [Form.flatMap_of_pairUp hpair]
      exact hfs
    · exact gives_throw _
  · exact gives_throw _
  · exact gives_throw _
  · exact gives_throw _
  · exact (gives_of_made htext).bind fun cs _ => gives_pure (by rintro s ⟨⟩)
  · exact hform.bind fun f hf => gives_pure ⟨by rintro s ⟨⟩; exact hP.quote, hf, trivial⟩
  · exact hform.bind fun f hf => gives_pure ⟨by rintro s ⟨⟩; exact hP.deref, hf, trivial⟩
  · exact hform.bind fun _ _ => hform
  · exact (gives_of_made (made_readChar start)).bind fun c _ => gives_pure (by rintro s ⟨⟩)
  · refine (gives_of_made .peek).bind fun next _ => ?_
    split
    · exact hskip.bind fun _ _ => (hitems _).bind fun fs hfs =>
        gives_pure (Form.allItems_iff.mpr hfs)
    · exact hskip.bind fun _ _ => gives_throw _
    · exact gives_throw _
  · have hplain : ch ∉ delimiters := by simp_all [delimiters]
    exact (hP.readToken ⟨hch, hplain⟩ start).bind fun a ha => gives_pure ha

/-- With any number of steps. -/
theorem Tokens.reading (fuel : Nat) :
    Gives (Cursor.Within ok) (Form.Symbols P) (readForm fuel) ∧ ∀ close start,
      Gives (Cursor.Within ok) (fun fs => ∀ f ∈ fs, f.Symbols P) (readItems close start fuel) := by
  induction fuel with
  | zero =>
    refine ⟨?_, fun close start => gives_throw _⟩
    intro c f c' _ h
    contradiction
  | succ fuel ih =>
    obtain ⟨hform, hitems⟩ := ih
    have hskip : Gives (Cursor.Within ok) (fun _ => True) (skipInsignificant fuel) :=
      gives_of_made (madeAll fuel).skip
    constructor
    · rw [readForm]
      refine hskip.bind fun _ _ => (gives_of_made .currentPosition).bind fun start _ =>
        (gives_next start).bind fun ch hch => ?_
      exact hP.readBody hform (fun close => hitems close start) (made_readString start fuel)
        start hch
    · intro close start
      rw [readItems]
      refine hskip.bind fun _ _ => (gives_of_made .peek).bind fun next _ => ?_
      split
      · exact gives_throw _
      · split
        · exact (gives_of_made (.skip 1)).bind fun _ _ => gives_pure (List.forall_mem_nil _)
        · exact hform.bind fun f hf => (hitems close start).bind fun fs hfs =>
            gives_pure (List.forall_mem_cons.mpr ⟨hf, hfs⟩)

theorem Tokens.read {prompt : String} {c c' : Cursor} (hc : c.Within ok) {outcome : Outcome}
    (h : read prompt c = .ok outcome c') :
    (∀ form, outcome = .form form → form.Symbols P) ∧ c'.Within ok := by
  have hprogress := progressed_read prompt c
  rw [h] at hprogress
  have hpast : c.Past c' := by
    cases hprogress with
    | streamEnd hpast => exact hpast
    | read _ hpast => exact hpast
  refine ⟨?_, hc.past hpast⟩
  rintro form rfl
  have happroach := approached prompt c.steps c
  unfold Reading.read at h
  split at h
  · contradiction
  · simp at h
  · simp at h
  · next c₁ hbody =>
    rw [hbody] at happroach
    cases happroach with
    | body hpast₁ =>
      split at h
      · next f c₂ hform =>
        obtain ⟨hf, -⟩ := EStateM.Result.ok.inj h
        rw [← Outcome.form.inj hf]
        exact ((hP.reading _).1 _ _ _ (hc.past hpast₁) hform).1
      · contradiction

theorem Tokens.readRest {fuel : Nat} {c : Cursor} (hc : c.Within ok) {forms : List Form}
    (h : readRest fuel c = .ok forms) : ∀ f ∈ forms, f.Symbols P := by
  induction fuel generalizing c forms with
  | zero =>
    obtain rfl : [] = forms := by simpa [Reading.readRest] using h
    simp
  | succ fuel ih =>
    unfold Reading.readRest at h
    split at h
    · contradiction
    · obtain rfl := Except.ok.inj h
      simp
    · next c₁ hread => exact ih (hP.read hc hread).2 h
    · next f c₁ hread =>
      obtain ⟨hf, hc₁⟩ := hP.read hc hread
      cases hrest : Reading.readRest fuel c₁ with
      | error e => simp [hrest, Except.map] at h
      | ok rest =>
        obtain rfl : f :: rest = forms := by simpa [hrest, Except.map] using h
        exact List.forall_mem_cons.mpr ⟨hf f rfl, ih hc₁ hrest⟩

end Reading

/-! ## What is read from a text -/

theorem tokens_legible : Tokens (fun _ => True) Symbol.Legible where
  token token _ := Symbol.legible_ofChars token
  quote := Symbol.legible_ofChars _
  deref := Symbol.legible_ofChars _

theorem legible_of_read {prompt : String} {c c' : Cursor} {form : Form}
    (h : read prompt c = .ok (.form form) c') : form.Legible :=
  (tokens_legible.read (fun _ _ => trivial) h).1 form rfl

theorem legible_of_readAll {text : String} {forms : List Form} (h : readAll text = .ok forms) :
    ∀ f ∈ forms, f.Legible :=
  tokens_legible.readRest (fun _ _ => trivial) h

theorem tokens_avoid {c : Char} (h : c ∈ delimiters) :
    Tokens (fun _ => True) (Symbol.Avoids c) :=
  { token := fun token htoken => Symbol.avoids_ofChars fun hc => (htoken c hc).2 h
    quote := Symbol.avoids_ofChars (not_mem_of_mem_delimiters (by decide) h)
    deref := Symbol.avoids_ofChars (not_mem_of_mem_delimiters (by decide) h) }

/-- A form that can be read from some input. -/
def IsRead (form : Form) : Prop := ∃ prompt c c', read prompt c = .ok (.form form) c'

/-- No bracket and no quote stands in a symbol that is read. -/
theorem IsRead.avoids {form : Form} (h : IsRead form) {c : Char} (hc : c ∈ delimiters) :
    form.Avoids c := by
  obtain ⟨prompt, cursor, rest, hread⟩ := h
  exact ((tokens_avoid hc).read (fun _ _ => trivial) hread).1 form rfl

theorem isRead_of_readRest {fuel : Nat} {c : Cursor} {forms : List Form}
    (h : readRest fuel c = .ok forms) : ∀ form ∈ forms, IsRead form := by
  induction fuel generalizing c forms with
  | zero =>
    obtain rfl : [] = forms := by simpa [Reading.readRest] using h
    simp
  | succ fuel ih =>
    unfold Reading.readRest at h
    split at h
    · contradiction
    · obtain rfl := Except.ok.inj h
      simp
    · exact ih h
    · next f c₁ hread =>
      cases hrest : Reading.readRest fuel c₁ with
      | error e => simp [hrest, Except.map] at h
      | ok rest =>
        obtain rfl : f :: rest = forms := by simpa [hrest, Except.map] using h
        exact List.forall_mem_cons.mpr ⟨⟨"", c, c₁, hread⟩, ih hrest⟩

theorem isRead_of_readAll {text : String} {forms : List Form} (h : readAll text = .ok forms) :
    ∀ form ∈ forms, IsRead form :=
  isRead_of_readRest h

/-- The lines of a text hold its characters, and ends of lines. -/
theorem mem_chars_linesOfText {text : String} {c : Char}
    (h : c ∈ (Cursor.ofLines (linesOfText text)).chars) : c ∈ text.toList ∨ c = '\n' := by
  obtain ⟨line, hline, hc⟩ := List.mem_flatMap.mp h
  obtain ⟨cs, hcs, rfl⟩ := List.mem_map.mp hline
  have hclosed : c ∈ cs ∨ c = '\n' := by
    change c ∈ closeLine cs at hc
    unfold closeLine at hc
    split at hc
    · exact .inl hc
    · simpa using hc
  refine hclosed.imp_left fun hmem => ?_
  rw [← flatten_splitLines '\n' text.toList]
  exact List.mem_flatten_of_mem hcs hmem

/-- A character that is not in the text, and none of those that stand for signs, is in no symbol
that is read. -/
theorem avoids_of_readAll {c : Char} (hline : c ≠ '\n') (hquote : c ∉ "quote".toList)
    (hderef : c ∉ "deref".toList) {text : String} (htext : c ∉ text.toList) {forms : List Form}
    (h : readAll text = .ok forms) : ∀ f ∈ forms, f.Avoids c := by
  have htokens : Tokens (· ≠ c) (Symbol.Avoids c) :=
    { token := fun token htoken => Symbol.avoids_ofChars fun hc => (htoken c hc).1 rfl
      quote := Symbol.avoids_ofChars hquote
      deref := Symbol.avoids_ofChars hderef }
  refine htokens.readRest ?_ h
  rintro ch hch rfl
  rcases mem_chars_linesOfText hch with hmem | hmem
  · exact htext hmem
  · exact hline hmem

end Reading

end LiveLisp
