import LiveLisp.Proofs.Form.Tree
import LiveLisp.Proofs.Reading.Composition
/-!
# What a reading step does

A reading step that succeeds leaves the cursor further on.  With steps enough for what is still to
come, nothing insignificant is left before a form, and every form that is read is made of values
that were written as tokens.
-/

namespace LiveLisp.Reading

open Fallible
open Text (Position)

/-! ## Places further on -/

/-- `c'` stands no earlier than `c`: no more is still to come, and of the lines only the first ones
have been asked for. -/
structure Cursor.Before (c c' : Cursor) : Prop where
  size : c'.size ≤ c.size
  pending : c'.pending <:+ c.pending

/-- No line to come is empty: a line has at least its newline. -/
def Cursor.FullLines (c : Cursor) : Prop := ∀ line ∈ c.pending, line ≠ .text []

namespace Cursor

variable {c c' c'' : Cursor}

theorem Before.refl (c : Cursor) : c.Before c := ⟨Nat.le_refl _, List.suffix_refl _⟩

theorem Before.trans (h : c.Before c') (h' : c'.Before c'') : c.Before c'' :=
  ⟨Nat.le_trans h'.size h.size, h'.pending.trans h.pending⟩

instance : Std.Refl Before := ⟨Before.refl⟩

instance : Trans Before Before Before := ⟨Before.trans⟩

theorem FullLines.of_before (h : c.FullLines) (hb : c.Before c') : c'.FullLines := by
  intro line hline
  exact h line (hb.pending.subset hline)

@[simp] theorem advance_rest (c : Cursor) (n : Nat) : (c.advance n).rest = c.rest.drop n := rfl

theorem advance_zero (c : Cursor) : c.advance 0 = c := rfl

theorem advance_advance (c : Cursor) (m n : Nat) : (c.advance m).advance n = c.advance (m + n) := by
  simp only [advance, List.drop_drop, List.take_add, List.length_append, Nat.add_assoc]

theorem before_advance (c : Cursor) (n : Nat) : c.Before (c.advance n) := by
  refine ⟨?_, List.suffix_refl _⟩
  simp only [Cursor.size, Cursor.advance, List.length_drop]
  omega

theorem size_advance_one {ch : Char} {cs : List Char} (h : c.rest = ch :: cs) :
    (c.advance 1).size + 1 = c.size := by
  simp only [Cursor.size, Cursor.advance, h, List.drop_succ_cons, List.drop_zero, List.length_cons]
  omega

theorem size_atLine_lt {prompt : String} {cs : List Char} {more : List Line}
    (hpending : c.pending = .text cs :: more) : (c.atLine prompt cs more).size < c.size := by
  simp only [Cursor.size, Cursor.atLine, hpending, Cursor.pendingSize]
  omega

theorem before_discardLine (c : Cursor) : c.Before c.discardLine := by
  refine ⟨?_, List.suffix_refl _⟩
  simp only [Cursor.size, Cursor.discardLine, List.length_nil]
  omega

theorem size_discardLine_lt {ch : Char} {cs : List Char} (h : c.rest = ch :: cs) :
    c.discardLine.size < c.size := by
  simp only [Cursor.size, Cursor.discardLine, h, List.length_nil, List.length_cons]
  omega

end Cursor

/-- What asking for a line finds: the end of the input, or a line that is not empty. -/
theorem fetch_eq_ok {prompt : String} {c c' : Cursor} {b : Bool} (hrest : c.rest = [])
    (h : fetch prompt c = .ok b c') :
    (b = false → c'.rest = [] ∧ c'.ended = true) ∧ (b = true → c.FullLines → c'.rest ≠ []) := by
  cases hended : c.ended with
  | true =>
    rw [fetch_of_ended hended] at h
    obtain ⟨rfl, rfl⟩ := EStateM.Result.ok.inj h
    exact ⟨fun _ => ⟨hrest, hended⟩, by simp⟩
  | false =>
    cases hpending : c.pending with
    | nil =>
      rw [fetch_of_nil hended hpending] at h
      obtain ⟨rfl, rfl⟩ := EStateM.Result.ok.inj h
      exact ⟨fun _ => ⟨hrest, rfl⟩, by simp⟩
    | cons line more =>
      cases line with
      | failed reason => simp [fetch_of_failed hended hpending] at h
      | text cs =>
        rw [fetch_of_text hended hpending] at h
        obtain ⟨rfl, rfl⟩ := EStateM.Result.ok.inj h
        refine ⟨by simp, fun _ hfull hnil => ?_⟩
        have hline := hfull (.text cs) (by simp [hpending])
        exact hline (congrArg Line.text hnil)

/-- No step moves the cursor back. -/
theorem onward_before : Onward Cursor.Before where
  noLine c prompt hrest hended hpending := ⟨Nat.le_refl _, List.suffix_refl _⟩
  failed c prompt reason more hrest hended hpending := by
    refine ⟨?_, ?_⟩
    · simp only [Cursor.size, hpending, Cursor.pendingSize]
      omega
    · rw [hpending]
      exact List.suffix_cons _ _
  line c prompt cs more hrest hended hpending := by
    refine ⟨Nat.le_of_lt (Cursor.size_atLine_lt hpending), ?_⟩
    rw [hpending]
    exact List.suffix_cons _ _
  advance := Cursor.before_advance
  discardLine := Cursor.before_discardLine

/-- What asking for the next character finds. At the end of the input it finds none. -/
theorem peek_eq_ok {c c' : Cursor} {r : Option Char} (h : peek c = .ok r c') :
    c.Before c' ∧ r = c'.rest.head? ∧ (c.FullLines → c'.rest = [] → c'.ended = true) := by
  refine ⟨onward_before.peek.of_ok h, ?_⟩
  cases hrest : c.rest with
  | cons ch cs =>
    rw [peek_of_cons hrest] at h
    obtain ⟨rfl, rfl⟩ := EStateM.Result.ok.inj h
    refine ⟨by rw [hrest]; rfl, fun _ hnil => ?_⟩
    rw [hrest] at hnil
    exact absurd hnil (by simp)
  | nil =>
    rw [peek_of_nil hrest] at h
    split at h
    · next c₁ hfetch =>
      obtain ⟨rfl, rfl⟩ := EStateM.Result.ok.inj h
      have hline := (fetch_eq_ok hrest hfetch).2 rfl
      exact ⟨rfl, fun hfull hnil => absurd hnil (hline hfull)⟩
    · next c₁ hfetch =>
      obtain ⟨rfl, rfl⟩ := EStateM.Result.ok.inj h
      have hend := (fetch_eq_ok hrest hfetch).1 rfl
      exact ⟨by rw [hend.1]; rfl, fun _ _ => hend.2⟩
    · simp at h

theorem next_eq_ok {start : Position} {c c' : Cursor} {ch : Char} (h : next start c = .ok ch c') :
    ∃ c₁ cs, peek c = .ok (some ch) c₁ ∧ c₁.rest = ch :: cs ∧ c' = c₁.advance 1 := by
  obtain ⟨r, c₁, hpeek, hrest⟩ := bind_eq_ok.mp h
  obtain ⟨-, hr, -⟩ := peek_eq_ok hpeek
  cases r with
  | none => exact absurd hrest throw_ne_ok
  | some d =>
    obtain ⟨u, c₂, hskip, hpure⟩ := bind_eq_ok.mp hrest
    obtain ⟨rfl, rfl⟩ := pure_eq_ok.mp hpure
    obtain ⟨-, rfl⟩ := EStateM.Result.ok.inj hskip
    cases hcs : c₁.rest with
    | nil => simp [hcs] at hr
    | cons e cs =>
      obtain rfl : d = e := by simpa [hcs] using hr
      exact ⟨c₁, cs, hpeek, hcs, rfl⟩

theorem before_next {start : Position} {c c' : Cursor} {ch : Char}
    (h : next start c = .ok ch c') : c.Before c' ∧ c'.size < c.size := by
  obtain ⟨c₁, cs, hpeek, hcs, rfl⟩ := next_eq_ok h
  obtain ⟨hbefore, -, -⟩ := peek_eq_ok hpeek
  refine ⟨hbefore.trans (c₁.before_advance 1), ?_⟩
  have hsize := Cursor.size_advance_one hcs
  have hle := hbefore.size
  omega

/-! ## Strings, characters and tokens -/

/-- A character that begins a token: it ends none, and no other reading begins with it. -/
def BeginsToken (ch : Char) : Prop :=
  isTerminator ch = false ∧ ch ≠ '\x27' ∧ ch ≠ '@' ∧ ch ≠ '^' ∧ ch ≠ '\\' ∧ ch ≠ '#'

/-- The characters of a token. -/
structure IsToken (token : List Char) : Prop where
  first : ∃ ch more, token = ch :: more ∧ BeginsToken ch
  all : ∀ ch ∈ token, isTerminator ch = false

theorem not_terminator_of_all {cs : List Char}
    (h : (cs.all fun ch => !isTerminator ch) = true) : ∀ ch ∈ cs, isTerminator ch = false := by
  simpa using h

theorem readToken_eq_ok {first : Char} {start : Position} {c c' : Cursor} {a : Atom}
    (h : readToken first start c = .ok a c') :
    ∃ more, c.rest.takeWhile (fun ch => !isTerminator ch) = more ∧
      (∀ ch ∈ more, isTerminator ch = false) ∧ atom? (first :: more) = some a ∧
      c' = c.advance more.length := by
  obtain ⟨more, c₁, hmore, hrest⟩ := bind_eq_ok.mp h
  obtain ⟨rfl, rfl⟩ := EStateM.Result.ok.inj hmore
  refine ⟨c.rest.takeWhile fun ch => !isTerminator ch, rfl, ?_, ?_⟩
  · exact not_terminator_of_all List.all_takeWhile
  · cases hatom : atom? (first :: c.rest.takeWhile fun ch => !isTerminator ch) with
    | none =>
      simp only [hatom] at hrest
      exact absurd hrest throw_ne_ok
    | some b =>
      simp only [hatom] at hrest
      obtain ⟨rfl, rfl⟩ := pure_eq_ok.mp hrest
      exact ⟨rfl, rfl⟩

/-! ## Bodies -/

/-- What reading on after the first character of a form can give. -/
inductive Body (form : Reader Form) (items : Char → Reader (List Form))
    (text : Reader (List Char)) (start : Position) (c c' : Cursor) : Char → Form → Prop
  | list {xs : List Form} (h : items ')' c = .ok xs c') :
    Body form items text start c c' '(' (.list start xs)
  | vector {xs : List Form} (h : items ']' c = .ok xs c') :
    Body form items text start c c' '[' (.vector start xs)
  | map {xs : List Form} {es : List (Form × Form)} (h : items '\x7d' c = .ok xs c')
    (hpairs : Form.pairUp xs = some es) : Body form items text start c c' '\x7b' (.map start es)
  | str {cs : List Char} (h : text c = .ok cs c') :
    Body form items text start c c' '"' (.str (String.ofList cs) start)
  | quote {f : Form} (h : form c = .ok f c') :
    Body form items text start c c' '\x27' (.list start [.symbol "quote" start, f])
  | deref {f : Form} (h : form c = .ok f c') :
    Body form items text start c c' '@' (.list start [.symbol "deref" start, f])
  | hinted {f g : Form} {c₁ : Cursor} (hf : form c = .ok f c₁) (hg : form c₁ = .ok g c') :
    Body form items text start c c' '^' g
  | char {ch : Char} (h : readChar start c = .ok ch c') :
    Body form items text start c c' '\\' (.atom start (.char ch))
  | set {xs : List Form} {c₁ : Cursor} (hopen : peek c = .ok (some '\x7b') c₁)
    (h : items '\x7d' (c₁.advance 1) = .ok xs c') :
    Body form items text start c c' '#' (.set start xs)
  | token {ch : Char} {a : Atom}
    (hch : ch ∉ ['(', '[', '\x7b', ')', ']', '\x7d', '"', '\x27', '@', '^', '\\', '#'])
    (h : readToken ch start c = .ok a c') : Body form items text start c c' ch (.atom start a)

theorem body_of_readBody {form : Reader Form} {items : Char → Reader (List Form)}
    {text : Reader (List Char)} {start : Position} {c c' : Cursor} {ch : Char} {f : Form}
    (h : readBody form items text start ch c = .ok f c') :
    Body form items text start c c' ch f := by
  unfold readBody at h
  split at h
  · obtain ⟨xs, c₁, hxs, hpure⟩ := bind_eq_ok.mp h
    obtain ⟨rfl, rfl⟩ := pure_eq_ok.mp hpure
    exact .list hxs
  · obtain ⟨xs, c₁, hxs, hpure⟩ := bind_eq_ok.mp h
    obtain ⟨rfl, rfl⟩ := pure_eq_ok.mp hpure
    exact .vector hxs
  · obtain ⟨xs, c₁, hxs, hrest⟩ := bind_eq_ok.mp h
    cases hes : Form.pairUp xs with
    | some es =>
      simp only [hes] at hrest
      obtain ⟨rfl, rfl⟩ := pure_eq_ok.mp hrest
      exact .map hxs hes
    | none =>
      simp only [hes] at hrest
      exact absurd hrest throw_ne_ok
  · exact absurd h throw_ne_ok
  · exact absurd h throw_ne_ok
  · exact absurd h throw_ne_ok
  · obtain ⟨cs, c₁, hcs, hpure⟩ := bind_eq_ok.mp h
    obtain ⟨rfl, rfl⟩ := pure_eq_ok.mp hpure
    exact .str hcs
  · obtain ⟨g, c₁, hg, hpure⟩ := bind_eq_ok.mp h
    obtain ⟨rfl, rfl⟩ := pure_eq_ok.mp hpure
    exact .quote hg
  · obtain ⟨g, c₁, hg, hpure⟩ := bind_eq_ok.mp h
    obtain ⟨rfl, rfl⟩ := pure_eq_ok.mp hpure
    exact .deref hg
  · obtain ⟨g, c₁, hg, hf⟩ := bind_eq_ok.mp h
    exact .hinted hg hf
  · obtain ⟨d, c₁, hd, hpure⟩ := bind_eq_ok.mp h
    obtain ⟨rfl, rfl⟩ := pure_eq_ok.mp hpure
    exact .char hd
  · obtain ⟨r, c₁, hpeek, hrest⟩ := bind_eq_ok.mp h
    split at hrest
    · obtain ⟨u, c₂, hskip, hitems⟩ := bind_eq_ok.mp hrest
      obtain ⟨-, rfl⟩ := EStateM.Result.ok.inj hskip
      obtain ⟨xs, c₃, hxs, hpure⟩ := bind_eq_ok.mp hitems
      obtain ⟨rfl, rfl⟩ := pure_eq_ok.mp hpure
      exact .set hpeek hxs
    · obtain ⟨u, c₂, -, hthrow⟩ := bind_eq_ok.mp hrest
      exact absurd hthrow throw_ne_ok
    · exact absurd hrest throw_ne_ok
  · next hother =>
    obtain ⟨a, c₁, ha, hpure⟩ := bind_eq_ok.mp h
    obtain ⟨rfl, rfl⟩ := pure_eq_ok.mp hpure
    refine .token ?_ ha
    simp_all

/-! ## Steps enough -/

/-- Nothing insignificant stands before the cursor, or the input has ended. -/
def Cursor.Settled (c : Cursor) : Prop :=
  match c.rest with
  | [] => c.ended = true
  | ch :: cs => isSeparator ch = false ∧ ch ≠ ';' ∧ ¬(ch = '#' ∧ cs.head? = some '_')

theorem next_of_settled {start : Position} {c c' : Cursor} {ch : Char} (hc : c.Settled)
    (h : next start c = .ok ch c') : ∃ cs, c.rest = ch :: cs ∧ c' = c.advance 1 := by
  obtain ⟨c₁, cs, hpeek, hcs, rfl⟩ := next_eq_ok h
  unfold Cursor.Settled at hc
  unfold peek at hpeek
  cases hrest : c.rest with
  | cons d ds =>
    simp only [hrest] at hpeek
    obtain ⟨hd, rfl⟩ := EStateM.Result.ok.inj hpeek
    obtain rfl := Option.some.inj hd
    exact ⟨ds, rfl, rfl⟩
  | nil =>
    simp only [hrest] at hc hpeek
    simp [fetch, hc] at hpeek

theorem beginsToken_of_settled {c : Cursor} {ch : Char} {cs : List Char} (hc : c.Settled)
    (hrest : c.rest = ch :: cs)
    (hch : ch ∉ ['(', '[', '\x7b', ')', ']', '\x7d', '"', '\x27', '@', '^', '\\', '#']) :
    BeginsToken ch := by
  unfold Cursor.Settled at hc
  simp only [hrest] at hc
  obtain ⟨hseparator, hsemicolon, -⟩ := hc
  simp only [List.mem_cons, List.not_mem_nil, or_false, not_or] at hch
  simp [BeginsToken, isTerminator, hseparator, hsemicolon, hch]

theorem atDiscard_eq_ok {c c' : Cursor} {b : Bool} (h : atDiscard c = .ok b c') :
    c = c' ∧ (b = true ↔ ∃ cs, c.rest = '#' :: '_' :: cs) := by
  unfold atDiscard at h
  split at h
  · next cs hrest =>
    obtain ⟨rfl, rfl⟩ := EStateM.Result.ok.inj h
    exact ⟨rfl, by simp [hrest]⟩
  · next hrest =>
    obtain ⟨rfl, rfl⟩ := EStateM.Result.ok.inj h
    refine ⟨rfl, ?_⟩
    simp only [Bool.false_eq_true, false_iff]
    rintro ⟨cs, hcs⟩
    exact hrest cs hcs

/-- Values as they come out of reading: strings and characters, and what tokens stand for. -/
def ReadableAtom : Atom → Prop
  | .str _ | .char _ => True
  | a => ∃ token, IsToken token ∧ atom? token = some a

/-- Forms as they come out of reading. -/
def Readable (f : Form) : Prop := f.All ReadableAtom

theorem readableAtom_of_token {token : List Char} {a : Atom} (htoken : IsToken token)
    (h : atom? token = some a) : ReadableAtom a := by
  cases a with
  | str | char => trivial
  | _ => exact ⟨token, htoken, h⟩

theorem isToken_cons {ch : Char} {more : List Char} (hch : BeginsToken ch)
    (hmore : ∀ d ∈ more, isTerminator d = false) : IsToken (ch :: more) :=
  ⟨⟨ch, more, rfl, hch⟩, List.forall_mem_cons.mpr ⟨hch.1, hmore⟩⟩

/-- The symbols that reading itself puts in. -/
theorem readable_symbol {name : String} (start : Position)
    (h : name = "quote" ∨ name = "deref") : Readable (Form.symbol name start) := by
  rcases h with rfl | rfl
  · have hall : ∀ ch ∈ "quote".toList, isTerminator ch = false := not_terminator_of_all (by decide)
    exact ⟨"quote".toList, ⟨⟨'q', "uote".toList, rfl, by decide, by decide⟩, hall⟩, by decide⟩
  · have hall : ∀ ch ∈ "deref".toList, isTerminator ch = false := not_terminator_of_all (by decide)
    exact ⟨"deref".toList, ⟨⟨'d', "eref".toList, rfl, by decide, by decide⟩, hall⟩, by decide⟩

/-- What holds of readers with `fuel` steps, as far as these are enough. -/
structure Sound (fuel : Nat) : Prop where
  skip : ∀ c c', c.FullLines → 2 * c.size + 1 ≤ fuel → skipInsignificant fuel c = .ok () c' →
    c.Before c' ∧ c'.Settled
  form : ∀ c f c', c.FullLines → 2 * c.size + 2 ≤ fuel → readForm fuel c = .ok f c' →
    c.Before c' ∧ c'.size < c.size ∧ Readable f
  items : ∀ close start c fs c', c.FullLines → 2 * c.size + 3 ≤ fuel →
    readItems close start fuel c = .ok fs c' →
    c.Before c' ∧ c'.size < c.size ∧ ∀ f ∈ fs, Readable f

section Sound

variable {fuel : Nat} {c c' : Cursor}

theorem Sound.skip_succ (ih : Sound fuel) (hfull : c.FullLines) (hfuel : 2 * c.size ≤ fuel)
    (h : skipInsignificant (fuel + 1) c = .ok () c') : c.Before c' ∧ c'.Settled := by
  obtain ⟨r, c₁, hpeek, hrest⟩ := bind_eq_ok.mp h
  obtain ⟨hbefore, hr, hended⟩ := peek_eq_ok hpeek
  have hfull₁ := hfull.of_before hbefore
  have hsize₁ := hbefore.size
  -- whatever is passed over, there is less to come
  have hagain : ∀ {c₂ : Cursor}, c₁.Before c₂ → c₂.size < c₁.size →
      skipInsignificant fuel c₂ = .ok () c' → c.Before c' ∧ c'.Settled := by
    intro c₂ hb hlt hskip
    obtain ⟨hb', hsettled⟩ := ih.skip c₂ c' (hfull₁.of_before hb) (by omega) hskip
    exact ⟨hbefore.trans (hb.trans hb'), hsettled⟩
  cases r with
  | none =>
    obtain ⟨-, rfl⟩ := pure_eq_ok.mp hrest
    have hnil : c₁.rest = [] := List.head?_eq_none_iff.mp hr.symm
    refine ⟨hbefore, ?_⟩
    unfold Cursor.Settled
    simp only [hnil]
    exact hended hfull hnil
  | some ch =>
    obtain ⟨cs, hcs⟩ : ∃ cs, c₁.rest = ch :: cs := List.head?_eq_some_iff.mp hr.symm
    have hone := Cursor.size_advance_one hcs
    simp only at hrest
    split at hrest
    · obtain ⟨u, c₂, hskip, hrest⟩ := bind_eq_ok.mp hrest
      obtain ⟨-, rfl⟩ := EStateM.Result.ok.inj hskip
      exact hagain (c₁.before_advance 1) (by omega) hrest
    · next hseparator =>
      split at hrest
      · obtain ⟨u, c₂, hmodify, hrest⟩ := bind_eq_ok.mp hrest
        obtain ⟨-, rfl⟩ := EStateM.Result.ok.inj hmodify
        exact hagain c₁.before_discardLine (Cursor.size_discardLine_lt hcs) hrest
      · next hsemicolon =>
        obtain ⟨discard, c₂, hat, hrest⟩ := bind_eq_ok.mp hrest
        obtain ⟨rfl, hmark⟩ := atDiscard_eq_ok hat
        cases discard with
        | false =>
          obtain ⟨-, rfl⟩ := pure_eq_ok.mp hrest
          refine ⟨hbefore, ?_⟩
          unfold Cursor.Settled
          simp only [hcs]
          refine ⟨by simpa using hseparator, hsemicolon, ?_⟩
          rintro ⟨rfl, hhead⟩
          obtain ⟨ds, rfl⟩ := List.head?_eq_some_iff.mp hhead
          exact absurd (hmark.mpr ⟨ds, hcs⟩) (by simp)
        | true =>
          obtain ⟨u, c₂, hskip, hrest⟩ := bind_eq_ok.mp hrest
          obtain ⟨-, rfl⟩ := EStateM.Result.ok.inj hskip
          obtain ⟨g, c₃, hform, hrest⟩ := bind_eq_ok.mp hrest
          obtain ⟨ds, hds⟩ := hmark.mp rfl
          have htwo : (c₁.advance 2).size + 2 = c₁.size := by
            simp only [Cursor.size, Cursor.advance, hds, List.drop_succ_cons, List.drop_zero,
              List.length_cons]
            omega
          obtain ⟨hb, -, -⟩ := ih.form _ g c₃ (hfull₁.of_before (c₁.before_advance 2)) (by omega)
            hform
          have hle := hb.size
          exact hagain ((c₁.before_advance 2).trans hb) (by omega) hrest

theorem Sound.form_succ (ih : Sound fuel) (hfull : c.FullLines) (hfuel : 2 * c.size + 1 ≤ fuel)
    {f : Form} (h : readForm (fuel + 1) c = .ok f c') :
    c.Before c' ∧ c'.size < c.size ∧ Readable f := by
  obtain ⟨u, c₁, hskip, hrest⟩ := bind_eq_ok.mp h
  obtain ⟨hbefore₁, hsettled⟩ := ih.skip c c₁ hfull hfuel hskip
  obtain ⟨start, c₂, hstart, hrest⟩ := bind_eq_ok.mp hrest
  obtain ⟨-, rfl⟩ := EStateM.Result.ok.inj hstart
  obtain ⟨ch, c₃, hnext, hbody⟩ := bind_eq_ok.mp hrest
  obtain ⟨hbefore₃, hlt₃⟩ := before_next hnext
  have hbefore := hbefore₁.trans hbefore₃
  have hfull₃ := hfull.of_before hbefore
  have hsize := hbefore₁.size
  have hitems : ∀ {close : Char} {c₄ : Cursor} {xs : List Form}, c₃.Before c₄ →
      readItems close start fuel c₄ = .ok xs c' →
      c₃.Before c' ∧ ∀ x ∈ xs, Readable x := by
    intro close c₄ xs hb hxs
    have hle := hb.size
    obtain ⟨hb', -, hall⟩ := ih.items close _ c₄ xs c' (hfull₃.of_before hb) (by omega) hxs
    exact ⟨hb.trans hb', hall⟩
  have hread : c₃.Before c' ∧ Readable f := by
    cases body_of_readBody hbody with
    | list hxs =>
      obtain ⟨hb, hall⟩ := hitems (Cursor.Before.refl c₃) hxs
      exact ⟨hb, Form.allItems_iff.mpr hall⟩
    | vector hxs =>
      obtain ⟨hb, hall⟩ := hitems (Cursor.Before.refl c₃) hxs
      exact ⟨hb, Form.allItems_iff.mpr hall⟩
    | map hxs hpairs =>
      obtain ⟨hb, hall⟩ := hitems (Cursor.Before.refl c₃) hxs
      rw [← Form.flatMap_of_pairUp hpairs] at hall
      exact ⟨hb, Form.allEntries_iff.mpr hall⟩
    | str htext => exact ⟨(onward_before.made (made_readString _ _)).of_ok htext, trivial⟩
    | quote hform =>
      obtain ⟨hb, -, hg⟩ := ih.form c₃ _ c' hfull₃ (by omega) hform
      exact ⟨hb, readable_symbol _ (.inl rfl), hg, trivial⟩
    | deref hform =>
      obtain ⟨hb, -, hg⟩ := ih.form c₃ _ c' hfull₃ (by omega) hform
      exact ⟨hb, readable_symbol _ (.inr rfl), hg, trivial⟩
    | hinted hhint hform =>
      obtain ⟨hb, hlt, -⟩ := ih.form c₃ _ _ hfull₃ (by omega) hhint
      obtain ⟨hb', -, hf⟩ := ih.form _ f c' (hfull₃.of_before hb) (by omega) hform
      exact ⟨hb.trans hb', hf⟩
    | char hchar => exact ⟨(onward_before.made (made_readChar _)).of_ok hchar, trivial⟩
    | set hopen hxs =>
      have hb := (onward_before.peek.of_ok hopen).trans (Cursor.before_advance _ 1)
      obtain ⟨hb', hall⟩ := hitems hb hxs
      exact ⟨hb', Form.allItems_iff.mpr hall⟩
    | token hch htoken =>
      obtain ⟨cs, hcs, -⟩ := next_of_settled hsettled hnext
      obtain ⟨more, -, hmore, hatom, rfl⟩ := readToken_eq_ok htoken
      have hbegins := beginsToken_of_settled hsettled hcs hch
      exact ⟨c₃.before_advance _, readableAtom_of_token (isToken_cons hbegins hmore) hatom⟩
  refine ⟨hbefore.trans hread.1, ?_, hread.2⟩
  have hle := hread.1.size
  omega

theorem Sound.items_succ (ih : Sound fuel) (hfull : c.FullLines) (hfuel : 2 * c.size + 2 ≤ fuel)
    {close : Char} {start : Position} {fs : List Form}
    (h : readItems close start (fuel + 1) c = .ok fs c') :
    c.Before c' ∧ c'.size < c.size ∧ ∀ f ∈ fs, Readable f := by
  obtain ⟨u, c₁, hskip, hrest⟩ := bind_eq_ok.mp h
  obtain ⟨hbefore₁, -⟩ := ih.skip c c₁ hfull (by omega) hskip
  obtain ⟨r, c₂, hpeek, hrest⟩ := bind_eq_ok.mp hrest
  obtain ⟨hbefore₂, hr, -⟩ := peek_eq_ok hpeek
  have hbefore := hbefore₁.trans hbefore₂
  have hfull₂ := hfull.of_before hbefore
  have hsize := hbefore.size
  cases r with
  | none => exact absurd hrest throw_ne_ok
  | some ch =>
    obtain ⟨cs, hcs⟩ : ∃ cs, c₂.rest = ch :: cs := List.head?_eq_some_iff.mp hr.symm
    simp only at hrest
    split at hrest
    · obtain ⟨u, c₃, hskip, hrest⟩ := bind_eq_ok.mp hrest
      obtain ⟨-, rfl⟩ := EStateM.Result.ok.inj hskip
      obtain ⟨rfl, rfl⟩ := pure_eq_ok.mp hrest
      have hone := Cursor.size_advance_one hcs
      refine ⟨hbefore.trans (c₂.before_advance 1), by omega, by simp⟩
    · obtain ⟨f, c₃, hform, hrest⟩ := bind_eq_ok.mp hrest
      obtain ⟨rest, c₄, hitems, hpure⟩ := bind_eq_ok.mp hrest
      obtain ⟨rfl, rfl⟩ := pure_eq_ok.mp hpure
      obtain ⟨hb₃, hlt₃, hf⟩ := ih.form c₂ f c₃ hfull₂ (by omega) hform
      obtain ⟨hb₄, hlt₄, hall⟩ := ih.items close start c₃ rest c₄ (hfull₂.of_before hb₃)
        (by omega) hitems
      exact ⟨hbefore.trans (hb₃.trans hb₄), by omega, List.forall_mem_cons.mpr ⟨hf, hall⟩⟩

end Sound

theorem sound (fuel : Nat) : Sound fuel := by
  induction fuel with
  | zero =>
    refine ⟨?_, ?_, ?_⟩
    · intro c c' _ hfuel
      omega
    · intro c f c' _ hfuel
      omega
    · intro close start c fs c' _ hfuel
      omega
  | succ fuel ih =>
    refine ⟨?_, ?_, ?_⟩
    · intro c c' hfull hfuel h
      exact ih.skip_succ hfull (by omega) h
    · intro c f c' hfull hfuel h
      exact ih.form_succ hfull (by omega) h
    · intro close start c fs c' hfull hfuel h
      exact ih.items_succ hfull (by omega) h

/-! ## Whole texts -/

/-- A read that gives a form has come to it and read it. -/
theorem read_eq_form {prompt : String} {c c' : Cursor} {f : Form}
    (h : read prompt c = .ok (.form f) c') :
    ∃ c₁ c₂, approach prompt c.steps c = .ok .body c₁ ∧ readForm c₁.steps c₁ = .ok f c₂ ∧
      c' = skipLineEnd c₂ := by
  unfold read at h
  cases happroach : approach prompt c.steps c with
  | error e c₁ => simp [happroach] at h
  | ok found c₁ =>
    cases found with
    | lineStart => simp [happroach] at h
    | streamEnd => simp [happroach] at h
    | body =>
      cases hform : readForm c₁.steps c₁ with
      | error e c₂ => simp [happroach, hform] at h
      | ok g c₂ =>
        simp only [happroach, hform] at h
        obtain ⟨hf, rfl⟩ := EStateM.Result.ok.inj h
        obtain rfl := Outcome.form.inj hf
        exact ⟨c₁, c₂, rfl, hform, rfl⟩

/-- One read moves on, and a form that it gives is readable. -/
theorem read_eq_ok {prompt : String} {c c' : Cursor} {outcome : Outcome} (hfull : c.FullLines)
    (h : read prompt c = .ok outcome c') :
    c.Before c' ∧ ∀ f, outcome = .form f → Readable f := by
  refine ⟨(onward_before.read prompt).of_ok h, ?_⟩
  rintro f rfl
  obtain ⟨c₁, c₂, happroach, hform, -⟩ := read_eq_form h
  have hbefore := (onward_before.approach prompt _).of_ok happroach
  exact ((sound _).form c₁ f c₂ (hfull.of_before hbefore) (by unfold Cursor.steps; omega)
    hform).2.2

theorem readable_of_readRest {fuel : Nat} {c : Cursor} {forms : List Form} (hfull : c.FullLines)
    (h : readRest fuel c = .ok forms) : ∀ f ∈ forms, Readable f := by
  induction fuel generalizing c forms with
  | zero =>
    obtain rfl : [] = forms := by simpa [readRest] using h
    simp
  | succ fuel ih =>
    unfold readRest at h
    split at h
    · simp at h
    · obtain rfl := Except.ok.inj h
      simp
    · next c₁ hread =>
      obtain ⟨hbefore, -⟩ := read_eq_ok hfull hread
      exact ih (hfull.of_before hbefore) h
    · next f c₁ hread =>
      obtain ⟨hbefore, hf⟩ := read_eq_ok hfull hread
      cases hrest : readRest fuel c₁ with
      | error e => simp [hrest, Except.map] at h
      | ok rest =>
        obtain rfl : f :: rest = forms := by simpa [hrest, Except.map] using h
        exact List.forall_mem_cons.mpr ⟨hf f rfl, ih (hfull.of_before hbefore) hrest⟩

theorem fullLines_ofText (text : String) : (Cursor.ofLines (linesOfText text)).FullLines := by
  intro line hline
  obtain ⟨l, -, rfl⟩ := List.mem_map.mp hline
  intro h
  have hnil : closeLine l = [] := Line.text.inj h
  unfold closeLine at hnil
  split at hnil
  · next hlast => simp [hnil] at hlast
  · simp at hnil

/-- Every form that is read from a text is readable. -/
theorem readable_of_readAll {text : String} {forms : List Form} (h : readAll text = .ok forms) :
    ∀ f ∈ forms, Readable f :=
  readable_of_readRest (fullLines_ofText text) h

end LiveLisp.Reading
