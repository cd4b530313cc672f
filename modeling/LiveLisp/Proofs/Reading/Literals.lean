import LiveLisp.Proofs.Reading.Progress
import Mathlib.Data.List.Infix
import Mathlib.Data.String.Basic
/-!
# The grammar of strings and characters

Between its quotes a string is written in raw characters and escapes, over any number of lines.
The reader takes just the texts of this grammar, and reads what they stand for, with one
difference: where a code of four digits is expected, a plus sign may stand for the first one.
-/

namespace LiveLisp.Reading

open Fallible
open Text (Position digitValue? number?)

/-! ## The grammar -/

/-- Four hexadecimal digits write the code of the character. -/
def HexCode (digits : List Char) (ch : Char) : Prop :=
  ∃ values : List Nat, values.length = 4 ∧ digits.map digitValue? = values.map some ∧
    ch.toNat = values.foldl (fun n d => n * 16 + d) 0

/-- Four hexadecimal digits, or a plus sign and three of them, write the code. -/
def SignedCode (digits : List Char) (ch : Char) : Prop :=
  HexCode digits ch ∨ ∃ more, digits = '+' :: more ∧ HexCode ('0' :: more) ch

/-- The escapes of one character, with what they stand for. -/
def shortEscapes : List (Char × Char) :=
  [('n', '\n'), ('t', '\t'), ('r', '\r'), ('b', Char.ofNat 8), ('f', Char.ofNat 12), ('"', '"'),
    ('\\', '\\')]

/-- What stands after a backslash, and the character it denotes. `Code` says how codes are
written. -/
inductive Escape (Code : List Char → Char → Prop) : List Char → Char → Prop
  | short {mark ch : Char} (h : (mark, ch) ∈ shortEscapes) : Escape Code [mark] ch
  | code {digits : List Char} {ch : Char} (h : Code digits ch) : Escape Code ('u' :: digits) ch

/-- The text between the quotes of a string, and the characters it denotes. -/
inductive Spelled (Code : List Char → Char → Prop) : List Char → List Char → Prop
  | nil : Spelled Code [] []
  | raw {ch : Char} {text chars : List Char} (hquote : ch ≠ '"') (hescape : ch ≠ '\\')
    (h : Spelled Code text chars) : Spelled Code (ch :: text) (ch :: chars)
  | escape {ch : Char} {mark text chars : List Char} (hmark : Escape Code mark ch)
    (h : Spelled Code text chars) : Spelled Code ('\\' :: (mark ++ text)) (ch :: chars)

/-! ## Codes -/

theorem HexCode.length {digits : List Char} {ch : Char} (h : HexCode digits ch) :
    digits.length = 4 := by
  obtain ⟨values, hlength, hdigits, -⟩ := h
  rw [← List.length_map (f := digitValue?), hdigits, List.length_map, hlength]

theorem SignedCode.length {digits : List Char} {ch : Char} (h : SignedCode digits ch) :
    digits.length = 4 := by
  rcases h with h | ⟨more, rfl, h⟩
  · exact h.length
  · exact h.length

/-- Hexadecimal digits are below sixteen, and plain characters. -/
theorem digitValue?_lt {c : Char} {v : Nat} (h : digitValue? c = some v) :
    v < 16 ∧ c.toNat < 128 := by
  unfold digitValue? at h
  simp only [Char.isDigit, Bool.and_eq_true, decide_eq_true_eq, Char.le_def, ge_iff_le,
    UInt32.le_iff_toNat_le, Char.toNat_val] at h
  split_ifs at h with hdigit hlower hupper
  · obtain rfl := Option.some.inj h
    have hle : c.toNat ≤ 57 := hdigit.2
    omega
  · obtain rfl := Option.some.inj h
    have hle : c.toNat ≤ 102 := hlower.2
    omega
  · obtain rfl := Option.some.inj h
    have hle : c.toNat ≤ 70 := hupper.2
    omega

/-- The number that hexadecimal digits write, one digit after the other. -/
theorem number?_eq_some {digits : List Char} {n : Nat} (hne : digits ≠ []) :
    number? 16 digits = some n ↔ ∃ values : List Nat, digits.map digitValue? = values.map some ∧
      n = values.foldl (fun n d => n * 16 + d) 0 := by
  rw [number?, if_neg (by simpa using hne)]
  generalize 0 = sum
  clear hne
  induction digits generalizing sum with
  | nil =>
    constructor
    · intro h
      exact ⟨[], rfl, (Option.some.inj h).symm⟩
    · rintro ⟨values, hvalues, rfl⟩
      obtain rfl : values = [] := by simpa using hvalues.symm
      rfl
  | cons c digits ih =>
    have hvalues : ∀ {values : List Nat}, (c :: digits).map digitValue? = values.map some ↔
        ∃ v vs, values = v :: vs ∧ digitValue? c = some v ∧
          digits.map digitValue? = vs.map some := by
      intro values
      cases values <;> simp
    rw [List.foldlM_cons]
    cases hc : digitValue? c with
    | none =>
      simp only [hvalues, hc]
      simp
    | some v =>
      have hlt := (digitValue?_lt hc).1
      simp only [hlt, if_true, Option.bind_eq_bind, Option.bind_some, ih, hvalues, hc]
      constructor
      · rintro ⟨vs, hvs, hn⟩
        exact ⟨v :: vs, ⟨v, vs, rfl, rfl, hvs⟩, hn⟩
      · rintro ⟨_, ⟨w, vs, rfl, hw, hvs⟩, hn⟩
        obtain rfl := Option.some.inj hw
        exact ⟨vs, hvs, hn⟩

theorem charOfCode?_eq_some {n : Nat} {ch : Char} : charOfCode? n = some ch ↔ ch.toNat = n := by
  constructor
  · intro h
    by_cases hvalid : n.isValidChar
    · rw [charOfCode?, dif_pos hvalid] at h
      obtain rfl := Option.some.inj h
      rfl
    · rw [charOfCode?, dif_neg hvalid] at h
      exact absurd h (by simp)
  · rintro rfl
    have hvalid : ch.toNat.isValidChar := ch.valid
    rw [charOfCode?, dif_pos hvalid]
    exact congrArg some (Char.toNat_inj.mp rfl)

theorem hexCode_iff {digits : List Char} {ch : Char} (hlength : digits.length = 4) :
    (number? 16 digits).bind charOfCode? = some ch ↔ HexCode digits ch := by
  have hne : digits ≠ [] := by
    rintro rfl
    simp at hlength
  constructor
  · intro h
    obtain ⟨n, hn, hch⟩ := Option.bind_eq_some_iff.mp h
    obtain ⟨values, hvalues, rfl⟩ := (number?_eq_some hne).mp hn
    refine ⟨values, ?_, hvalues, charOfCode?_eq_some.mp hch⟩
    rw [← hlength, ← List.length_map (f := digitValue?), hvalues, List.length_map]
  · rintro ⟨values, -, hvalues, hch⟩
    exact Option.bind_eq_some_iff.mpr
      ⟨ch.toNat, (number?_eq_some hne).mpr ⟨values, hvalues, hch⟩, charOfCode?_eq_some.mpr rfl⟩

theorem not_hexCode_plus {more : List Char} {ch : Char} : ¬ HexCode ('+' :: more) ch := by
  rintro ⟨values, -, hvalues, -⟩
  have hplus : digitValue? '+' = none := by decide
  cases values <;> simp [hplus] at hvalues

/-- What the characters of a code are read as. -/
theorem code_eq_some {digits : List Char} {ch : Char} (hlength : digits.length = 4) :
    (hexNumber? digits).bind charOfCode? = some ch ↔ SignedCode digits ch := by
  unfold hexNumber?
  split
  · next more =>
    have hzero : number? 16 ('0' :: more) = number? 16 more := by
      have hne : more ≠ [] := by
        rintro rfl
        simp at hlength
      rw [number?, number?, if_neg (by simp), if_neg (by simpa using hne), List.foldlM_cons]
      rfl
    rw [← hzero, hexCode_iff (by simpa using hlength)]
    simp [SignedCode, not_hexCode_plus]
  · next hplus =>
    rw [hexCode_iff hlength]
    constructor
    · exact .inl
    · rintro (h | ⟨more, rfl, -⟩)
      · exact h
      · exact absurd rfl (hplus more)

/-! ## Readers and languages -/

/-- The characters `cs` are still to come, on lines that can all be read. -/
structure Cursor.Holds (cs : List Char) (c : Cursor) : Prop where
  chars : c.chars = cs
  lines : ∀ line ∈ c.pending, ∃ ch more, line = .text (ch :: more)
  ended : c.ended = false

/-- `x` reads the texts of the language `L`, with what they denote, and nothing else. -/
structure Recognizes {α : Type} (x : Reader α) (L : List Char → α → Prop) : Prop where
  sound : ∀ {c c' : Cursor} {cs : List Char} {a : α}, c.Holds cs → x c = .ok a c' →
    ∃ text rest, cs = text ++ rest ∧ L text a ∧ c'.Holds rest
  complete : ∀ {c : Cursor} {text rest : List Char} {a : α}, c.Holds (text ++ rest) → L text a →
    ∃ c', x c = .ok a c' ∧ c'.Holds rest

/-- The next character, on this line or the next one. -/
theorem next_of_holds {c : Cursor} {ch : Char} {cs : List Char} (hc : c.Holds (ch :: cs))
    (start : Position) : ∃ c', next start c = .ok ch c' ∧ c'.Holds cs := by
  have hcut : ∀ {d : Cursor} {rest : List Char}, d.Holds (ch :: cs) → d.rest = ch :: rest →
      (d.advance 1).Holds cs := by
    intro d rest hd hrest
    refine ⟨?_, hd.lines, hd.ended⟩
    have hchars := hd.chars
    rw [Cursor.chars, hrest] at hchars
    rw [Cursor.chars, Cursor.advance_rest, hrest]
    exact (List.cons.inj hchars).2
  cases hrest : c.rest with
  | cons d rest =>
    have hchars := hc.chars
    rw [Cursor.chars, hrest] at hchars
    obtain rfl : d = ch := (List.cons.inj hchars).1
    refine ⟨c.advance 1, ?_, hcut hc hrest⟩
    rw [next, bind_of_ok (peek_of_cons hrest)]
    rfl
  | nil =>
    have hchars := hc.chars
    rw [Cursor.chars, hrest, List.nil_append] at hchars
    cases hpending : c.pending with
    | nil => simp [hpending] at hchars
    | cons line more =>
      obtain ⟨d, rest, rfl⟩ := hc.lines line (by simp [hpending])
      rw [hpending, List.flatMap_cons] at hchars
      obtain rfl : d = ch := (List.cons.inj hchars).1
      have hline : (c.atLine continuationPrompt (d :: rest) more).Holds (d :: cs) :=
        ⟨hchars, fun l hl => hc.lines l (by simp [hpending, show l ∈ more from hl]), hc.ended⟩
      refine ⟨_, ?_, hcut hline rfl⟩
      have hpeek : peek c = .ok (some d) (c.atLine continuationPrompt (d :: rest) more) := by
        rw [peek_of_nil hrest, fetch_of_text hc.ended hpending]
        rfl
      rw [next, bind_of_ok hpeek]
      rfl

theorem next_of_holds_nil {c c' : Cursor} {ch : Char} {start : Position} (hc : c.Holds []) :
    next start c ≠ .ok ch c' := by
  intro h
  obtain ⟨c₁, cs, hpeek, hcs, -⟩ := next_eq_ok h
  have hchars := hc.chars
  rw [Cursor.chars, List.append_eq_nil_iff] at hchars
  have hpending : c.pending = [] := by
    cases hpending : c.pending with
    | nil => rfl
    | cons line more =>
      obtain ⟨d, rest, rfl⟩ := hc.lines line (by simp [hpending])
      simp [hpending, Line.chars] at hchars
  rw [peek_of_nil hchars.1, fetch_of_nil hc.ended hpending] at hpeek
  simp at hpeek

section Recognizes

variable {α β : Type} {x : Reader α} {L M : List Char → α → Prop}

theorem Recognizes.congr (h : Recognizes x L) (hL : ∀ text a, L text a ↔ M text a) :
    Recognizes x M := by
  have heq : L = M := by
    funext text a
    exact propext (hL text a)
  rwa [← heq]

theorem recognizes_pure (a : α) : Recognizes (pure a) fun text b => text = [] ∧ b = a := by
  constructor
  · intro c c' cs b hc h
    obtain ⟨rfl, rfl⟩ := pure_eq_ok.mp h
    exact ⟨[], cs, rfl, ⟨rfl, rfl⟩, hc⟩
  · rintro c _ rest _ hc ⟨rfl, rfl⟩
    exact ⟨c, rfl, hc⟩

theorem recognizes_throw (e : ReadError) : Recognizes (throw e : Reader α) fun _ _ => False := by
  constructor
  · intro c c' cs a _ h
    exact absurd h throw_ne_ok
  · intro c text rest a _ h
    exact h.elim

theorem Recognizes.bind {k : α → Reader β} {N : α → List Char → β → Prop} (hx : Recognizes x L)
    (hk : ∀ a, Recognizes (k a) (N a)) :
    Recognizes (x >>= k) fun text b => ∃ a t u, text = t ++ u ∧ L t a ∧ N a u b := by
  constructor
  · intro c c' cs b hc h
    obtain ⟨a, c₁, hfirst, hrest⟩ := bind_eq_ok.mp h
    obtain ⟨t, rest, rfl, ht, hc₁⟩ := hx.sound hc hfirst
    obtain ⟨u, rest, rfl, hu, hc'⟩ := (hk a).sound hc₁ hrest
    exact ⟨t ++ u, rest, (List.append_assoc _ _ _).symm, ⟨a, t, u, rfl, ht, hu⟩, hc'⟩
  · rintro c _ rest b hc ⟨a, t, u, rfl, ht, hu⟩
    rw [List.append_assoc] at hc
    obtain ⟨c₁, hfirst, hc₁⟩ := hx.complete hc ht
    obtain ⟨c', hrest, hc'⟩ := (hk a).complete hc₁ hu
    exact ⟨c', (bind_of_ok hfirst).trans hrest, hc'⟩

/-- After its first character a language is read by what comes after the first character. -/
theorem recognizes_next {k : Char → Reader α} (start : Position) (hnil : ∀ a, ¬ L [] a)
    (hk : ∀ ch, Recognizes (k ch) fun text a => L (ch :: text) a) :
    Recognizes (next start >>= k) L := by
  constructor
  · intro c c' cs a hc h
    obtain ⟨ch, c₁, hnext, hrest⟩ := bind_eq_ok.mp h
    cases cs with
    | nil => exact absurd hnext (next_of_holds_nil hc)
    | cons d cs =>
      obtain ⟨c₂, hnext₂, hc₂⟩ := next_of_holds hc start
      obtain ⟨rfl, rfl⟩ := EStateM.Result.ok.inj (hnext₂.symm.trans hnext)
      obtain ⟨text, rest, rfl, htext, hc'⟩ := (hk d).sound hc₂ hrest
      exact ⟨d :: text, rest, rfl, htext, hc'⟩
  · intro c text rest a hc htext
    cases text with
    | nil => exact absurd htext (hnil a)
    | cons ch text =>
      obtain ⟨c₁, hnext, hc₁⟩ := next_of_holds hc start
      obtain ⟨c', hrest, hc'⟩ := (hk ch).complete hc₁ htext
      exact ⟨c', (bind_of_ok hnext).trans hrest, hc'⟩

theorem recognizes_currentPosition {k : Position → Reader α} (hk : ∀ pos, Recognizes (k pos) L) :
    Recognizes (currentPosition >>= k) L := by
  constructor
  · intro c c' cs a hc h
    exact (hk c.position).sound hc h
  · intro c text rest a hc h
    exact (hk c.position).complete hc h

end Recognizes

/-! ## Escapes -/

theorem recognizes_readUnicodeEscape (start pos : Position) :
    Recognizes (readUnicodeEscape start pos) SignedCode := by
  have hshort : ∀ {digits : List Char} {ch : Char}, digits.length ≠ 4 → ¬ SignedCode digits ch :=
    fun hne h => hne h.length
  refine recognizes_next start (fun _ => hshort (by simp)) fun a => ?_
  refine recognizes_next start (fun _ => hshort (by simp)) fun b => ?_
  refine recognizes_next start (fun _ => hshort (by simp)) fun c => ?_
  refine recognizes_next start (fun _ => hshort (by simp)) fun d => ?_
  -- the four characters are taken, so the rest of the code is empty
  have hcode : ∀ text ch, SignedCode (a :: b :: c :: d :: text) ch ↔
      text = [] ∧ (hexNumber? [a, b, c, d]).bind charOfCode? = some ch := by
    intro text ch
    constructor
    · intro h
      obtain rfl : text = [] := by simpa using h.length
      exact ⟨rfl, (code_eq_some rfl).mpr h⟩
    · rintro ⟨rfl, h⟩
      exact (code_eq_some rfl).mp h
  cases hvalue : (hexNumber? [a, b, c, d]).bind charOfCode? with
  | none =>
    refine (recognizes_throw _).congr fun text ch => ?_
    rw [hcode, hvalue]
    simp
  | some e =>
    refine (recognizes_pure e).congr fun text ch => ?_
    rw [hcode, hvalue]
    simp [eq_comm]

theorem escape_cons {Code : List Char → Char → Prop} {mark ch : Char} {text : List Char} :
    Escape Code (mark :: text) ch ↔
      (text = [] ∧ (mark, ch) ∈ shortEscapes) ∨ (mark = 'u' ∧ Code text ch) := by
  constructor
  · intro h
    cases h with
    | short h => exact .inl ⟨rfl, h⟩
    | code h => exact .inr ⟨rfl, h⟩
  · rintro (⟨rfl, h⟩ | ⟨rfl, h⟩)
    · exact .short h
    · exact .code h

theorem recognizes_readEscape (start : Position) :
    Recognizes (readEscape start) (Escape SignedCode) := by
  refine recognizes_currentPosition fun pos => recognizes_next start ?_ fun mark => ?_
  · intro ch h
    cases h
  · split
    case h_8 =>
      refine (recognizes_readUnicodeEscape start pos).congr fun text ch => ?_
      simp [escape_cons, shortEscapes]
    case h_9 =>
      refine (recognizes_throw _).congr fun text ch => ?_
      simp_all [escape_cons, shortEscapes]
    all_goals
      refine (recognizes_pure _).congr fun text ch => ?_
      simp [escape_cons, shortEscapes]

/-! ## Strings -/

/-- The text of a string with its closing quote, read in fewer than `fuel` steps. -/
def Closed (Code : List Char → Char → Prop) (fuel : Nat) (text chars : List Char) : Prop :=
  ∃ body, text = body ++ ['"'] ∧ Spelled Code body chars ∧ chars.length < fuel

section Closed

variable {Code : List Char → Char → Prop} {fuel : Nat} {text chars : List Char}

theorem not_closed_nil : ¬ Closed Code fuel [] chars := by
  rintro ⟨body, hbody, -⟩
  simp at hbody

theorem closed_quote : Closed Code (fuel + 1) ('"' :: text) chars ↔ text = [] ∧ chars = [] := by
  constructor
  · rintro ⟨body, htext, hbody, -⟩
    cases hbody with
    | nil => simpa using htext
    | raw hquote =>
      obtain ⟨rfl, -⟩ := List.cons.inj htext
      exact absurd rfl hquote
    | escape => exact absurd (List.cons.inj htext).1 (by decide)
  · rintro ⟨rfl, rfl⟩
    exact ⟨[], rfl, .nil, by simp⟩

theorem closed_escape : Closed Code (fuel + 1) ('\\' :: text) chars ↔
    ∃ ch t u, text = t ++ u ∧ Escape Code t ch ∧
      ∃ more, Closed Code fuel u more ∧ chars = ch :: more := by
  constructor
  · rintro ⟨body, htext, hbody, hlength⟩
    cases hbody with
    | nil => simp at htext
    | raw _ hescape =>
      obtain ⟨rfl, -⟩ := List.cons.inj htext
      exact absurd rfl hescape
    | @escape ch mark body more hmark h =>
      refine ⟨ch, mark, body ++ ['"'], by simpa using htext, hmark, more, ⟨body, rfl, h, ?_⟩, rfl⟩
      simpa using hlength
  · rintro ⟨ch, t, _, rfl, ht, more, ⟨body, rfl, hbody, hlength⟩, rfl⟩
    exact ⟨'\\' :: (t ++ body), by simp, .escape ht hbody, by simpa using hlength⟩

theorem closed_raw {ch : Char} (hquote : ch ≠ '"') (hescape : ch ≠ '\\') :
    Closed Code (fuel + 1) (ch :: text) chars ↔
      ∃ more, Closed Code fuel text more ∧ chars = ch :: more := by
  constructor
  · rintro ⟨body, htext, hbody, hlength⟩
    cases hbody with
    | nil => exact absurd (List.cons.inj htext).1 hquote
    | @raw d body more _ _ h =>
      obtain ⟨rfl, rfl⟩ := List.cons.inj htext
      exact ⟨more, ⟨body, rfl, h, by simpa using hlength⟩, rfl⟩
    | escape => exact absurd (List.cons.inj htext).1 hescape
  · rintro ⟨more, ⟨body, rfl, hbody, hlength⟩, rfl⟩
    exact ⟨ch :: body, by simp, .raw hquote hescape hbody, by simpa using hlength⟩

end Closed

theorem recognizes_readString (start : Position) (fuel : Nat) :
    Recognizes (readString start fuel) (Closed SignedCode fuel) := by
  induction fuel with
  | zero =>
    refine (recognizes_throw _).congr fun text chars => ?_
    simp [Closed]
  | succ fuel ih =>
    have hcons : ∀ d : Char, Recognizes (readString start fuel >>= fun rest => pure (d :: rest))
        fun text chars => ∃ more, Closed SignedCode fuel text more ∧ chars = d :: more := by
      intro d
      refine (ih.bind fun more => recognizes_pure (d :: more)).congr fun text chars => ?_
      simp
    refine recognizes_next start (fun _ => not_closed_nil) fun ch => ?_
    split
    · exact (recognizes_pure _).congr fun text chars => closed_quote.symm
    · exact ((recognizes_readEscape start).bind hcons).congr fun text chars => closed_escape.symm
    · next hquote hescape =>
      exact (hcons ch).congr fun text chars => (closed_raw hquote hescape).symm

theorem Spelled.length {Code : List Char → Char → Prop} {text chars : List Char}
    (h : Spelled Code text chars) : chars.length ≤ text.length := by
  induction h with
  | nil => simp
  | raw _ _ _ ih => simpa using ih
  | escape _ _ ih =>
    simp only [List.length_cons, List.length_append]
    omega

/-- The reader of strings takes just the texts of the grammar up to the closing quote. -/
theorem readString_eq_ok_iff {c : Cursor} {text more : List Char} {fuel : Nat}
    (hc : c.Holds (text ++ '"' :: more)) (hfuel : text.length < fuel) (start : Position)
    (chars : List Char) :
    (∃ c', readString start fuel c = .ok chars c' ∧ c'.chars = more) ↔
      Spelled SignedCode text chars := by
  have hreads := recognizes_readString start fuel
  constructor
  · rintro ⟨c', hrun, rfl⟩
    obtain ⟨t, rest, htext, ⟨body, rfl, hbody, -⟩, hrest⟩ := hreads.sound hc hrun
    rw [← hrest.chars, List.append_assoc] at htext
    obtain rfl : text = body := List.append_cancel_right htext
    exact hbody
  · intro h
    have hlength := h.length
    rw [← List.singleton_append, ← List.append_assoc] at hc
    obtain ⟨c', hrun, hrest⟩ := hreads.complete hc ⟨text, rfl, h, by omega⟩
    exact ⟨c', hrun, hrest.chars⟩

/-- Without a sign after the `u` of an escape, codes are four hexadecimal digits. -/
theorem spelled_hexCode_iff {text chars : List Char} (hsign : ¬ ['\\', 'u', '+'] <:+: text) :
    Spelled SignedCode text chars ↔ Spelled HexCode text chars := by
  constructor
  · intro h
    induction h with
    | nil => exact .nil
    | raw hquote hescape _ ih =>
      exact .raw hquote hescape (ih fun h => hsign (List.infix_cons h))
    | @escape ch mark text chars hmark _ ih =>
      have htext := ih fun h => hsign (List.infix_cons (h.trans (List.suffix_append _ _).isInfix))
      refine .escape ?_ htext
      cases hmark with
      | short h => exact .short h
      | code h =>
        rcases h with h | ⟨more, rfl, -⟩
        · exact .code h
        · exact absurd ⟨[], more ++ text, by simp⟩ hsign
  · intro h
    clear hsign
    induction h with
    | nil => exact .nil
    | raw hquote hescape _ ih => exact .raw hquote hescape ih
    | escape hmark _ ih =>
      refine .escape ?_ ih
      cases hmark with
      | short h => exact .short h
      | code h => exact .code (.inl h)

/-! ## Characters -/

theorem utf8Len_of_plain {cs : List Char} (h : ∀ c ∈ cs, c.toNat < 128) :
    String.utf8Len cs = cs.length := by
  induction cs with
  | nil => rfl
  | cons c cs ih =>
    obtain ⟨hc, hcs⟩ := List.forall_mem_cons.mp h
    have hsize : c.utf8Size = 1 := by
      rw [Char.utf8Size_eq_one_iff, UInt32.le_iff_toNat_le]
      exact Nat.le_of_lt_succ hc
    rw [String.utf8Len_cons, ih hcs, hsize, List.length_cons]

theorem HexCode.plain {digits : List Char} {ch : Char} (h : HexCode digits ch) :
    ∀ d ∈ digits, d.toNat < 128 := by
  obtain ⟨values, -, hvalues, -⟩ := h
  intro d hd
  have hmem : digitValue? d ∈ values.map some := by
    rw [← hvalues]
    exact List.mem_map_of_mem hd
  obtain ⟨v, -, hv⟩ := List.mem_map.mp hmem
  exact (digitValue?_lt hv.symm).2

/-- A code of four characters takes four bytes. -/
theorem SignedCode.utf8ByteSize {digits : List Char} {ch : Char} (h : SignedCode digits ch) :
    (String.ofList digits).utf8ByteSize = 4 := by
  have hplain : ∀ d ∈ digits, d.toNat < 128 := by
    rcases h with h | ⟨more, rfl, h⟩
    · exact h.plain
    · have hmore := (List.forall_mem_cons.mp h.plain).2
      exact List.forall_mem_cons.mpr ⟨by decide, hmore⟩
  rw [String.utf8ByteSize_ofList, utf8Len_of_plain hplain, h.length]

theorem namedChar?_code {digits : List Char} {ch : Char} (hlength : digits.length = 4) :
    namedChar? ('u' :: digits) = some ch ↔ SignedCode digits ch := by
  have hname : namedChar? ('u' :: digits) =
      if (String.ofList digits).utf8ByteSize = 4 then (hexNumber? digits).bind charOfCode?
      else none := by
    obtain ⟨a, more, rfl⟩ := List.exists_cons_of_length_eq_add_one hlength
    simp [namedChar?]
  rw [hname, ← code_eq_some hlength]
  constructor
  · intro h
    split at h
    · exact h
    · exact absurd h (by simp)
  · intro h
    rw [if_pos ((code_eq_some hlength).mp h).utf8ByteSize]
    exact h

/-- After a backslash, `u` and four characters are read as a code. -/
theorem readChar_eq_ok_iff {c : Cursor} {digits more : List Char}
    (hlength : digits.length = 4) (htoken : ∀ d ∈ digits, isTerminator d = false)
    (hmore : ∀ d ∈ more.head?, isTerminator d = true) (hc : c.rest = 'u' :: (digits ++ more))
    (start : Position) (ch : Char) :
    (∃ c', readChar start c = .ok ch c') ↔ SignedCode digits ch := by
  have hnext : next start c = .ok 'u' (c.advance 1) := by
    rw [next, bind_of_ok (peek_of_cons hc)]
    rfl
  have htake : takeUntil isTerminator (c.advance 1) =
      .ok digits ((c.advance 1).advance digits.length) := by
    have hstop : more.takeWhile (fun d => !isTerminator d) = [] := by
      cases more with
      | nil => rfl
      | cons d more => simp [hmore d (by simp)]
    have hrun : (c.advance 1).rest.takeWhile (fun d => !isTerminator d) = digits := by
      rw [Cursor.advance_rest, hc, List.drop_succ_cons, List.drop_zero,
        List.takeWhile_append_of_pos (by simpa using htoken), hstop, List.append_nil]
    simp only [takeUntil, hrun]
  rw [← namedChar?_code hlength, readChar, bind_of_ok hnext, bind_of_ok htake]
  cases namedChar? ('u' :: digits) with
  | none =>
    constructor
    · rintro ⟨c', h⟩
      exact absurd h throw_ne_ok
    · intro h
      exact absurd h (by simp)
  | some d =>
    constructor
    · rintro ⟨c', h⟩
      exact congrArg some (pure_eq_ok.mp h).1
    · intro h
      exact ⟨_, pure_eq_ok.mpr ⟨Option.some.inj h, rfl⟩⟩

/-! ## Literals -/

/-- The texts that are read as strings and characters are those of their grammar, if no code
begins with a plus sign, and are read as what they denote.  With signed codes the grammar holds for
all texts. -/
theorem literals_by_grammar (c : Cursor) (more : List Char) (start : Position) :
    (∀ (text chars : List Char) (fuel : Nat), c.Holds (text ++ '"' :: more) →
        text.length < fuel →
        ((∃ c', readString start fuel c = .ok chars c' ∧ c'.chars = more) ↔
          Spelled SignedCode text chars) ∧
        (¬ ['\\', 'u', '+'] <:+: text →
          ((∃ c', readString start fuel c = .ok chars c' ∧ c'.chars = more) ↔
            Spelled HexCode text chars))) ∧
      ∀ (digits : List Char) (ch : Char), digits.length = 4 →
        (∀ d ∈ digits, isTerminator d = false) → (∀ d ∈ more.head?, isTerminator d = true) →
        c.rest = 'u' :: (digits ++ more) →
        ((∃ c', readChar start c = .ok ch c') ↔ SignedCode digits ch) ∧
        (digits.head? ≠ some '+' →
          ((∃ c', readChar start c = .ok ch c') ↔ HexCode digits ch)) := by
  constructor
  · intro text chars fuel hc hfuel
    have hread := readString_eq_ok_iff hc hfuel start chars
    exact ⟨hread, fun hsign => hread.trans (spelled_hexCode_iff hsign)⟩
  · intro digits ch hlength htoken hmore hc
    have hread := readChar_eq_ok_iff hlength htoken hmore hc start ch
    refine ⟨hread, fun hsign => hread.trans ⟨?_, .inl⟩⟩
    rintro (h | ⟨more, rfl, -⟩)
    · exact h
    · exact absurd rfl hsign

/-- A string over two lines, with escapes on both of them, and a character by its code. -/
theorem literals_by_grammar_lines :
    (∃ c', readString ⟨1, 1⟩ 16 (.ofLines [.text "a\\u0041\n".toList, .text "\\\"b\"]\n".toList]) =
        .ok "aA\n\"b".toList c' ∧ c'.chars = "]\n".toList) ∧
      ∃ c', readChar ⟨1, 1⟩ ⟨"u20ac]\n".toList, 1, 1, [], false, []⟩ = .ok '€' c' := by
  constructor
  · refine (((literals_by_grammar _ "]\n".toList ⟨1, 1⟩).1 "a\\u0041\n\\\"b".toList _ 16
      ⟨rfl, ?_, rfl⟩ (by decide)).2 (by decide)).mpr ?_
    · intro line hline
      rcases List.mem_pair.mp hline with rfl | rfl
      · exact ⟨_, _, rfl⟩
      · exact ⟨_, _, rfl⟩
    · have hcode : HexCode "0041".toList 'A' := ⟨[0, 0, 4, 1], by decide, by decide, by decide⟩
      have hquote : Escape HexCode ['"'] '"' := .short (by decide)
      exact .raw (by decide) (by decide) (.escape (.code hcode)
        (.raw (by decide) (by decide) (.escape hquote (.raw (by decide) (by decide) .nil))))
  · refine (((literals_by_grammar _ "]\n".toList ⟨1, 1⟩).2 "20ac".toList '€' (by decide)
      (not_terminator_of_all rfl) ?_ rfl).2 (by decide)).mpr ?_
    · intro d hd
      obtain rfl : ']' = d := Option.some.inj hd
      decide
    · exact ⟨[2, 0, 10, 12], by decide, by decide, by decide⟩

/-- A code with a plus sign is read, in a string and as a character, though it is none. -/
theorem signed_code_read :
    (∃ c', readString ⟨1, 1⟩ 8 (.ofLines [.text "\\u+041\"\n".toList]) = .ok ['A'] c' ∧
        c'.chars = ['\n']) ∧ ¬ Spelled HexCode "\\u+041".toList ['A'] ∧
      (∃ c', readChar ⟨1, 1⟩ ⟨"u+041\n".toList, 1, 1, [], false, []⟩ = .ok 'A' c') ∧
      ¬ HexCode "+041".toList 'A' := by
  refine ⟨⟨_, rfl, rfl⟩, ?_, ⟨_, rfl⟩, not_hexCode_plus⟩
  generalize htext : "\\u+041".toList = text
  intro h
  cases h with
  | raw _ hescape => exact hescape (List.cons.inj htext).1.symm
  | escape hmark =>
    have htail := (List.cons.inj htext).2
    cases hmark with
    | short hshort =>
      rw [← (List.cons.inj htail).1] at hshort
      exact absurd hshort (by decide)
    | @code digits _ hcode =>
      obtain ⟨d, more, rfl⟩ := List.exists_cons_of_length_eq_add_one hcode.length
      rw [← (List.cons.inj (List.cons.inj htail).2).1] at hcode
      exact not_hexCode_plus hcode

end LiveLisp.Reading
