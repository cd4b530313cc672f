import LiveLisp.Proofs.Script.Operands
import LiveLisp.Text.Blank
import LiveLisp.Text.Digits
/-!
# What string literals denote

A string is a list of 16-bit units.  A literal stands between two equal quotes; behind a backslash
a character may mean another one, a code may follow, or the line may go on.  The value of a literal
is never longer than the text between the quotes, and it is as long only if that text is plain,
so that it stands for itself.
-/

namespace LiveLisp.Script

open Text (isBlank number?)

/-! ## Units -/

/-- The units of a code point: one, or a pair of surrogates. -/
def unitsOf (n : Nat) : List Nat :=
  if n < 0x10000 then [n] else [0xd800 + (n - 0x10000) / 0x400, 0xdc00 + (n - 0x10000) % 0x400]

/-- The string that a text is. -/
def utf16 (text : List Char) : List Nat := text.flatMap fun c => unitsOf c.toNat

theorem length_unitsOf (n : Nat) : 1 ≤ (unitsOf n).length ∧ (unitsOf n).length ≤ 2 := by
  unfold unitsOf
  split <;> simp

theorem utf16_cons (c : Char) (text : List Char) :
    utf16 (c :: text) = unitsOf c.toNat ++ utf16 text := List.flatMap_cons

theorem utf16_append (xs ys : List Char) : utf16 (xs ++ ys) = utf16 xs ++ utf16 ys :=
  List.flatMap_append

theorem length_le_utf16 (text : List Char) : text.length ≤ (utf16 text).length := by
  induction text with
  | nil => exact Nat.le_refl 0
  | cons c text ih =>
    have hc := (length_unitsOf c.toNat).1
    rw [utf16_cons, List.length_append, List.length_cons]
    omega

theorem toNat_eq_of_unitsOf_append {c : Char} {n : Nat} {xs ys : List Nat} (hn : n < 0xd800)
    (h : unitsOf c.toNat ++ xs = n :: ys) : c.toNat = n ∧ xs = ys := by
  unfold unitsOf at h
  split at h
  · exact List.cons.inj h
  · obtain ⟨hfirst, -⟩ := List.cons.inj h
    omega

/-- A text whose string begins with ASCII characters begins with them. -/
theorem eq_append_of_utf16 {front text : List Char} {units : List Nat}
    (hfront : (front.all fun c => c.toNat < 128) = true) (h : utf16 text = utf16 front ++ units) :
    ∃ rest, text = front ++ rest ∧ utf16 rest = units := by
  induction front generalizing text with
  | nil => exact ⟨text, rfl, h⟩
  | cons c front ih =>
    rw [List.all_cons, Bool.and_eq_true, decide_eq_true_eq] at hfront
    obtain ⟨hc, hrest⟩ := hfront
    have hunits : unitsOf c.toNat = [c.toNat] := if_pos (by omega)
    rw [utf16_cons, hunits, List.singleton_append, List.cons_append] at h
    cases text with
    | nil => contradiction
    | cons d text =>
      rw [utf16_cons] at h
      obtain ⟨hd, htext⟩ := toNat_eq_of_unitsOf_append (by omega) h
      obtain ⟨rest, rfl, hunits'⟩ := ih hrest htext
      exact ⟨rest, by rw [Char.toNat_inj.mp hd, List.cons_append], hunits'⟩

/-! ## Escapes -/

/-- Characters that mean a control character behind a backslash. -/
def controlEscapes : List (Char × Nat) :=
  [('b', 8), ('t', 9), ('n', 10), ('v', 11), ('f', 12), ('r', 13)]

def isOctal (c : Char) : Bool := '0' ≤ c && c ≤ '7'

/-- A number in exactly so many hexadecimal digits. -/
def fixedHex? (count : Nat) (text : List Char) : Option Nat :=
  if text.length < count then none else number? 16 (text.take count)

/-- A code point in hexadecimal digits between braces, and how many characters it takes. -/
def bracedHex? : List Char → Option (Nat × Nat)
  | '\x7b' :: rest =>
    let digits := rest.takeWhile (· ≠ '\x7d')
    match number? 16 digits with
    | some n =>
      if n ≤ 0x10ffff ∧ digits.length < rest.length then some (n, digits.length + 2) else none
    | none => none
  | _ => none

/-- The units that the text behind a backslash stands for, and how many characters it takes. -/
def escape? : List Char → Option (List Nat × Nat)
  | [] => none
  | c :: rest =>
    if c = 'x' then (fixedHex? 2 rest).map fun n => ([n], 3)
    else if c = 'u' then
      match bracedHex? rest with
      | some (n, used) => some (unitsOf n, used + 1)
      | none => (fixedHex? 4 rest).map fun n => ([n], 5)
    else if isOctal c then
      -- the value stays below 256
      let more := (rest.take (if c ≤ '3' then 2 else 1)).takeWhile isOctal
      (number? 8 (c :: more)).map fun n => ([n], more.length + 1)
    else if c = '\r' ∧ rest.head? = some '\n' then some ([], 2)
    else if isLineEnd c then some ([], 1)
    else
      match controlEscapes.lookup c with
      | some n => some ([n], 1)
      | none => some (unitsOf c.toNat, 1)

theorem le_length_of_fixedHex? {count n : Nat} {text : List Char}
    (h : fixedHex? count text = some n) : count ≤ text.length := by
  unfold fixedHex? at h
  split at h
  · contradiction
  · omega

theorem length_of_bracedHex? {text : List Char} {n used : Nat}
    (h : bracedHex? text = some (n, used)) : 2 ≤ used ∧ used ≤ text.length := by
  unfold bracedHex? at h
  split at h
  · next rest =>
    dsimp only at h
    split at h
    · split at h
      · next hle =>
        obtain ⟨-, rfl⟩ := Prod.mk.inj (Option.some.inj h)
        rw [List.length_cons]
        omega
      · contradiction
    · contradiction
  · contradiction

/-- An escape stands for no more units than the text that it takes. -/
theorem length_of_escape? {text : List Char} {units : List Nat} {used : Nat}
    (h : escape? text = some (units, used)) :
    units.length ≤ (utf16 (text.take used)).length := by
  -- enough for all escapes but that of a character outside of the first plane
  have hcounted : used ≤ text.length → units.length ≤ used →
      units.length ≤ (utf16 (text.take used)).length := by
    intro hused hunits
    have hle := length_le_utf16 (text.take used)
    rw [List.length_take, Nat.min_eq_left hused] at hle
    exact Nat.le_trans hunits hle
  cases text with
  | nil => contradiction
  | cons c rest =>
    rw [escape?.eq_2] at h
    rw [List.length_cons] at hcounted
    split at h
    · obtain ⟨n, hn, hpair⟩ := Option.map_eq_some_iff.mp h
      obtain ⟨rfl, rfl⟩ := Prod.mk.inj hpair
      have hcount := le_length_of_fixedHex? hn
      exact hcounted (by omega) (by simp)
    split at h
    · split at h
      · next n count hbraced =>
        obtain ⟨rfl, rfl⟩ := Prod.mk.inj (Option.some.inj h)
        have hcount := length_of_bracedHex? hbraced
        have hunits := (length_unitsOf n).2
        exact hcounted (by omega) (by omega)
      · obtain ⟨n, hn, hpair⟩ := Option.map_eq_some_iff.mp h
        obtain ⟨rfl, rfl⟩ := Prod.mk.inj hpair
        have hcount := le_length_of_fixedHex? hn
        exact hcounted (by omega) (by simp)
    split at h
    · obtain ⟨n, -, hpair⟩ := Option.map_eq_some_iff.mp h
      obtain ⟨rfl, rfl⟩ := Prod.mk.inj hpair
      refine hcounted (Nat.succ_le_succ ?_) (by simp)
      exact Nat.le_trans (List.takeWhile_prefix _).length_le (List.length_take_le' _ _)
    split at h
    · obtain ⟨rfl, rfl⟩ := Prod.mk.inj (Option.some.inj h)
      exact Nat.zero_le _
    split at h
    · obtain ⟨rfl, rfl⟩ := Prod.mk.inj (Option.some.inj h)
      exact Nat.zero_le _
    split at h
    · obtain ⟨rfl, rfl⟩ := Prod.mk.inj (Option.some.inj h)
      exact hcounted (by omega) (by simp)
    · obtain ⟨rfl, rfl⟩ := Prod.mk.inj (Option.some.inj h)
      simp [utf16]

/-! ## Literals -/

/-- The value of a literal up to its closing quote, after passing over `skip` characters, and what
stands behind the quote.  A literal may not go over a line feed or a carriage return. -/
def literalFrom (mark : Char) (skip : Nat) : List Char → Option (List Nat × List Char)
  | [] => none
  | c :: rest =>
    match skip with
    | k + 1 => literalFrom mark k rest
    | 0 =>
      if c = mark then some ([], rest)
      else if c = '\n' ∨ c = '\r' then none
      else
        match if c = '\\' then escape? rest else some (unitsOf c.toNat, 0) with
        | none => none
        | some (units, used) => (literalFrom mark used rest).map fun r => (units ++ r.1, r.2)

theorem literalFrom_skip (mark : Char) (k : Nat) (text : List Char) :
    literalFrom mark k text = literalFrom mark 0 (text.drop k) := by
  induction text generalizing k with
  | nil => simp [literalFrom]
  | cons c text ih =>
    cases k with
    | zero => rfl
    | succ k => exact ih k

/-- Characters that stand for themselves between quotes. -/
def isPlainIn (mark c : Char) : Bool := c ≠ mark && c ≠ '\\' && c ≠ '\n' && c ≠ '\r'

/-- Text that stands for itself between quotes. -/
def PlainIn (mark : Char) (text : List Char) : Prop := ∀ c ∈ text, isPlainIn mark c = true

instance (mark : Char) (text : List Char) : Decidable (PlainIn mark text) :=
  List.decidableBAll _ text

theorem literalFrom_cons_plain {mark c : Char} (hc : isPlainIn mark c = true) (text : List Char) :
    literalFrom mark 0 (c :: text) =
      (literalFrom mark 0 text).map fun r => (unitsOf c.toNat ++ r.1, r.2) := by
  simp only [isPlainIn, Bool.and_eq_true, decide_eq_true_eq, ne_eq] at hc
  obtain ⟨⟨⟨hmark, hslash⟩, hfeed⟩, hreturn⟩ := hc
  rw [literalFrom, if_neg hmark, if_neg (by simp [hfeed, hreturn]), if_neg hslash]

theorem literalFrom_append_plain {mark : Char} {front : List Char} (h : PlainIn mark front)
    (text : List Char) :
    literalFrom mark 0 (front ++ text) =
      (literalFrom mark 0 text).map fun r => (utf16 front ++ r.1, r.2) := by
  induction front with
  | nil => simp [utf16]
  | cons c front ih =>
    obtain ⟨hc, hfront⟩ := List.forall_mem_cons.mp h
    rw [List.cons_append, literalFrom_cons_plain hc, ih hfront, Option.map_map]
    congr 1
    funext r
    simp [utf16_cons]

theorem literalFrom_mark (mark : Char) (rest : List Char) :
    literalFrom mark 0 (mark :: rest) = some ([], rest) := by
  rw [literalFrom, if_pos rfl]

/-- What is read of a literal: some text up to a quote, as long as its value only if it is plain. -/
theorem exists_of_literalFrom {mark : Char} {text rest : List Char} {value : List Nat}
    (h : literalFrom mark 0 text = some (value, rest)) :
    ∃ body, text = body ++ mark :: rest ∧ value.length ≤ (utf16 body).length ∧
      (value.length = (utf16 body).length → PlainIn mark body) := by
  induction hlength : text.length using Nat.strongRecOn generalizing text value with
  | ind n ih =>
    cases text with
    | nil => contradiction
    | cons c text =>
      rw [literalFrom] at h
      split at h
      · next hmark =>
        obtain ⟨rfl, rfl⟩ := Prod.mk.inj (Option.some.inj h)
        exact ⟨[], by rw [hmark, List.nil_append], Nat.le_refl _, fun _ _ hc => by simp at hc⟩
      · next hmark =>
        split at h
        · contradiction
        · next hline =>
          split at h
          · contradiction
          · next units used hread =>
            rw [literalFrom_skip] at h
            obtain ⟨⟨value', rest'⟩, hrest, hpair⟩ := Option.map_eq_some_iff.mp h
            obtain ⟨rfl, rfl⟩ := Prod.mk.inj hpair
            obtain ⟨body, hbody, hle, hplain⟩ :=
              ih (text.drop used).length
                (by rw [List.length_drop, ← hlength, List.length_cons]; omega) hrest rfl
            have hsplit : c :: text = c :: text.take used ++ body ++ mark :: rest' := by
              rw [List.append_assoc, ← hbody, List.cons_append, List.take_append_drop]
            refine ⟨c :: text.take used ++ body, hsplit, ?_⟩
            have hlengths : (utf16 (c :: text.take used ++ body)).length =
                (unitsOf c.toNat).length + (utf16 (text.take used)).length +
                  (utf16 body).length := by
              rw [utf16_append, utf16_cons, List.length_append, List.length_append]
            rw [hlengths, List.length_append]
            have hone := (length_unitsOf c.toNat).1
            by_cases hslash : c = '\\'
            · rw [if_pos hslash] at hread
              have hunits := length_of_escape? hread
              dsimp only
              exact ⟨by omega, fun heq => absurd heq (by omega)⟩
            · rw [if_neg hslash] at hread
              obtain ⟨rfl, rfl⟩ := Prod.mk.inj (Option.some.inj hread)
              refine ⟨by simp [utf16] at hle ⊢; omega, fun heq => ?_⟩
              have hbody' : PlainIn mark body := hplain (by simp [utf16] at heq ⊢; omega)
              intro d hd
              rcases List.mem_cons.mp hd with rfl | hd
              · have hline' := not_or.mp hline
                simp [isPlainIn, hmark, hslash, hline'.1, hline'.2]
              · exact hbody' d (by simpa using hd)

/-- Plain text between quotes is read as it stands. -/
theorem literalFrom_plain {mark : Char} {text : List Char} (h : PlainIn mark text)
    (rest : List Char) : literalFrom mark 0 (text ++ mark :: rest) = some (utf16 text, rest) := by
  rw [literalFrom_append_plain h, literalFrom_mark, Option.map_some, List.append_nil]

/-- Where no other quote can end a literal, its value falls short of a text that is not plain. -/
theorem plainIn_of_literalFrom {mark : Char} {text tail rest : List Char} {value : List Nat}
    (htail : mark ∉ tail) (h : literalFrom mark 0 (text ++ mark :: tail) = some (value, rest))
    (hvalue : (utf16 text).length ≤ value.length) : PlainIn mark text := by
  obtain ⟨body, hbody, hle, hplain⟩ := exists_of_literalFrom h
  rcases List.append_eq_append_iff.mp hbody with ⟨more, rfl, hmore⟩ | ⟨more, rfl, hmore⟩
  · cases more with
    | nil =>
      rw [List.append_nil] at hle hplain
      exact hplain (Nat.le_antisymm hle hvalue)
    | cons c more =>
      -- the closing quote would stand in the tail
      refine absurd ?_ htail
      rw [(List.cons.inj hmore).2]
      simp
  · have hrest : more = [] := by
      rw [utf16_append, List.length_append] at hvalue
      have hlength := length_le_utf16 more
      exact List.eq_nil_of_length_eq_zero (by omega)
    rw [hrest, List.append_nil] at hvalue ⊢
    exact hplain (Nat.le_antisymm hle hvalue)

/-! ## Words, signs and strings -/

inductive Token where
  | word (text : List Char)
  | sign (c : Char)
  | string (value : List Nat)
  deriving DecidableEq

/-- Characters that may stand between the others. -/
def isGap (c : Char) : Bool := (isBlank c && c.toNat ≠ 0x85) || c.toNat = 0xfeff

def isSign (c : Char) : Bool := ".()[],;".toList.contains c

def isQuoteMark (c : Char) : Bool := c = '"' || c = '\x27'

/-- The words, signs and strings of a script that is made of these, after passing over `skip`
characters. -/
def tokensFrom (skip : Nat) : List Char → Option (List Token)
  | [] => some []
  | c :: rest =>
    match skip with
    | k + 1 => tokensFrom k rest
    | 0 =>
      if isGap c then tokensFrom 0 rest
      else if isSign c then (tokensFrom 0 rest).map (.sign c :: ·)
      else if isQuoteMark c then
        match literalFrom c 0 rest with
        | none => none
        | some (value, after) =>
          (tokensFrom (rest.length - after.length) rest).map (.string value :: ·)
      else if Alphabet.ascii.part c then
        let more := rest.takeWhile Alphabet.ascii.part
        (tokensFrom more.length rest).map (.word (c :: more) :: ·)
      else none

theorem tokensFrom_skip (k : Nat) (text : List Char) :
    tokensFrom k text = tokensFrom 0 (text.drop k) := by
  induction text generalizing k with
  | nil => simp [tokensFrom]
  | cons c text ih =>
    cases k with
    | zero => rfl
    | succ k => exact ih k

theorem tokensFrom_gap {c : Char} (hc : isGap c = true) (text : List Char) :
    tokensFrom 0 (c :: text) = tokensFrom 0 text := by
  rw [tokensFrom, if_pos hc]

theorem isGap_of_isSign {c : Char} (hc : isSign c = true) : isGap c = false := by
  have hall : (".()[],;".toList.all fun d => !isGap d) = true := by decide
  simpa using List.all_eq_true.mp hall c (List.contains_iff_mem.mp hc)

theorem tokensFrom_sign {c : Char} (hc : isSign c = true) (text : List Char) :
    tokensFrom 0 (c :: text) = (tokensFrom 0 text).map (.sign c :: ·) := by
  rw [tokensFrom, if_neg (by simp [isGap_of_isSign hc]), if_pos hc]

theorem tokensFrom_quote {mark : Char} (hmark : isQuoteMark mark = true) (text : List Char) :
    tokensFrom 0 (mark :: text) =
      (literalFrom mark 0 text).bind fun r => (tokensFrom 0 r.2).map (.string r.1 :: ·) := by
  have hother : isGap mark = false ∧ isSign mark = false := by
    rcases (by simpa [isQuoteMark] using hmark : mark = '"' ∨ mark = '\x27') with rfl | rfl <;>
      decide
  rw [tokensFrom, if_neg (by simp [hother.1]), if_neg (by simp [hother.2]), if_pos hmark]
  cases hliteral : literalFrom mark 0 text with
  | none => rfl
  | some r =>
    obtain ⟨body, hbody, -⟩ := exists_of_literalFrom hliteral
    dsimp only
    rw [tokensFrom_skip, Option.bind_some]
    congr 2
    have hlength : text.length - r.2.length = (body ++ [mark]).length := by
      rw [hbody]
      simp
      omega
    have hsplit : text = (body ++ [mark]) ++ r.2 := by
      rw [hbody, List.append_assoc, List.singleton_append]
    rw [hlength, hsplit, List.drop_left]

theorem tokensFrom_string {mark : Char} (hmark : isQuoteMark mark = true) {text : List Char}
    (h : PlainIn mark text) (rest : List Char) :
    tokensFrom 0 (mark :: (text ++ mark :: rest)) =
      (tokensFrom 0 rest).map (.string (utf16 text) :: ·) := by
  rw [tokensFrom_quote hmark, literalFrom_plain h, Option.bind_some]

/-- The characters of words are no others. -/
theorem other_of_part {c : Char} (hc : Alphabet.ascii.part c = true) :
    isGap c = false ∧ isSign c = false ∧ isQuoteMark c = false := by
  have hall : ((List.range 128).all fun n => !Alphabet.ascii.part (Char.ofNat n) ||
      !isGap (Char.ofNat n) && !isSign (Char.ofNat n) && !isQuoteMark (Char.ofNat n)) = true := by
    decide +kernel
  have hlt : c.toNat < 128 := of_decide_eq_true (Bool.and_eq_true_iff.mp hc).1
  have hthis := List.all_eq_true.mp hall c.toNat (List.mem_range.mpr hlt)
  rw [Char.ofNat_toNat, hc] at hthis
  simpa [and_assoc] using hthis

/-- A word ends at a sign. -/
theorem tokensFrom_word {c : Char} {more text : List Char} {s : Char}
    (hword : (c :: more).all Alphabet.ascii.part = true) (hs : Alphabet.ascii.part s = false) :
    tokensFrom 0 (c :: more ++ s :: text) =
      (tokensFrom 0 (s :: text)).map (.word (c :: more) :: ·) := by
  obtain ⟨hpart, hmore⟩ := Bool.and_eq_true_iff.mp hword
  obtain ⟨hgap, hsign, hquote⟩ := other_of_part hpart
  have htake : (more ++ s :: text).takeWhile Alphabet.ascii.part = more := by
    rw [List.takeWhile_append_of_pos (List.all_eq_true.mp hmore),
      List.takeWhile_cons_of_neg (by simp [hs]), List.append_nil]
  rw [List.cons_append, tokensFrom, if_neg (by simp [hgap]), if_neg (by simp [hsign]),
    if_neg (by simp [hquote]), if_pos hpart]
  dsimp only
  rw [htake, tokensFrom_skip, List.drop_left]

end LiveLisp.Script
