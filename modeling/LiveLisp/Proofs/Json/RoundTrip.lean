import LiveLisp.Json.Parser
import LiveLisp.Proofs.Text.Digits
import Mathlib.Data.List.TakeDrop
/-!
# Written JSON is read back

Reading the text of a value without floats gives the value as it was written.  Every reader below
takes a number of steps; the statements ask for more of them than there are characters, which is
what `parse` starts with.
-/

namespace LiveLisp.Json

open Script (jsonString jsonEscape unicodeEscape hexDigit)
open Text (digitValue? isDigit_of_mem_toDigits_ten toList_toString_int toList_toString_int_cons)

-- the equations of the printer and of the readers, which most of what follows rests on
attribute [grind =] Datum.render Datum.renderItems Datum.renderMembers value? items? members?

/-! ## Strings -/

/-- The piece of a written string that stands for a character. -/
def writtenUnit (c : Char) : TextUnit :=
  if c.toNat < 32 ∧ c ∉ ['\n', '\r', '\t', Char.ofNat 8, Char.ofNat 12] then .code c.toNat
  else .char c

theorem digitValue?_hexDigit (n : Nat) : digitValue? (hexDigit n) = some (n % 16) := by
  have hall : ∀ m < 16, digitValue? (Nat.digitChar m) = some m := by decide
  exact hall (n % 16) (Nat.mod_lt n (by omega))

theorem hex4?_unicodeEscape {n : Nat} (hn : n < 65536) (text : List Char) :
    hex4? (hexDigit (n / 4096) :: hexDigit (n / 256) :: hexDigit (n / 16) :: hexDigit n :: text) =
      some (n, text) := by
  simp only [hex4?, digitValue?_hexDigit, Option.bind_eq_bind, Option.bind_some, Option.pure_def,
    Option.some.injEq, Prod.mk.injEq, and_true]
  omega

/-- One step of the string reader takes in what was written for one character. -/
theorem units?_jsonEscape (fuel : Nat) (c : Char) (text : List Char) :
    units? (fuel + 1) (jsonEscape c ++ text) =
      (units? fuel text).map fun p => (writtenUnit c :: p.1, p.2) := by
  have hbind : ∀ (u : TextUnit) (o : Option (List TextUnit × List Char)),
      (o.bind fun p => some (u :: p.1, p.2)) = o.map fun p => (u :: p.1, p.2) := by
    intro u o
    cases o <;> rfl
  unfold jsonEscape
  split
  · next h => subst h; exact hbind _ _
  split
  · next h => subst h; exact hbind _ _
  split
  · next h => subst h; exact hbind _ _
  split
  · next h => subst h; exact hbind _ _
  split
  · next h => subst h; exact hbind _ _
  split
  · next h =>
    obtain rfl : c = Char.ofNat 8 := by rw [← Char.ofNat_toNat c, h]
    exact hbind _ _
  split
  · next h =>
    obtain rfl : c = Char.ofNat 12 := by rw [← Char.ofNat_toNat c, h]
    exact hbind _ _
  split
  · next hn hr ht h8 h12 h =>
    have hw : writtenUnit c = .code c.toNat := by
      have h8' : c ≠ Char.ofNat 8 := fun he => h8 (by rw [he]; rfl)
      have h12' : c ≠ Char.ofNat 12 := fun he => h12 (by rw [he]; rfl)
      simp [writtenUnit, h, hn, hr, ht, h8', h12']
    rw [hw, ← hbind]
    simp [unicodeEscape, units?, escape?, hex4?_unicodeEscape (by omega : c.toNat < 65536)]
  · next hq hb hn hr ht h8 h12 h =>
    have hw : writtenUnit c = .char c := by simp [writtenUnit, h]
    rw [hw, ← hbind]
    simp [units?, hq, hb, h]

theorem textOfUnits_writtenUnit (c : Char) (us : List TextUnit) :
    textOfUnits (writtenUnit c :: us) = (textOfUnits us).map (c :: ·) := by
  unfold writtenUnit
  split
  · next h =>
    have hlow : c.toNat < 32 := h.1
    cases us with
    | nil =>
      simp only [textOfUnits, Char.ofNat_toNat]
      rw [if_neg (by omega)]
    | cons u us =>
      cases u with
      | char d =>
        simp only [textOfUnits, Char.ofNat_toNat]
        rw [if_neg (by omega)]
      | code m =>
        simp only [textOfUnits, Char.ofNat_toNat]
        rw [if_neg (by omega), if_neg (by omega)]
  · rfl

theorem units?_written {fuel : Nat} {cs : List Char} (hfuel : cs.length < fuel)
    (rest : List Char) :
    units? fuel (cs.flatMap jsonEscape ++ '"' :: rest) = some (cs.map writtenUnit, rest) := by
  induction cs generalizing fuel with
  | nil =>
    obtain ⟨fuel, rfl⟩ : ∃ k, fuel = k + 1 := ⟨fuel - 1, by omega⟩
    simp [units?]
  | cons c cs ih =>
    obtain ⟨fuel, rfl⟩ : ∃ k, fuel = k + 1 := ⟨fuel - 1, by omega⟩
    have hfuel' : cs.length < fuel := by simpa using hfuel
    rw [List.flatMap_cons, List.append_assoc, units?_jsonEscape, ih hfuel']
    rfl

theorem textOfUnits_written (cs : List Char) : textOfUnits (cs.map writtenUnit) = some cs := by
  induction cs with
  | nil => rfl
  | cons c cs ih => rw [List.map_cons, textOfUnits_writtenUnit, ih]; rfl

theorem string?_written {fuel : Nat} {text : String} (hfuel : text.toList.length < fuel)
    (rest : List Char) :
    string? fuel (text.toList.flatMap jsonEscape ++ '"' :: rest) = some (some text, rest) := by
  simp [string?, units?_written hfuel, textOfUnits_written]

/-! ## Integers -/

/-- What may follow a number without becoming part of it. -/
def EndsNumber (rest : List Char) : Prop :=
  ∀ c ∈ rest.head?, c.isDigit = false ∧ c ≠ '.' ∧ c ≠ 'e' ∧ c ≠ 'E'

theorem digits_append {ds rest : List Char} (hds : ∀ c ∈ ds, c.isDigit = true)
    (hrest : ∀ c ∈ rest.head?, c.isDigit = false) : digits (ds ++ rest) = (ds, rest) := by
  have htake : rest.takeWhile Char.isDigit = [] := by
    cases rest with
    | nil => rfl
    | cons c rest => simp [hrest c (by simp)]
  have hdrop : rest.dropWhile Char.isDigit = rest := by
    cases rest with
    | nil => rfl
    | cons c rest => simp [hrest c (by simp)]
  rw [digits, List.span_eq_takeWhile_dropWhile, List.takeWhile_append_of_pos hds,
    List.dropWhile_append_of_pos hds, htake, hdrop, List.append_nil]

/-- A decimal numeral of more than one digit does not begin with a zero. -/
theorem head?_toDigits_ten {n : Nat} (hn : 10 ≤ n) : (Nat.toDigits 10 n).head? ≠ some '0' := by
  induction n using Nat.strongRecOn with
  | ind n ih =>
    rw [Nat.toDigits_of_base_le (by omega) hn]
    by_cases hsmall : n / 10 < 10
    · have hall : ∀ m < 10, 0 < m → Nat.digitChar m ≠ '0' := by decide
      rw [Nat.toDigits_of_lt_base hsmall]
      simpa using hall (n / 10) hsmall (by omega)
    · have hrec := ih (n / 10) (by omega) (by omega)
      obtain ⟨d, ds, hd⟩ := List.exists_cons_of_ne_nil (Nat.toDigits_ne_nil (n := n / 10) (b := 10))
      rw [hd] at hrec ⊢
      simpa using hrec

theorem not_leadingZero_toDigits (n : Nat) :
    ((Nat.toDigits 10 n).isEmpty ||
      ((Nat.toDigits 10 n).head? = some '0' && 1 < (Nat.toDigits 10 n).length)) = false := by
  have hne : Nat.toDigits 10 n ≠ [] := Nat.toDigits_ne_nil
  by_cases hn : n < 10
  · simp [Nat.toDigits_of_lt_base hn]
  · simp [hne, head?_toDigits_ten (by omega : 10 ≤ n)]

/-- The parts of the text of an integer. -/
def NumberText.ofInt (n : Int) : NumberText := ⟨n < 0, Nat.toDigits 10 n.natAbs, none, none⟩

theorem fraction?_of_endsNumber {rest : List Char} (h : EndsNumber rest) :
    fraction? rest = some (none, rest) := by
  cases rest with
  | nil => rfl
  | cons c rest =>
    obtain ⟨-, hdot, -, -⟩ := h c (by simp)
    unfold fraction?
    split
    · next heq => exact absurd (List.cons.inj heq).1 hdot
    · rfl

theorem exponent?_of_endsNumber {rest : List Char} (h : EndsNumber rest) :
    exponent? rest = some (none, rest) := by
  cases rest with
  | nil => rfl
  | cons c rest =>
    obtain ⟨-, -, he, hE⟩ := h c (by simp)
    simp [exponent?, he, hE]

/-- A number that does not begin with a minus sign. -/
theorem toDigits_append_ne_minus (n : Nat) (rest t : List Char) :
    Nat.toDigits 10 n ++ rest ≠ '-' :: t := by
  intro ht
  obtain ⟨d, ds, hd⟩ := List.exists_cons_of_ne_nil (Nat.toDigits_ne_nil (n := n) (b := 10))
  have hdigit : d.isDigit = true := isDigit_of_mem_toDigits_ten (n := n) (by rw [hd]; simp)
  rw [hd, List.cons_append] at ht
  rw [(List.cons.inj ht).1] at hdigit
  exact absurd hdigit (by decide)

theorem number?_toString {rest : List Char} (n : Int) (h : EndsNumber rest) :
    number? ((toString n).toList ++ rest) = some (.ofInt n, rest) := by
  have hdigits : digits (Nat.toDigits 10 n.natAbs ++ rest) = (Nat.toDigits 10 n.natAbs, rest) :=
    digits_append (fun c hc => isDigit_of_mem_toDigits_ten hc) (fun c hc => (h c hc).1)
  have hzero := not_leadingZero_toDigits n.natAbs
  have hfraction := fraction?_of_endsNumber h
  have hexponent := exponent?_of_endsNumber h
  rw [toList_toString_int]
  unfold number?
  by_cases hneg : n < 0
  · simp [hneg, hdigits, hzero, hfraction, hexponent, NumberText.ofInt]
  · -- `simp` passes by the branch for a sign because of `hsign`
    have hsign := toDigits_append_ne_minus n.natAbs rest
    simp [hneg, hdigits, hzero, hfraction, hexponent, NumberText.ofInt]

theorem le_ofDigitChars (ds : List Char) (sig : Nat) : sig ≤ Nat.ofDigitChars 10 ds sig := by
  have hsplit : Nat.ofDigitChars 10 ds sig = 10 ^ ds.length * sig + Nat.ofDigitChars 10 ds 0 :=
    Nat.ofDigitChars_eq_ofDigitChars_zero
  have hpos : 1 * sig ≤ 10 ^ ds.length * sig :=
    Nat.mul_le_mul_right sig (Nat.one_le_pow _ _ (by omega))
  omega

/-- Digits are taken in as long as their value fits in 64 bits. -/
theorem leadingDigits_of_lt {ds : List Char} (h : Nat.ofDigitChars 10 ds 0 < bound64) :
    leadingDigits ds = (Nat.ofDigitChars 10 ds 0, 0) := by
  have hrun : ∀ sig, Nat.ofDigitChars 10 ds sig < bound64 →
      ds.foldl (fun p c =>
        let grown := p.1 * 10 + (c.toNat - 48)
        if 0 < p.2 || bound64 ≤ grown then (p.1, p.2 + 1) else (grown, p.2)) (sig, 0) =
      (Nat.ofDigitChars 10 ds sig, 0) := by
    clear h
    induction ds with
    | nil => exact fun sig _ => rfl
    | cons c ds ih =>
      intro sig h
      have hvalue : Nat.ofDigitChars 10 (c :: ds) sig =
          Nat.ofDigitChars 10 ds (sig * 10 + (c.toNat - 48)) := by
        rw [Nat.ofDigitChars_cons, Nat.mul_comm]
        rfl
      rw [hvalue] at h ⊢
      have hsmall : ¬ bound64 ≤ sig * 10 + (c.toNat - 48) :=
        Nat.not_le.mpr (Nat.lt_of_le_of_lt (le_ofDigitChars _ _) h)
      rw [List.foldl_cons, ← ih _ h]
      simp [hsmall]
  exact hrun 0 h

/-- A number of 64 bits without a sign is read as it was written. -/
theorem NumberText.value?_ofInt {n : Nat} (hn : n < bound64) :
    (NumberText.ofInt n).value? = some (.int n) := by
  have hdigits : leadingDigits (Nat.toDigits 10 n) = (n, 0) := by
    have hvalue : Nat.ofDigitChars 10 (Nat.toDigits 10 n) 0 = n := Nat.ofDigitChars_ten_toDigits
    rw [leadingDigits_of_lt (by omega), hvalue]
  simp [NumberText.value?, NumberText.ofInt, hdigits]

/-! ## Values -/

mutual

/-- Whether no number in a value is a float. -/
def Datum.FloatFree : Datum → Prop
  | .number (.float _) => False
  | .array items => FloatFreeItems items
  | .object members => FloatFreeMembers members
  | _ => True

def Datum.FloatFreeItems : List Datum → Prop
  | [] => True
  | x :: rest => FloatFree x ∧ FloatFreeItems rest

def Datum.FloatFreeMembers : List (String × Datum) → Prop
  | [] => True
  | (_, x) :: rest => FloatFree x ∧ FloatFreeMembers rest

end

/-- The parts of the text of a number. -/
def NumberText.ofNumber : Number → NumberText
  | .int n => .ofInt n
  | .float x => ((number? x.scientific).map Prod.fst).getD default

mutual

/-- A value as its own text writes it. -/
def Datum.written : Datum → Value
  | .null => .null
  | .bool b => .bool b
  | .number n => .number (.ofNumber n)
  | .str s => .str (some s)
  | .array items => .array (writtenItems items)
  | .object members => .object (writtenMembers members)

def Datum.writtenItems : List Datum → List Value
  | [] => []
  | x :: rest => written x :: writtenItems rest

def Datum.writtenMembers : List (String × Datum) → List (Option String × Value)
  | [] => []
  | (n, x) :: rest => (some n, written x) :: writtenMembers rest

end

theorem skipBlanks_cons {c : Char} (hc : isJsonBlank c = false) (text : List Char) :
    skipBlanks (c :: text) = c :: text := by
  simp [skipBlanks, hc]

theorem toList_jsonString (text : String) :
    (jsonString text).toList = '"' :: text.toList.flatMap jsonEscape ++ ['"'] := by
  simp [jsonString]

/-- Every written value begins with a character that is no blank and closes nothing. -/
theorem toList_render_cons {d : Datum} (hd : d.FloatFree) :
    ∃ c cs, d.render.toList = c :: cs ∧ isJsonBlank c = false ∧ c ≠ ']' ∧ c ≠ '\x7d' := by
  cases d with
  | null => exact ⟨'n', _, rfl, by decide⟩
  | bool b =>
    cases b with
    | false => exact ⟨'f', _, rfl, by decide⟩
    | true => exact ⟨'t', _, rfl, by decide⟩
  | number n =>
    cases n with
    | float x => exact absurd hd (by simp [Datum.FloatFree])
    | int n =>
      obtain ⟨c, cs, hcs, hc⟩ := toList_toString_int_cons n
      refine ⟨c, cs, hcs, ?_⟩
      rcases hc with hdigit | rfl
      · refine ⟨?_, ?_, ?_⟩
        · by_contra hblank
          simp only [isJsonBlank, Bool.not_eq_false, Bool.or_eq_true, beq_iff_eq] at hblank
          rcases hblank with ((rfl | rfl) | rfl) | rfl <;> exact absurd hdigit (by decide)
        · rintro rfl
          exact absurd hdigit (by decide)
        · rintro rfl
          exact absurd hdigit (by decide)
      · decide
  | str s => exact ⟨'"', _, toList_jsonString s, by decide⟩
  | array items =>
    exact ⟨'[', (Datum.renderItems items).toList ++ [']'], by simp [Datum.render], by decide⟩
  | object members =>
    exact ⟨'\x7b', (Datum.renderMembers members).toList ++ ['\x7d'], by simp [Datum.render],
      by decide⟩

theorem value?_jsonString {fuel : Nat} {text : String} (hfuel : text.toList.length < fuel)
    (rest : List Char) :
    value? (fuel + 1) ((jsonString text).toList ++ rest) = some (.str (some text), rest) := by
  have hstring := string?_written hfuel rest
  simp only [toList_jsonString, List.cons_append, List.append_assoc, value?,
    skipBlanks_cons (show isJsonBlank '"' = false by decide), List.nil_append, hstring,
    Option.map_some]

theorem value?_toString {rest : List Char} (fuel : Nat) (n : Int) (hrest : EndsNumber rest) :
    value? (fuel + 1) ((toString n).toList ++ rest) = some (.number (.ofInt n), rest) := by
  have hnumber := number?_toString n hrest
  obtain ⟨c, cs, hcs, hc⟩ := toList_toString_int_cons n
  have hne : ∀ d : Char, d.isDigit = false → d ≠ '-' → c ≠ d := by
    rintro d hdigit hminus rfl
    rcases hc with hc | hc
    · rw [hdigit] at hc
      exact absurd hc (by decide)
    · exact hminus hc
  have hblank : isJsonBlank c = false := by
    simp [isJsonBlank, hne ' ' (by decide) (by decide), hne '\n' (by decide) (by decide),
      hne '\t' (by decide) (by decide), hne '\r' (by decide) (by decide)]
  rw [hcs, List.cons_append] at hnumber ⊢
  rw [value?, skipBlanks_cons hblank]
  split
  · next heq => simp at heq
  · next heq => exact absurd (List.cons.inj heq).1 (hne '"' (by decide) (by decide))
  · next heq => exact absurd (List.cons.inj heq).1 (hne '[' (by decide) (by decide))
  · next heq => exact absurd (List.cons.inj heq).1 (hne '\x7b' (by decide) (by decide))
  · next heq => exact absurd (List.cons.inj heq).1 (hne 'n' (by decide) (by decide))
  · next heq => exact absurd (List.cons.inj heq).1 (hne 't' (by decide) (by decide))
  · next heq => exact absurd (List.cons.inj heq).1 (hne 'f' (by decide) (by decide))
  · rw [hnumber]
    rfl

theorem endsNumber_cons {c : Char} (hc : c = ',' ∨ c = ']' ∨ c = '\x7d') (rest : List Char) :
    EndsNumber (c :: rest) := by
  intro d hd
  obtain rfl : c = d := by simpa using hd
  rcases hc with rfl | rfl | rfl <;> decide

theorem endsNumber_nil : EndsNumber [] := by simp [EndsNumber]

theorem length_lt_jsonString (text : String) :
    text.toList.length < (jsonString text).toList.length - 1 := by
  have hpos : ∀ c : Char, 1 ≤ (jsonEscape c).length := by
    intro c
    unfold jsonEscape unicodeEscape
    repeat' split
    all_goals simp
  have hflat : ∀ cs : List Char, cs.length ≤ (cs.flatMap jsonEscape).length := by
    intro cs
    induction cs with
    | nil => simp
    | cons c cs ih =>
      have hc := hpos c
      simp only [List.length_cons, List.flatMap_cons, List.length_append]
      omega
  have htext := hflat text.toList
  simp only [toList_jsonString, List.length_append, List.length_cons, List.length_nil]
  omega

theorem afterWord?_append (word : String) (rest : List Char) :
    afterWord? word (word.toList ++ rest) = some rest := by
  simp [afterWord?, ← String.length_toList]

theorem value?_null (fuel : Nat) (rest : List Char) :
    value? (fuel + 1) (Datum.null.render.toList ++ rest) = some (.null, rest) := by
  have htext : Datum.null.render.toList ++ rest = 'n' :: ("ull".toList ++ rest) := by
    simp [Datum.render]
  rw [htext, value?, skipBlanks_cons (by decide)]
  simp only [afterWord?_append, Option.map_some]

theorem value?_bool (fuel : Nat) (b : Bool) (rest : List Char) :
    value? (fuel + 1) ((Datum.bool b).render.toList ++ rest) = some (.bool b, rest) := by
  cases b with
  | false =>
    have htext : (Datum.bool false).render.toList ++ rest = 'f' :: ("alse".toList ++ rest) := by
      simp [Datum.render]
    rw [htext, value?, skipBlanks_cons (by decide)]
    simp only [afterWord?_append, Option.map_some]
  | true =>
    have htext : (Datum.bool true).render.toList ++ rest = 't' :: ("rue".toList ++ rest) := by
      simp [Datum.render]
    rw [htext, value?, skipBlanks_cons (by decide)]
    simp only [afterWord?_append, Option.map_some]

theorem value?_emptyArray (fuel : Nat) (rest : List Char) :
    value? (fuel + 1) ((Datum.array []).render.toList ++ rest) = some (.array [], rest) := by
  simp [Datum.render, Datum.renderItems, value?, skipBlanks, isJsonBlank]

theorem value?_emptyObject (fuel : Nat) (rest : List Char) :
    value? (fuel + 1) ((Datum.object []).render.toList ++ rest) = some (.object [], rest) := by
  simp [Datum.render, Datum.renderMembers, value?, skipBlanks, isJsonBlank]

theorem toList_renderItems_cons {x : Datum} (hx : x.FloatFree) (items : List Datum) :
    ∃ c cs, (Datum.renderItems (x :: items)).toList = c :: cs ∧ isJsonBlank c = false ∧
      c ≠ ']' ∧ c ≠ '\x7d' := by
  obtain ⟨c, cs, hcs, hc⟩ := toList_render_cons hx
  cases items with
  | nil => exact ⟨c, cs, hcs, hc⟩
  | cons y items =>
    refine ⟨c, cs ++ (",".toList ++ (Datum.renderItems (y :: items)).toList), ?_, hc⟩
    simp [Datum.renderItems, hcs]

theorem toList_renderMembers_cons (name : String) (x : Datum) (members : List (String × Datum)) :
    ∃ cs, (Datum.renderMembers ((name, x) :: members)).toList = '"' :: cs := by
  cases members with
  | nil => exact ⟨_, by simp [Datum.renderMembers, toList_jsonString]; rfl⟩
  | cons m members => exact ⟨_, by simp [Datum.renderMembers, toList_jsonString]; rfl⟩

/-! ## Items and members

First the texts of arrays and objects, then one step of each reader, and last the steps that are
left for the parts.
-/

theorem toList_array (items : List Datum) (rest : List Char) :
    (Datum.array items).render.toList ++ rest =
      '[' :: ((Datum.renderItems items).toList ++ ']' :: rest) := by
  simp [Datum.render]

theorem toList_object (members : List (String × Datum)) (rest : List Char) :
    (Datum.object members).render.toList ++ rest =
      '\x7b' :: ((Datum.renderMembers members).toList ++ '\x7d' :: rest) := by
  simp [Datum.render]

theorem toList_items (x y : Datum) (items : List Datum) (rest : List Char) :
    (Datum.renderItems (x :: y :: items)).toList ++ rest =
      x.render.toList ++ ',' :: ((Datum.renderItems (y :: items)).toList ++ rest) := by
  simp [Datum.renderItems]

theorem toList_member (name : String) (x : Datum) (rest : List Char) :
    (Datum.renderMembers [(name, x)]).toList ++ rest =
      '"' :: (name.toList.flatMap jsonEscape ++ '"' :: ':' :: (x.render.toList ++ rest)) := by
  simp [Datum.renderMembers, toList_jsonString]

theorem toList_members (name : String) (x : Datum) (m : String × Datum)
    (members : List (String × Datum)) (rest : List Char) :
    (Datum.renderMembers ((name, x) :: m :: members)).toList ++ rest =
      (Datum.renderMembers [(name, x)]).toList ++
        ',' :: ((Datum.renderMembers (m :: members)).toList ++ rest) := by
  simp [Datum.renderMembers]

theorem value?_array {fuel : Nat} {c : Char} {cs rest : List Char} {vs : List Value}
    (hblank : isJsonBlank c = false) (hclose : c ≠ ']')
    (hitems : items? fuel (c :: cs) = some (vs, rest)) :
    value? (fuel + 1) ('[' :: c :: cs) = some (.array vs, rest) := by
  simp only [value?, skipBlanks_cons (show isJsonBlank '[' = false by decide),
    skipBlanks_cons hblank]
  split
  · next heq => exact absurd (List.cons.inj heq).1 hclose
  · rw [hitems]
    rfl

theorem value?_object {fuel : Nat} {cs rest : List Char} {vs : List (Option String × Value)}
    (hmembers : members? fuel ('"' :: cs) = some (vs, rest)) :
    value? (fuel + 1) ('\x7b' :: '"' :: cs) = some (.object vs, rest) := by
  simp only [value?, skipBlanks_cons (show isJsonBlank '\x7b' = false by decide),
    skipBlanks_cons (show isJsonBlank '"' = false by decide)]
  split
  · next heq => exact absurd (List.cons.inj heq).1 (by decide)
  · rw [hmembers]
    rfl

theorem items?_last {fuel : Nat} {text rest : List Char} {v : Value}
    (hvalue : value? fuel text = some (v, ']' :: rest)) :
    items? (fuel + 1) text = some ([v], rest) := by
  simp only [items?, hvalue, Option.bind_eq_bind, Option.bind_some,
    skipBlanks_cons (show isJsonBlank ']' = false by decide)]
  rfl

theorem items?_more {fuel : Nat} {text more rest : List Char} {v : Value} {vs : List Value}
    (hvalue : value? fuel text = some (v, ',' :: more))
    (hmore : items? fuel more = some (vs, rest)) :
    items? (fuel + 1) text = some (v :: vs, rest) := by
  simp only [items?, hvalue, Option.bind_eq_bind, Option.bind_some,
    skipBlanks_cons (show isJsonBlank ',' = false by decide), hmore]
  rfl

theorem members?_last {fuel : Nat} {cs text rest : List Char} {name : Option String} {v : Value}
    (hname : string? fuel cs = some (name, ':' :: text))
    (hvalue : value? fuel text = some (v, '\x7d' :: rest)) :
    members? (fuel + 1) ('"' :: cs) = some ([(name, v)], rest) := by
  simp only [members?, skipBlanks_cons (show isJsonBlank '"' = false by decide), hname, hvalue,
    Option.bind_eq_bind, Option.bind_some,
    skipBlanks_cons (show isJsonBlank ':' = false by decide),
    skipBlanks_cons (show isJsonBlank '\x7d' = false by decide)]
  rfl

theorem members?_more {fuel : Nat} {cs text more rest : List Char} {name : Option String}
    {v : Value} {vs : List (Option String × Value)}
    (hname : string? fuel cs = some (name, ':' :: text))
    (hvalue : value? fuel text = some (v, ',' :: more))
    (hmore : members? fuel more = some (vs, rest)) :
    members? (fuel + 1) ('"' :: cs) = some ((name, v) :: vs, rest) := by
  simp only [members?, skipBlanks_cons (show isJsonBlank '"' = false by decide), hname, hvalue,
    Option.bind_eq_bind, Option.bind_some,
    skipBlanks_cons (show isJsonBlank ':' = false by decide),
    skipBlanks_cons (show isJsonBlank ',' = false by decide), hmore]
  rfl

theorem length_array (items : List Datum) :
    (Datum.array items).render.toList.length = (Datum.renderItems items).toList.length + 2 := by
  simp [Datum.render]

theorem length_object (members : List (String × Datum)) :
    (Datum.object members).render.toList.length =
      (Datum.renderMembers members).toList.length + 2 := by
  simp [Datum.render]

theorem length_items (x y : Datum) (items : List Datum) :
    (Datum.renderItems (x :: y :: items)).toList.length =
      x.render.toList.length + (Datum.renderItems (y :: items)).toList.length + 1 := by
  simp [Datum.renderItems]
  omega

theorem length_member (name : String) (x : Datum) :
    name.toList.length + x.render.toList.length <
      (Datum.renderMembers [(name, x)]).toList.length := by
  have hname := length_lt_jsonString name
  have hlen : (Datum.renderMembers [(name, x)]).toList.length =
      (jsonString name).toList.length + x.render.toList.length + 1 := by
    simp [Datum.renderMembers]
    omega
  rw [hlen]
  generalize (jsonString name).toList.length = n at *
  omega

theorem length_members (name : String) (x : Datum) (m : String × Datum)
    (members : List (String × Datum)) :
    (Datum.renderMembers ((name, x) :: m :: members)).toList.length =
      (Datum.renderMembers [(name, x)]).toList.length +
        (Datum.renderMembers (m :: members)).toList.length + 1 := by
  simp [Datum.renderMembers]
  omega

theorem fuel_of_parts {left right fuel : Nat} (h : left + right + 1 ≤ fuel) :
    left ≤ fuel ∧ right + 2 ≤ fuel + 1 := by
  omega

theorem fuel_of_member {name text both fuel : Nat} (h : name + text < both)
    (hfuel : both ≤ fuel) : name < fuel + 1 ∧ text ≤ fuel := by
  omega

/-! ## The round trip -/

/-- Induction over values: an array or object may use what holds of its parts. -/
theorem Datum.induct {P : Datum → Prop} (null : P .null) (bool : ∀ b, P (.bool b))
    (number : ∀ n, P (.number n)) (str : ∀ s, P (.str s))
    (array : ∀ items, (∀ x ∈ items, P x) → P (.array items))
    (object : ∀ members, (∀ m ∈ members, P m.2) → P (.object members)) : ∀ d, P d
  | .null => null
  | .bool b => bool b
  | .number n => number n
  | .str s => str s
  | .array items => array items fun x _ => Datum.induct null bool number str array object x
  | .object members => object members fun m _ =>
      Datum.induct null bool number str array object m.2
termination_by d => sizeOf d
decreasing_by
  · next hx =>
    have hlt := List.sizeOf_lt_of_mem hx
    simp only [Datum.array.sizeOf_spec]
    omega
  · next hm =>
    have hlt := List.sizeOf_lt_of_mem hm
    have hsnd : sizeOf m.2 < sizeOf m := by
      obtain ⟨name, x⟩ := m
      simp only [Prod.mk.sizeOf_spec]
      omega
    simp only [Datum.object.sizeOf_spec]
    omega

/-- Reading what was written for a value gives the value, and leaves what follows it. -/
def ReadsBack (d : Datum) : Prop :=
  ∀ {fuel : Nat} {rest : List Char}, d.render.toList.length ≤ fuel → EndsNumber rest →
    value? (fuel + 1) (d.render.toList ++ rest) = some (d.written, rest)

theorem items?_render {x : Datum} {items : List Datum} (hreads : ∀ y ∈ x :: items, ReadsBack y)
    {fuel : Nat} (hfuel : (Datum.renderItems (x :: items)).toList.length + 2 ≤ fuel)
    (rest : List Char) :
    items? fuel ((Datum.renderItems (x :: items)).toList ++ ']' :: rest) =
      some (Datum.writtenItems (x :: items), rest) := by
  induction items generalizing x fuel with
  | nil =>
    have hx : ReadsBack x := hreads x (by simp)
    obtain ⟨fuel, rfl⟩ := Nat.exists_eq_add_of_le' (Nat.le_of_add_left_le hfuel)
    exact items?_last (hx (Nat.le_of_add_le_add_right hfuel) (endsNumber_cons (by simp) rest))
  | cons y items ih =>
    have hx : ReadsBack x := hreads x (by simp)
    obtain ⟨fuel, rfl⟩ := Nat.exists_eq_add_of_le' (Nat.le_of_add_left_le hfuel)
    have hfuel := Nat.le_of_add_le_add_right hfuel
    rw [length_items] at hfuel
    obtain ⟨hfuelx, hfuels⟩ := fuel_of_parts hfuel
    have hitems := ih (x := y) (fun z hz => hreads z (by simp [hz])) hfuels
    rw [toList_items]
    exact items?_more (hx hfuelx (endsNumber_cons (by simp) _)) hitems

theorem members?_render {m : String × Datum} {members : List (String × Datum)}
    (hreads : ∀ n ∈ m :: members, ReadsBack n.2) {fuel : Nat}
    (hfuel : (Datum.renderMembers (m :: members)).toList.length + 2 ≤ fuel)
    (rest : List Char) :
    members? fuel ((Datum.renderMembers (m :: members)).toList ++ '\x7d' :: rest) =
      some (Datum.writtenMembers (m :: members), rest) := by
  induction members generalizing m fuel with
  | nil =>
    obtain ⟨name, x⟩ := m
    have hx : ReadsBack x := hreads (name, x) (by simp)
    obtain ⟨fuel, rfl⟩ := Nat.exists_eq_add_of_le' (Nat.le_of_add_left_le hfuel)
    have hfuel := Nat.le_of_add_le_add_right hfuel
    obtain ⟨hfueln, hfuelx⟩ := fuel_of_member (length_member name x) hfuel
    rw [toList_member]
    exact members?_last (string?_written hfueln _) (hx hfuelx (endsNumber_cons (by simp) rest))
  | cons n members ih =>
    obtain ⟨name, x⟩ := m
    have hx : ReadsBack x := hreads (name, x) (by simp)
    obtain ⟨fuel, rfl⟩ := Nat.exists_eq_add_of_le' (Nat.le_of_add_left_le hfuel)
    have hfuel := Nat.le_of_add_le_add_right hfuel
    rw [length_members] at hfuel
    obtain ⟨hfuelnx, hfuels⟩ := fuel_of_parts hfuel
    obtain ⟨hfueln, hfuelx⟩ := fuel_of_member (length_member name x) hfuelnx
    have hmembers := ih (m := n) (fun k hk => hreads k (by simp [hk])) hfuels
    rw [toList_members, toList_member]
    exact members?_more (string?_written hfueln _) (hx hfuelx (endsNumber_cons (by simp) _))
      hmembers

theorem floatFree_of_mem_items {items : List Datum} (h : Datum.FloatFreeItems items) :
    ∀ x ∈ items, x.FloatFree := by
  induction items with
  | nil => simp
  | cons x items ih =>
    intro y hy
    rcases List.mem_cons.mp hy with rfl | hy
    · exact h.1
    · exact ih h.2 y hy

theorem floatFree_of_mem_members {members : List (String × Datum)}
    (h : Datum.FloatFreeMembers members) : ∀ m ∈ members, m.2.FloatFree := by
  induction members with
  | nil => simp
  | cons n members ih =>
    intro m hm
    rcases List.mem_cons.mp hm with rfl | hm
    · exact h.1
    · exact ih h.2 m hm

theorem readsBack_of_floatFree (d : Datum) (hd : d.FloatFree) : ReadsBack d := by
  induction d using Datum.induct with
  | null =>
    intro fuel rest _ _
    exact value?_null fuel rest
  | bool b =>
    intro fuel rest _ _
    exact value?_bool fuel b rest
  | number n =>
    intro fuel rest _ hrest
    cases n with
    | int n => exact value?_toString fuel n hrest
    | float x => exact hd.elim
  | str s =>
    intro fuel rest hfuel _
    have hlen := Nat.lt_of_lt_of_le (length_lt_jsonString s) (Nat.sub_le _ 1)
    exact value?_jsonString (Nat.lt_of_lt_of_le hlen hfuel) rest
  | array items ih =>
    intro fuel rest hfuel _
    cases items with
    | nil => exact value?_emptyArray fuel rest
    | cons x items =>
      have hfree := floatFree_of_mem_items hd
      obtain ⟨c, cs, hcs, hblank, hclose, -⟩ := toList_renderItems_cons hd.1 items
      rw [length_array] at hfuel
      have hitems := items?_render (fun y hy => ih y hy (hfree y hy)) hfuel rest
      rw [toList_array]
      rw [hcs, List.cons_append] at hitems ⊢
      exact value?_array hblank hclose hitems
  | object members ih =>
    intro fuel rest hfuel _
    cases members with
    | nil => exact value?_emptyObject fuel rest
    | cons m members =>
      have hfree := floatFree_of_mem_members hd
      obtain ⟨cs, hcs⟩ := toList_renderMembers_cons m.1 m.2 members
      rw [length_object] at hfuel
      have hmembers := members?_render (fun n hn => ih n hn (hfree n hn)) hfuel rest
      rw [toList_object]
      rw [hcs, List.cons_append] at hmembers ⊢
      exact value?_object hmembers

/-- The text of a value without floats is read back as that value. -/
theorem parse_render {d : Datum} (hd : d.FloatFree) : parse d.render = some d.written := by
  have hvalue := readsBack_of_floatFree d hd (Nat.le_refl _) endsNumber_nil
  rw [List.append_nil] at hvalue
  simp [parse, hvalue, skipBlanks]

end LiveLisp.Json
