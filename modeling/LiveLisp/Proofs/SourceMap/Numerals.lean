import LiveLisp.Proofs.SourceMap.Vlq
import Mathlib.Data.Nat.Digits.Defs
/-!
# The numbers that a segment spells

A numeral is any run of marked digits with an unmarked one behind it, canonical or not.  Decoding
refuses a numeral of more than thirteen digits and nothing else that is spelled out.  Thirteen
digits hold 65 bits, while the magnitude that a word can return has 62: what is beyond them comes
back as part of another number.
-/

namespace LiveLisp.SourceMap

open Text

/-! ## Numerals -/

/-- The digits of one number, five bits each, lowest first: those that say that more follow, and
the last. -/
structure Numeral where
  front : List (Fin 32)
  last : Fin 32

namespace Numeral

/-- All digits. -/
def digits (n : Numeral) : List Nat := (n.front ++ [n.last]).map Fin.val

/-- The letters that the digits are written with: every one but the last has its sixth bit set. -/
def letters (n : Numeral) : List Char :=
  n.front.map (fun d : Fin 32 => Base64.letter (d + 32)) ++ [Base64.letter n.last]

/-- The sum of the digits times powers of 32. -/
def total (n : Numeral) : Nat := Nat.ofDigits 32 n.digits

/-- What is left of the sum without its lowest bit. -/
def magnitude (n : Numeral) : Nat := n.total / 2

/-- The number: the lowest bit of the sum is its sign. -/
def value (n : Numeral) : Int := if n.total % 2 = 1 then -n.magnitude else n.magnitude

/-- The number with its magnitude cut to 63 bits, of which the highest is taken for a sign. -/
def wrapped (n : Numeral) : Int :=
  let cut := Int.bmod n.magnitude (2 ^ 63)
  if n.total % 2 = 1 then -cut else cut

theorem length_digits (n : Numeral) : n.digits.length = n.front.length + 1 := by
  simp [digits]

theorem total_last (d : Fin 32) : total ⟨[], d⟩ = d := by
  simp [total, digits]

theorem total_cons (d : Fin 32) (front : List (Fin 32)) (last : Fin 32) :
    total ⟨d :: front, last⟩ = d + 32 * total ⟨front, last⟩ := by
  simp [total, digits, Nat.ofDigits_cons]

/-- Cutting the magnitude is what reading the sum as a word amounts to. -/
theorem unzigzag_total (n : Numeral) : unzigzag n.total = n.wrapped := by
  have hhalf : (signed64 n.total).fdiv 2 = Int.bmod n.magnitude (2 ^ 63) := by
    rw [Int.fdiv_eq_ediv_of_nonneg _ (by omega : (0 : Int) ≤ 2)]
    unfold signed64 bound64 magnitude
    rw [Int.bmod_def, Int.bmod_def]
    omega
  unfold unzigzag wrapped
  dsimp only
  rw [hhalf]

/-- A magnitude of 63 bits or more is never returned. -/
theorem wrapped_eq_value_iff (n : Numeral) : n.wrapped = n.value ↔ n.magnitude < 2 ^ 62 := by
  unfold wrapped value
  generalize n.magnitude = magnitude
  dsimp only
  rw [Int.bmod_def]
  split <;> omega

end Numeral

/-- The text consists of the letters of these numerals. -/
def Spells (segment : String) (numerals : List Numeral) : Prop :=
  segment.toList = numerals.flatMap Numeral.letters

/-! ## Numerals are told apart -/

theorem letter_inj {a b : Nat} (ha : a < 64) (hb : b < 64)
    (h : Base64.letter a = Base64.letter b) : a = b := by
  have hbits := letterBits?_letter ha
  rw [h, letterBits?_letter hb] at hbits
  exact (Option.some.inj hbits).symm

theorem Numeral.letters_cons (d : Fin 32) (front : List (Fin 32)) (last : Fin 32) :
    letters ⟨d :: front, last⟩ = Base64.letter (d + 32) :: letters ⟨front, last⟩ := rfl

/-- Where a numeral ends can be seen from its letters. -/
theorem Numeral.letters_append_inj {n m : Numeral} {xs ys : List Char}
    (h : n.letters ++ xs = m.letters ++ ys) : n = m ∧ xs = ys := by
  obtain ⟨front, last⟩ := n
  obtain ⟨front', last'⟩ := m
  have hmarked : ∀ a b : Fin 32, Base64.letter (a + 32) ≠ Base64.letter b := by
    intro a b heq
    have := letter_inj (by omega) (by omega) heq
    omega
  induction front generalizing front' with
  | nil =>
    cases front' with
    | nil =>
      obtain ⟨hlast, hrest⟩ := List.cons.inj h
      have hval : last = last' := Fin.ext (letter_inj (by omega) (by omega) hlast)
      exact ⟨by rw [hval], hrest⟩
    | cons d front' => exact absurd (List.cons.inj h).1.symm (hmarked d last)
  | cons d front ih =>
    cases front' with
    | nil => exact absurd (List.cons.inj h).1 (hmarked d last')
    | cons d' front' =>
      rw [letters_cons, letters_cons, List.cons_append, List.cons_append] at h
      obtain ⟨hdigit, hrest⟩ := List.cons.inj h
      have hval : d = d' := Fin.ext (Nat.add_right_cancel (letter_inj (by omega) (by omega) hdigit))
      obtain ⟨hnumeral, hxs⟩ := ih front' hrest
      obtain ⟨rfl, rfl⟩ := Numeral.mk.inj hnumeral
      exact ⟨by rw [hval], hxs⟩

theorem Numeral.letters_ne_nil (n : Numeral) : n.letters ≠ [] := by
  simp [letters]

/-- A text spells one list of numerals at most. -/
theorem Spells.unique {segment : String} {ns ms : List Numeral} (hn : Spells segment ns)
    (hm : Spells segment ms) : ns = ms := by
  have h : ns.flatMap Numeral.letters = ms.flatMap Numeral.letters := hn.symm.trans hm
  clear hn hm
  induction ns generalizing ms with
  | nil =>
    cases ms with
    | nil => rfl
    | cons m ms => simp [m.letters_ne_nil] at h
  | cons n ns ih =>
    cases ms with
    | nil => simp [n.letters_ne_nil] at h
    | cons m ms =>
      rw [List.flatMap_cons, List.flatMap_cons] at h
      obtain ⟨rfl, hrest⟩ := Numeral.letters_append_inj h
      rw [ih hrest]

/-! ## Decoding what is spelled -/

/-- Decoding a numeral when `shift` bits are known: the shift of its last digit decides. -/
theorem decodeFrom_numeral (n : Numeral) (value shift : Nat) (pending : Bool)
    (rest : List UInt8) :
    decodeFrom value shift pending (n.letters.map asciiByte ++ rest) =
      if 60 < shift + 5 * n.front.length then .error .overflow
      else (decodeFrom 0 0 false rest).map (unzigzag (value + n.total * 2 ^ shift) :: ·) := by
  obtain ⟨front, last⟩ := n
  induction front generalizing value shift pending with
  | nil =>
    have hlast : (last : Nat) < 32 := last.isLt
    simp only [Numeral.letters, List.map_nil, List.nil_append, List.map_cons, List.cons_append,
      decodeFrom, letterBits?_letter (by omega : (last : Nat) < 64), Nat.mod_eq_of_lt hlast,
      Nat.not_le.mpr hlast, if_false, Numeral.total_last, List.length_nil, Nat.mul_zero,
      Nat.add_zero]
    congr 1
    cases decodeFrom 0 0 false rest <;> rfl
  | cons d front ih =>
    have hbits : (d : Nat) + 32 < 64 := by omega
    have hlow : ((d : Nat) + 32) % 32 = d := by omega
    have hvalue : value + d * 2 ^ shift + Numeral.total ⟨front, last⟩ * 2 ^ (shift + 5) =
        value + Numeral.total ⟨d :: front, last⟩ * 2 ^ shift := by
      rw [Numeral.total_cons, Nat.pow_add]
      ring
    simp only [Numeral.letters_cons, List.map_cons, List.cons_append, decodeFrom,
      letterBits?_letter hbits, hlow, Nat.le_add_left, if_true, List.length_cons]
    by_cases hshift : 60 < shift
    · rw [if_pos hshift, if_pos (by omega)]
    · have hrest := ih (value + d * 2 ^ shift) (shift + 5) true
      rw [hvalue, show shift + 5 + 5 * front.length = shift + 5 * (front.length + 1) by omega]
        at hrest
      rw [if_neg hshift]
      exact hrest

/-- The bytes of numerals are decoded one numeral after the other. -/
theorem decodeFrom_numerals (ns : List Numeral) :
    decodeFrom 0 0 false ((ns.flatMap Numeral.letters).map asciiByte) =
      if ∀ n ∈ ns, n.digits.length ≤ 13 then .ok (ns.map Numeral.wrapped)
      else .error .overflow := by
  induction ns with
  | nil => rfl
  | cons n ns ih =>
    have hlength := n.length_digits
    rw [List.flatMap_cons, List.map_append, decodeFrom_numeral, ih, Nat.zero_add, Nat.zero_add,
      Nat.pow_zero, Nat.mul_one, n.unzigzag_total]
    simp only [List.forall_mem_cons]
    by_cases hn : n.digits.length ≤ 13
    · rw [if_neg (by omega)]
      by_cases hns : ∀ m ∈ ns, m.digits.length ≤ 13
      · rw [if_pos hns, if_pos ⟨hn, hns⟩]
        rfl
      · rw [if_neg hns, if_neg (fun h => hns h.2)]
        rfl
    · rw [if_pos (by omega), if_neg (fun h => hn h.1)]

theorem Numeral.letters_ascii (n : Numeral) : ∀ c ∈ n.letters, c.toNat < 128 := by
  intro c hc
  rw [letters, List.mem_append, List.mem_map, List.mem_singleton] at hc
  rcases hc with ⟨d, -, rfl⟩ | rfl <;> exact letter_ascii _

theorem encode_numerals (ns : List Numeral) :
    Utf8.encode (String.ofList (ns.flatMap Numeral.letters)) =
      (ns.flatMap Numeral.letters).map asciiByte := by
  apply Utf8.encode_ascii
  intro c hc
  obtain ⟨n, -, hcn⟩ := List.mem_flatMap.mp hc
  exact n.letters_ascii c hcn

/-- A text of numerals is decoded unless one of them has more than thirteen digits. -/
theorem decodeSegment_of_spells {segment : String} {ns : List Numeral} (h : Spells segment ns) :
    decodeSegment segment =
      if ∀ n ∈ ns, n.digits.length ≤ 13 then .ok (ns.map Numeral.wrapped)
      else .error .overflow := by
  rw [decodeSegment, ← String.ofList_toList (s := segment), h, encode_numerals,
    decodeFrom_numerals]

/-! ## Nothing else is decoded -/

/-- Only the bytes of letters stand for digits. -/
theorem eq_letter_of_letterBits? {b : UInt8} {bits : Nat} (h : letterBits? b = some bits) :
    bits < 64 ∧ b = asciiByte (Base64.letter bits) := by
  unfold letterBits? at h
  split at h
  · next hascii =>
    have hcode : ∀ n < 128, (Char.ofNat n).toNat = n := by decide
    obtain ⟨hlt, hletter, -⟩ := List.findIdx?_eq_some_iff_getElem.mp h
    have hlt' : bits < 64 := hlt
    have hchar : Base64.letter bits = Char.ofNat b.toNat := by
      rw [Base64.letter, Nat.mod_eq_of_lt hlt', List.getD_eq_getElem?_getD,
        List.getElem?_eq_getElem hlt]
      simpa using hletter
    refine ⟨hlt', ?_⟩
    rw [asciiByte, hchar, hcode _ (UInt8.lt_iff_toNat_lt.mp hascii), UInt8.ofNat_toNat]
  · cases h

/-- Bytes that are decoded are those of numerals; `pending` says that one of them is under way. -/
theorem spelled_of_decodeFrom {value shift : Nat} {pending : Bool} {bytes : List UInt8}
    {values : List Int} (h : decodeFrom value shift pending bytes = .ok values) :
    ∃ ns : List Numeral, bytes = (ns.flatMap Numeral.letters).map asciiByte ∧
      (pending = true → ns ≠ []) := by
  induction bytes generalizing value shift pending values with
  | nil =>
    cases pending with
    | false => exact ⟨[], rfl, by simp⟩
    | true => cases h
  | cons b bytes ih =>
    simp only [decodeFrom] at h
    split at h
    · cases h
    · next bits hbits =>
      obtain ⟨hlt, rfl⟩ := eq_letter_of_letterBits? hbits
      split at h
      · cases h
      · split at h
        · next hmarked =>
          -- the digit goes in front of the numeral that the bytes behind it begin with
          obtain ⟨ns, rfl, hne⟩ := ih h
          obtain ⟨n, ns, rfl⟩ := List.exists_cons_of_ne_nil (hne rfl)
          refine ⟨⟨⟨bits - 32, by omega⟩ :: n.front, n.last⟩ :: ns, ?_, by simp⟩
          have hdigit : bits - 32 + 32 = bits := by omega
          simp only [List.flatMap_cons, Numeral.letters_cons, hdigit, List.cons_append,
            List.map_cons]
        · next hunmarked =>
          split at h
          · next values' hrest =>
            obtain ⟨ns, rfl, -⟩ := ih hrest
            exact ⟨⟨[], ⟨bits, by omega⟩⟩ :: ns, rfl, by simp⟩
          · cases h

theorem spells_of_decodeSegment {segment : String} {values : List Int}
    (h : decodeSegment segment = .ok values) : ∃ ns, Spells segment ns := by
  obtain ⟨ns, hbytes, -⟩ := spelled_of_decodeFrom h
  rw [← encode_numerals] at hbytes
  have htext := congrArg Utf8.decode? hbytes
  rw [Utf8.decode?_encode, Utf8.decode?_encode] at htext
  exact ⟨ns, by rw [Spells, Option.some.inj htext, String.toList_ofList]⟩

/-- Exactly the texts of numerals of at most thirteen digits are decoded. -/
theorem decodeSegment_eq_ok_iff {segment : String} {values : List Int} :
    decodeSegment segment = .ok values ↔
      ∃ ns, Spells segment ns ∧ (∀ n ∈ ns, n.digits.length ≤ 13) ∧
        values = ns.map Numeral.wrapped := by
  constructor
  · intro h
    obtain ⟨ns, hns⟩ := spells_of_decodeSegment h
    rw [decodeSegment_of_spells hns] at h
    split at h
    · next hshort => exact ⟨ns, hns, hshort, (Except.ok.inj h).symm⟩
    · cases h
  · rintro ⟨ns, hns, hshort, rfl⟩
    rw [decodeSegment_of_spells hns, if_pos hshort]

/-! ## Where decoding is exact -/

/-- What is asked of decoding a text: it returns the numbers that the text spells, and refuses a
text that spells a number of more than 64 bits. -/
structure DecodesExactly (segment : String) : Prop where
  exact : ∀ values, decodeSegment segment = .ok values →
    ∃ ns, Spells segment ns ∧ values = ns.map Numeral.value
  refuses : ∀ ns, Spells segment ns → (∃ n ∈ ns, fitsInt64 n.value = false) →
    ∃ fault, decodeSegment segment = .error fault

theorem Numeral.fitsInt64_value {n : Numeral} (h : n.magnitude < 2 ^ 62) :
    fitsInt64 n.value = true := by
  unfold fitsInt64 value
  split <;> simp <;> omega

theorem decodesExactly_of_long {segment : String} {ns : List Numeral} (hns : Spells segment ns)
    {n : Numeral} (hn : n ∈ ns) (hlong : 13 < n.digits.length) : DecodesExactly segment := by
  have hrefused : decodeSegment segment = .error .overflow := by
    rw [decodeSegment_of_spells hns, if_neg (fun h => absurd (h n hn) (by omega))]
  refine ⟨?_, fun _ _ _ => ⟨_, hrefused⟩⟩
  intro values hvalues
  rw [hrefused] at hvalues
  cases hvalues

theorem decodesExactly_of_small {segment : String} {ns : List Numeral} (hns : Spells segment ns)
    (hsmall : ∀ n ∈ ns, n.magnitude < 2 ^ 62) : DecodesExactly segment := by
  constructor
  · intro values hvalues
    obtain ⟨ms, hms, -, rfl⟩ := decodeSegment_eq_ok_iff.mp hvalues
    obtain rfl := hms.unique hns
    refine ⟨ms, hms, List.map_congr_left ?_⟩
    intro n hn
    exact n.wrapped_eq_value_iff.mpr (hsmall n hn)
  · rintro ms hms ⟨n, hn, hwide⟩
    obtain rfl := hms.unique hns
    rw [n.fitsInt64_value (hsmall n hn)] at hwide
    cases hwide

/-- Decoding returns the numbers of a text, each with its magnitude cut to 63 bits, exactly if the
text consists of numerals of at most thirteen digits.  So it is exact on every text but those whose
numerals all have at most thirteen digits and of which one has a magnitude of 63 bits or more. -/
theorem decodeSegment_exact_iff (segment : String) :
    (∀ values, decodeSegment segment = .ok values ↔
      ∃ ns, Spells segment ns ∧ (∀ n ∈ ns, n.digits.length ≤ 13) ∧
        values = ns.map Numeral.wrapped) ∧
    (DecodesExactly segment ↔
      ∀ ns, Spells segment ns →
        (∃ n ∈ ns, 13 < n.digits.length) ∨ ∀ n ∈ ns, n.magnitude < 2 ^ 62) := by
  refine ⟨fun values => decodeSegment_eq_ok_iff, ?_, ?_⟩
  · intro hexact ns hns
    by_cases hshort : ∀ n ∈ ns, n.digits.length ≤ 13
    · right
      have hok : decodeSegment segment = .ok (ns.map Numeral.wrapped) :=
        decodeSegment_eq_ok_iff.mpr ⟨ns, hns, hshort, rfl⟩
      obtain ⟨ms, hms, hvalues⟩ := hexact.exact _ hok
      obtain rfl := hms.unique hns
      intro n hn
      exact n.wrapped_eq_value_iff.mp (List.map_inj_left.mp hvalues n hn)
    · left
      simpa using hshort
  · intro h
    by_cases hspelled : ∃ ns, Spells segment ns
    · obtain ⟨ns, hns⟩ := hspelled
      rcases h ns hns with ⟨n, hn, hlong⟩ | hsmall
      · exact decodesExactly_of_long hns hn hlong
      · exact decodesExactly_of_small hns hsmall
    · refine ⟨?_, fun ns hns => absurd ⟨ns, hns⟩ hspelled⟩
      exact fun values hvalues => absurd (spells_of_decodeSegment hvalues) hspelled

/-- The thirteenth digit of `2 ^ 64` is lost: the text is decoded to zero. -/
theorem thirteen_digits_not_exact :
    decodeSegment "ggggggggggggQ" = .ok [0] ∧
      Spells "ggggggggggggQ" [⟨List.replicate 12 0, 16⟩] ∧
      Numeral.value ⟨List.replicate 12 0, 16⟩ = 2 ^ 63 ∧ ¬ DecodesExactly "ggggggggggggQ" := by
  have hok : decodeSegment "ggggggggggggQ" = .ok [0] := by decide +kernel
  have hspells : Spells "ggggggggggggQ" [⟨List.replicate 12 0, 16⟩] := by
    unfold Spells
    decide +kernel
  have hvalue : Numeral.value ⟨List.replicate 12 0, 16⟩ = 2 ^ 63 := by decide +kernel
  refine ⟨hok, hspells, hvalue, ?_⟩
  intro hexact
  obtain ⟨ns, hns, hvalues⟩ := hexact.exact _ hok
  obtain rfl := hns.unique hspells
  rw [List.map_singleton, hvalue] at hvalues
  exact absurd hvalues (by decide)

end LiveLisp.SourceMap
