import LiveLisp.Proofs.Text.Utf8
import LiveLisp.SourceMap.Vlq
import Mathlib.Tactic.Ring
/-!
# Numbers in a segment are read back

Thirteen letters hold 65 bits, and decoding refuses a fourteenth.  So every number of magnitude
below `2 ^ 62` is decoded to itself.
-/

namespace LiveLisp.SourceMap

open Text

/-! ## Letters -/

/-- The byte of an ASCII character. -/
def asciiByte (c : Char) : UInt8 := UInt8.ofNat c.toNat

theorem forall_letter {P : Char → Prop} (h : ∀ m < 64, P (Base64.letter m)) (n : Nat) :
    P (Base64.letter n) := by
  have hmod : Base64.letter n = Base64.letter (n % 64) := by simp [Base64.letter]
  rw [hmod]
  exact h (n % 64) (Nat.mod_lt n (by omega))

theorem letter_ascii (n : Nat) : (Base64.letter n).toNat < 128 :=
  forall_letter (P := fun c => c.toNat < 128) (by decide +kernel) n

/-- The characters that divide segments and lines are no letters. -/
theorem letter_ne_mark (n : Nat) : Base64.letter n ≠ ',' ∧ Base64.letter n ≠ ';' :=
  forall_letter (P := fun c => c ≠ ',' ∧ c ≠ ';') (by decide +kernel) n

theorem letterBits?_letter {n : Nat} (hn : n < 64) :
    letterBits? (asciiByte (Base64.letter n)) = some n := by
  have hall : ∀ m < 64, letterBits? (asciiByte (Base64.letter m)) = some m := by decide +kernel
  exact hall n hn

theorem exists_letter_of_mem_letters {n : Nat} {c : Char} (hc : c ∈ letters n) :
    ∃ m, c = Base64.letter m := by
  induction n using Nat.strongRecOn with
  | ind n ih =>
    rw [letters] at hc
    split at hc
    · exact ⟨n, by simpa using hc⟩
    · rcases List.mem_cons.mp hc with rfl | hc
      · exact ⟨n % 32 + 32, rfl⟩
      · exact ih (n / 32) (by omega) hc

theorem letters_ne_nil (n : Nat) : letters n ≠ [] := by
  rw [letters]
  split <;> simp

/-! ## One number -/

/-- Decoding the letters of a number when all but `j + 1` of thirteen letters have been read. -/
theorem decodeFrom_letters {j n : Nat} (hj : j ≤ 12) (hn : n < 32 ^ (j + 1)) (value : Nat)
    (pending : Bool) (rest : List UInt8) :
    decodeFrom value (60 - 5 * j) pending ((letters n).map asciiByte ++ rest) =
      (decodeFrom 0 0 false rest).map (unzigzag (value + n * 2 ^ (60 - 5 * j)) :: ·) := by
  induction j generalizing n value pending with
  | zero =>
    have hsmall : n < 32 := by simpa using hn
    rw [letters, if_pos hsmall]
    simp only [List.map_cons, List.map_nil, List.cons_append, List.nil_append, decodeFrom,
      letterBits?_letter (by omega : n < 64), Nat.not_lt.mpr (Nat.sub_le 60 (5 * 0)), if_false,
      Nat.mod_eq_of_lt hsmall, Nat.not_le.mpr hsmall]
    cases decodeFrom 0 0 false rest <;> rfl
  | succ j ih =>
    have hshift : ¬ 60 < 60 - 5 * (j + 1) := by omega
    rw [letters]
    split
    · next hsmall =>
      simp only [List.map_cons, List.map_nil, List.cons_append, List.nil_append, decodeFrom,
        letterBits?_letter (by omega : n < 64), hshift, if_false,
        Nat.mod_eq_of_lt hsmall, Nat.not_le.mpr hsmall]
      cases decodeFrom 0 0 false rest <;> rfl
    · next hbig =>
      have hbits : n % 32 + 32 < 64 := by omega
      have hlow : (n % 32 + 32) % 32 = n % 32 := by omega
      have hnext : n / 32 < 32 ^ (j + 1) := by
        rw [Nat.div_lt_iff_lt_mul (by omega), ← Nat.pow_succ]
        exact hn
      have hstep : 60 - 5 * (j + 1) + 5 = 60 - 5 * j := by omega
      have hvalue : value + n % 32 * 2 ^ (60 - 5 * (j + 1)) + n / 32 * 2 ^ (60 - 5 * j) =
          value + n * 2 ^ (60 - 5 * (j + 1)) := by
        rw [← hstep, Nat.pow_add]
        calc value + n % 32 * 2 ^ (60 - 5 * (j + 1)) + n / 32 * (2 ^ (60 - 5 * (j + 1)) * 2 ^ 5)
            = value + (32 * (n / 32) + n % 32) * 2 ^ (60 - 5 * (j + 1)) := by ring
          _ = value + n * 2 ^ (60 - 5 * (j + 1)) := by rw [Nat.div_add_mod]
      simp only [List.map_cons, List.cons_append, decodeFrom, letterBits?_letter hbits, hshift,
        if_false, hlow, Nat.le_add_left, if_true, hstep]
      have hrest := ih (by omega) hnext (value + n % 32 * 2 ^ (60 - 5 * (j + 1))) true
      rw [hvalue] at hrest
      exact hrest

/-- The word that a signed number is written as. -/
def zigzag (v : Int) : Nat := if v < 0 then 2 * v.natAbs + 1 else 2 * v.natAbs

theorem zigzag_lt {v : Int} (hv : v.natAbs < 2 ^ 62) : zigzag v < 2 ^ 63 := by
  unfold zigzag
  split <;> omega

theorem signed64_of_lt {n : Nat} (hn : n < 2 ^ 63) : signed64 n = n := by
  unfold signed64 bound64
  rw [Int.bmod_eq_of_le] <;> omega

theorem unzigzag_zigzag {v : Int} (hv : v.natAbs < 2 ^ 62) : unzigzag (zigzag v) = v := by
  have hword := signed64_of_lt (zigzag_lt hv)
  simp only [unzigzag, hword, Int.fdiv_eq_ediv_of_nonneg _ (by omega : (0 : Int) ≤ 2)]
  unfold zigzag
  by_cases hneg : v < 0
  · simp only [hneg, if_true]
    rw [if_pos (by omega)]
    omega
  · simp only [hneg, if_false]
    rw [if_neg (by omega)]
    omega

theorem decodeFrom_encodeVlq {v : Int} (hv : v.natAbs < 2 ^ 62) (rest : List UInt8) :
    decodeFrom 0 0 false ((encodeVlq v).map asciiByte ++ rest) =
      (decodeFrom 0 0 false rest).map (v :: ·) := by
  have hlt : zigzag v < 32 ^ (12 + 1) := Nat.lt_trans (zigzag_lt hv) (by decide)
  have hdecode := decodeFrom_letters (Nat.le_refl 12) hlt 0 false rest
  rw [Nat.zero_add, Nat.sub_self, Nat.pow_zero, Nat.mul_one, unzigzag_zigzag hv] at hdecode
  exact hdecode

/-! ## Segments -/

/-- The letters of numbers one after the other. -/
def encodeAll (vs : List Int) : List Char := vs.flatMap encodeVlq

theorem exists_letter_of_mem_encodeAll {vs : List Int} {c : Char} (hc : c ∈ encodeAll vs) :
    ∃ m, c = Base64.letter m := by
  obtain ⟨v, -, hc⟩ := List.mem_flatMap.mp hc
  exact exists_letter_of_mem_letters hc

/-- Numbers written one after the other are read as the same numbers. -/
theorem decodeSegment_encodeAll {vs : List Int} (hvs : ∀ v ∈ vs, v.natAbs < 2 ^ 62) :
    decodeSegment (String.ofList (encodeAll vs)) = .ok vs := by
  have hascii : ∀ c ∈ encodeAll vs, c.toNat < 128 := by
    intro c hc
    obtain ⟨m, rfl⟩ := exists_letter_of_mem_encodeAll hc
    exact letter_ascii m
  rw [decodeSegment, Utf8.encode_ascii hascii]
  clear hascii
  change decodeFrom 0 0 false ((encodeAll vs).map asciiByte) = .ok vs
  induction vs with
  | nil => rfl
  | cons v vs ih =>
    have hrest := ih (fun w hw => hvs w (by simp [hw]))
    rw [encodeAll, List.flatMap_cons, List.map_append, decodeFrom_encodeVlq (hvs v (by simp))]
    change Except.map _ (decodeFrom 0 0 false ((encodeAll vs).map asciiByte)) = _
    rw [hrest]
    rfl

end LiveLisp.SourceMap
