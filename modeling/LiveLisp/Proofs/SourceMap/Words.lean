import LiveLisp.Proofs.SourceMap.Vlq
/-!
# Numbers are written by a loop on words

Letters come from a loop on signed 64-bit words: each turn writes the five lowest bits and shifts
them out, until the word is zero.  A negative word never becomes zero, so the loop need not end.  A
number of magnitude below `2 ^ 62` begins with a word that is not negative, and then the loop ends
with the letters of the number, which are read back.
-/

namespace LiveLisp.SourceMap

open Text

/-! ## Words that are not negative -/

theorem ofNat_shiftRight {n : Nat} (hn : n < 2 ^ 63) :
    Int64.ofNat n >>> 5 = Int64.ofNat (n / 32) := by
  have hshift : (5 : Int64).toBitVec.smod 64 = 5#64 := by decide
  have hmsb : (BitVec.ofNat 64 n).msb = false := by
    rw [BitVec.msb_eq_false_iff_two_mul_lt, BitVec.toNat_ofNat]
    omega
  apply Int64.toBitVec_inj.mp
  rw [Int64.toBitVec_shiftRight, hshift, Int64.toBitVec_ofNat', Int64.toBitVec_ofNat',
    BitVec.sshiftRight', BitVec.sshiftRight_eq_of_msb_false hmsb]
  apply BitVec.eq_of_toNat_eq
  rw [BitVec.toNat_ushiftRight, BitVec.toNat_ofNat, BitVec.toNat_ofNat, Nat.shiftRight_eq_div_pow]
  change n % 2 ^ 64 / 2 ^ 5 = n / 32 % 2 ^ 64
  omega

theorem ofNat_and (n : Nat) : Int64.ofNat n &&& 31 = Int64.ofNat (n % 32) := by
  apply Int64.toBitVec_inj.mp
  apply BitVec.eq_of_toNat_eq
  rw [Int64.toBitVec_and, BitVec.toNat_and, Int64.toBitVec_ofNat', Int64.toBitVec_ofNat',
    BitVec.toNat_ofNat, BitVec.toNat_ofNat]
  change n % 2 ^ 64 &&& 2 ^ 5 - 1 = _
  rw [Nat.and_two_pow_sub_one_eq_mod]
  omega

theorem ofNat_or_mark {n : Nat} (hn : n < 32) : Int64.ofNat n ||| 32 = Int64.ofNat (n + 32) := by
  have hall : ∀ m < 32, Int64.ofNat m ||| 32 = Int64.ofNat (m + 32) := by decide
  exact hall n hn

theorem ofNat_shiftLeft (n : Nat) : Int64.ofNat n <<< 1 = Int64.ofNat (2 * n) := by
  have hshift : (1 : Int64).toBitVec.smod 64 = 1#64 := by decide
  apply Int64.toBitVec_inj.mp
  apply BitVec.eq_of_toNat_eq
  rw [Int64.toBitVec_shiftLeft, hshift, Int64.toBitVec_ofNat', Int64.toBitVec_ofNat',
    BitVec.shiftLeft_eq', BitVec.toNat_shiftLeft, BitVec.toNat_ofNat, BitVec.toNat_ofNat,
    Nat.shiftLeft_eq]
  change n % 2 ^ 64 * 2 ^ 1 % 2 ^ 64 = 2 * n % 2 ^ 64
  omega

theorem ofNat_or_sign {n : Nat} (hn : n < 2 ^ 63) :
    Int64.ofNat (2 * n) ||| 1 = Int64.ofNat (2 * n + 1) := by
  apply Int64.toBitVec_inj.mp
  apply BitVec.eq_of_toNat_eq
  rw [Int64.toBitVec_or, BitVec.toNat_or, Int64.toBitVec_ofNat', Int64.toBitVec_ofNat',
    BitVec.toNat_ofNat, BitVec.toNat_ofNat, Nat.mod_eq_of_lt (by omega),
    Nat.mod_eq_of_lt (by omega)]
  exact (Nat.two_pow_add_eq_or_of_lt (i := 1) (b := 1) (by decide) n).symm

theorem ofNat_pos_iff {n : Nat} (hn : n < 2 ^ 63) : 0 < Int64.ofNat n ↔ 0 < n := by
  rw [Int64.lt_iff_toInt_lt, Int64.toInt_ofNat_of_lt hn, Int64.toInt_zero]
  omega

/-! ## The loop -/

/-- The word that a number is written from: its magnitude, and below it one bit for the sign. -/
def firstWord (v : Int64) : Int64 := if v < 0 then (-v) <<< 1 ||| 1 else v <<< 1

/-- The letter that one turn writes; it has its mark if something positive is left. -/
def turnLetter (w : Int64) : Char :=
  let rest : Int64 := w >>> 5
  let digit : Int64 := w &&& 31
  Base64.letter (if 0 < rest then digit ||| 32 else digit).toUInt64.toNat

/-- The loop that starts with a word ends, and it has written these letters. -/
inductive Writes : Int64 → List Char → Prop
  | stop {w : Int64} (done : w >>> 5 = 0) : Writes w [turnLetter w]
  | turn {w : Int64} {cs : List Char} (left : w >>> 5 ≠ 0) (rest : Writes (w >>> 5) cs) :
      Writes w (turnLetter w :: cs)

theorem Writes.unique {w : Int64} {cs ds : List Char} (hc : Writes w cs) (hd : Writes w ds) :
    cs = ds := by
  induction hc generalizing ds with
  | stop done =>
    cases hd with
    | stop => rfl
    | turn left => exact absurd done left
  | turn left _ ih =>
    cases hd with
    | stop done => exact absurd done left
    | turn _ rest => rw [ih rest]

theorem turnLetter_ofNat {n : Nat} (hn : n < 2 ^ 63) :
    turnLetter (Int64.ofNat n) = Base64.letter (if n < 32 then n else n % 32 + 32) := by
  have hindex : ∀ m < 64, (Int64.ofNat m).toUInt64.toNat = m := by decide +kernel
  unfold turnLetter
  dsimp only
  rw [ofNat_shiftRight hn, ofNat_and, ofNat_or_mark (Nat.mod_lt n (by decide))]
  by_cases hsmall : n < 32
  · have hdone : ¬0 < Int64.ofNat (n / 32) := by
      rw [ofNat_pos_iff (by omega)]
      omega
    rw [if_neg hdone, if_pos hsmall, hindex _ (by omega), Nat.mod_eq_of_lt hsmall]
  · have hleft : 0 < Int64.ofNat (n / 32) := (ofNat_pos_iff (by omega)).mpr (by omega)
    rw [if_pos hleft, if_neg hsmall, hindex _ (by omega)]

/-- From a word that is not negative the loop writes the letters of the number it stands for. -/
theorem writes_letters {n : Nat} (hn : n < 2 ^ 63) : Writes (Int64.ofNat n) (letters n) := by
  induction n using Nat.strongRecOn with
  | ind n ih =>
    have hletter := turnLetter_ofNat hn
    have hrest := ofNat_shiftRight hn
    rw [letters]
    by_cases hsmall : n < 32
    · rw [if_pos hsmall] at hletter ⊢
      rw [Nat.div_eq_of_lt hsmall] at hrest
      rw [← hletter]
      exact .stop hrest
    · rw [if_neg hsmall] at hletter ⊢
      have hleft : Int64.ofNat n >>> 5 ≠ 0 := by
        have hpos : 0 < Int64.ofNat (n / 32) := (ofNat_pos_iff (by omega)).mpr (by omega)
        rw [hrest]
        rintro hzero
        exact absurd (hzero ▸ hpos) (by decide)
      rw [← hletter]
      refine .turn hleft ?_
      rw [hrest]
      exact ih (n / 32) (by omega) (by omega)

theorem firstWord_ofInt {v : Int} (hv : v.natAbs < 2 ^ 62) :
    firstWord (Int64.ofInt v) = Int64.ofNat (zigzag v) := by
  have hvalue : (Int64.ofInt v).toInt = v := Int64.toInt_ofInt_of_le (by omega) (by omega)
  have hsign : Int64.ofInt v < 0 ↔ v < 0 := by
    rw [Int64.lt_iff_toInt_lt, hvalue, Int64.toInt_zero]
  unfold firstWord zigzag
  by_cases hneg : v < 0
  · have hmagnitude : -Int64.ofInt v = Int64.ofNat v.natAbs := by
      rw [Int64.neg_ofInt, ← Int64.ofInt_eq_ofNat]
      congr 1
      omega
    rw [if_pos (hsign.mpr hneg), if_pos hneg, hmagnitude, ofNat_shiftLeft, ofNat_or_sign (by omega)]
  · have hmagnitude : Int64.ofInt v = Int64.ofNat v.natAbs := by
      rw [← Int64.ofInt_eq_ofNat]
      congr 1
      omega
    rw [if_neg (mt hsign.mp hneg), if_neg hneg, hmagnitude, ofNat_shiftLeft]

theorem writes_encodeVlq {v : Int} (hv : v.natAbs < 2 ^ 62) :
    Writes (firstWord (Int64.ofInt v)) (encodeVlq v) := by
  rw [firstWord_ofInt hv]
  exact writes_letters (zigzag_lt hv)

/-! ## Several numbers -/

/-- Writing numbers one after the other ends, and it has written this text. -/
inductive WritesAll : List Int → List Char → Prop
  | nil : WritesAll [] []
  | cons {v : Int} {vs : List Int} {cs text : List Char}
      (first : Writes (firstWord (Int64.ofInt v)) cs) (rest : WritesAll vs text) :
      WritesAll (v :: vs) (cs ++ text)

theorem WritesAll.unique {vs : List Int} {text text' : List Char} (h : WritesAll vs text)
    (h' : WritesAll vs text') : text = text' := by
  induction h generalizing text' with
  | nil =>
    cases h'
    rfl
  | cons first _ ih =>
    cases h' with
    | cons first' rest' => rw [first.unique first', ih rest']

theorem writesAll_encodeAll {vs : List Int} (hvs : ∀ v ∈ vs, v.natAbs < 2 ^ 62) :
    WritesAll vs (encodeAll vs) := by
  induction vs with
  | nil => exact .nil
  | cons v vs ih =>
    obtain ⟨hv, hrest⟩ := List.forall_mem_cons.mp hvs
    exact .cons (writes_encodeVlq hv) (ih hrest)

/-- Writing numbers of magnitude below `2 ^ 62` ends with one text, the letters of the numbers one
after the other, and decoding it gives the numbers. -/
theorem decodeSegment_of_writesAll {vs : List Int} (hvs : ∀ v ∈ vs, v.natAbs < 2 ^ 62) :
    ∃ text, (∀ other, WritesAll vs other ↔ other = text) ∧ text = vs.flatMap encodeVlq ∧
      decodeSegment (String.ofList text) = .ok vs := by
  have hwrites := writesAll_encodeAll hvs
  refine ⟨encodeAll vs, fun other => ⟨fun h => h.unique hwrites, ?_⟩, rfl,
    decodeSegment_encodeAll hvs⟩
  rintro rfl
  exact hwrites

theorem decodeSegment_of_writesAll_extremes :
    (∀ v ∈ [2 ^ 62 - 1, 0, 1 - 2 ^ 62, -1, (16 : Int)], v.natAbs < 2 ^ 62) ∧
      ∃ text, (∀ other, WritesAll [2 ^ 62 - 1, 0, 1 - 2 ^ 62, -1, 16] other ↔ other = text) ∧
        text = [2 ^ 62 - 1, 0, 1 - 2 ^ 62, -1, (16 : Int)].flatMap encodeVlq ∧
        decodeSegment (String.ofList text) = .ok [2 ^ 62 - 1, 0, 1 - 2 ^ 62, -1, 16] :=
  ⟨by decide, decodeSegment_of_writesAll (by decide)⟩

end LiveLisp.SourceMap
