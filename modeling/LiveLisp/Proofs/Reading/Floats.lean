import LiveLisp.Proofs.Decimal.Shortest
import LiveLisp.Proofs.Reading.RoundTrip
import LiveLisp.Proofs.Script.Brackets
/-!
# Printed floats

A float is printed with a point as long as it has a fractional part or fewer than seventeen places,
and otherwise in digits alone.  Digits alone are read as an integer if they fit in 64 bits.  So the
finite floats that are read back are those below ten to the sixteenth and those from two to the
sixty-third on, and infinities have no text that is read.
-/

namespace LiveLisp.Reading

open Decimal (Double IsDouble Near Scaled shortest signText digitText)
open Script (numeral isDigit_of_mem_places)
open Text (Position)

/-! ## Reading numerals -/

section Numerals

variable {whole rest : List Char} (hne : whole ≠ []) (hwhole : ∀ c ∈ whole, c.isDigit = true)
  (hrest : ∀ c ∈ rest, c.isDigit = true) (negative : Bool)

theorem span_digits {tail : List Char} (hwhole : ∀ c ∈ whole, c.isDigit = true)
    (htail : ∀ c ∈ tail.head?, c.isDigit = false) :
    (whole ++ tail).span Char.isDigit = (whole, tail) := by
  have hstop : tail.takeWhile Char.isDigit = [] ∧ tail.dropWhile Char.isDigit = tail := by
    cases tail with
    | nil => exact ⟨rfl, rfl⟩
    | cons c tail => simp [htail c (by simp)]
  rw [List.span_eq_takeWhile_dropWhile, List.takeWhile_append_of_pos hwhole,
    List.dropWhile_append_of_pos hwhole, hstop.1, hstop.2, List.append_nil]

include hne hwhole hrest in
/-- Digits with or without a point are read as the float they write. -/
theorem float?_numeral :
    float? (signText negative ++ numeral whole rest) =
      some (Double.ofDecimal negative (Nat.ofDigitChars 10 (whole ++ rest) 0) (-rest.length)) := by
  have hempty : whole.isEmpty = false := List.isEmpty_eq_false_iff.mpr hne
  unfold numeral
  split
  · next hnil =>
    subst hnil
    have hsplit := splitSign_signText hne hwhole negative []
    have hspan : (whole ++ []).span Char.isDigit = (whole, []) := span_digits hwhole (by simp)
    rw [List.append_nil] at hsplit hspan
    simp only [float?, hsplit, hspan, hempty, Bool.false_and, Bool.false_eq_true, if_false,
      exponent?, Option.map_some, List.append_nil, List.length_nil]
    simp
  · have hpoint : Char.isDigit '.' = false := by decide
    have hspan : (whole ++ '.' :: rest).span Char.isDigit = (whole, '.' :: rest) :=
      span_digits hwhole (by simp [hpoint])
    have hspan' : (rest ++ []).span Char.isDigit = (rest, []) := span_digits hrest (by simp)
    rw [List.append_nil] at hspan'
    simp only [float?, splitSign_signText hne hwhole, hspan, hspan', hempty, Bool.false_and,
      Bool.false_eq_true, if_false, exponent?, Option.map_some, zero_sub]

include hne hwhole in
theorem integer?_point (tail : List Char) :
    integer? (signText negative ++ (whole ++ '.' :: tail)) = none := by
  have hpoint : Char.isDigit '.' = false := by decide
  simp [integer?, splitSign_signText hne hwhole, hpoint]

include hne hwhole hrest in
theorem isToken_numeral : IsToken (signText negative ++ numeral whole rest) := by
  have hdigit : ∀ c, c.isDigit = true ∨ c = '-' → isTerminator c = false :=
    fun c hc => (beginsToken_of_digit hc).1
  refine ⟨?_, ?_⟩
  · obtain ⟨d, ds, rfl⟩ := List.exists_cons_of_ne_nil hne
    have hd := hwhole d (by simp)
    cases negative with
    | true => exact ⟨'-', _, rfl, beginsToken_of_digit (.inr rfl)⟩
    | false =>
      refine ⟨d, ds ++ (if rest = [] then [] else '.' :: rest), ?_, beginsToken_of_digit (.inl hd)⟩
      unfold numeral
      split <;> simp [signText]
  · intro c hc
    have hsign : c ∈ signText negative → c = '-' := by
      cases negative <;> simp [signText]
    have hcases : c ∈ numeral whole rest → c ∈ whole ∨ c = '.' ∨ c ∈ rest := by
      unfold numeral
      split
      · exact .inl
      · simp only [List.mem_append, List.mem_cons, imp_self]
    rcases List.mem_append.mp hc with hc | hc
    · exact hdigit c (.inr (hsign hc))
    · rcases hcases hc with hc | rfl | hc
      · exact hdigit c (.inl (hwhole c hc))
      · decide
      · exact hdigit c (.inl (hrest c hc))

end Numerals

/-! ## Printed digits -/

theorem toDigits_mul_pow {n : Nat} (hn : 0 < n) (k : Nat) :
    Nat.toDigits 10 (n * 10 ^ k) = Nat.toDigits 10 n ++ List.replicate k '0' := by
  induction k with
  | zero => simp
  | succ k ih =>
    have hzero : Nat.toDigits 10 0 = ['0'] := rfl
    have hstep : n * 10 ^ (k + 1) = 10 * (n * 10 ^ k) + 0 := by ring
    have hpos : 0 < n * 10 ^ k := by positivity
    rw [hstep, ← Nat.toDigits_append_toDigits (by omega) hpos (by omega), ih, hzero,
      List.append_assoc, List.replicate_succ']

theorem places_of_nonneg {s : Scaled} (h : 0 ≤ s.exponent) (hdigits : 0 < s.digits) :
    s.places = (Nat.toDigits 10 (s.digits * 10 ^ s.exponent.toNat), []) := by
  rw [toDigits_mul_pow hdigits]
  exact if_pos h

/-- With digits after the point, the digits before and after it are those of the decimal. -/
theorem places_of_neg {s : Scaled} (h : s.exponent < 0) :
    s.places.2 ≠ [] ∧ Nat.ofDigitChars 10 (s.places.1 ++ s.places.2) 0 = s.digits ∧
      (s.places.2.length : Int) = -s.exponent := by
  have hvalue : Nat.ofDigitChars 10 (digitText s.digits) 0 = s.digits :=
    Nat.ofDigitChars_ten_toDigits
  have hne : digitText s.digits ≠ [] := Nat.toDigits_ne_nil
  have hpos : 0 < (-s.exponent).toNat := by omega
  unfold Scaled.places
  dsimp only
  rw [if_neg (by omega)]
  -- the point cuts the digits, or zeros are put in front of them
  split
  · next hlt =>
    have hlength : ((digitText s.digits).drop
        ((digitText s.digits).length - (-s.exponent).toNat)).length = (-s.exponent).toNat := by
      rw [List.length_drop]
      omega
    refine ⟨?_, ?_, ?_⟩
    · exact List.ne_nil_of_length_pos (by rw [hlength]; exact hpos)
    · rw [List.take_append_drop, hvalue]
    · rw [hlength]
      omega
  · next hge =>
    refine ⟨by simp [hne], ?_, ?_⟩
    · have hzeros : Nat.ofDigitChars 10
          ('0' :: List.replicate ((-s.exponent).toNat - (digitText s.digits).length) '0') 0
            = 0 := by
        rw [← List.replicate_succ, Nat.ofDigitChars_replicate_zero, Nat.mul_zero]
      calc Nat.ofDigitChars 10 (['0'] ++ (_ ++ digitText s.digits)) 0
        _ = Nat.ofDigitChars 10 (digitText s.digits) (Nat.ofDigitChars 10 ('0' :: _) 0) := by
          rw [← List.append_assoc, Nat.ofDigitChars_append, List.singleton_append]
        _ = s.digits := by rw [hzeros, hvalue]
    · simp only [List.length_append, List.length_replicate]
      omega

/-- The whole part of an integral double is the double. -/
theorem whole_of_isIntegral {negative : Bool} {m : Nat} {e : Int}
    (h : (Double.finite negative m e).isIntegral = true) :
    (((Decimal.scale2 m 1 e).1 / (Decimal.scale2 m 1 e).2 : Nat) : ℚ) = m * 2 ^ e := by
  unfold Decimal.scale2
  split
  · next he =>
    obtain ⟨k, rfl⟩ := Int.eq_ofNat_of_zero_le he
    simp
  · next he =>
    obtain ⟨k, rfl⟩ : ∃ k : Nat, e = -k := ⟨(-e).toNat, by omega⟩
    have hdvd : 2 ^ k ∣ m := by
      simp only [Double.isIntegral, he, decide_false, Bool.false_or] at h
      simpa [Nat.dvd_iff_mod_eq_zero] using h
    obtain ⟨j, rfl⟩ := hdvd
    have hdiv : 2 ^ k * j / (1 * Nat.pow 2 (- -(k : Int)).toNat) = j := by
      rw [neg_neg, Int.toNat_natCast, one_mul, Nat.pow_eq,
        Nat.mul_div_cancel_left _ (by positivity)]
    rw [hdiv, zpow_neg, zpow_natCast]
    push_cast
    field_simp

/-! ## Printed floats -/

/-- What is printed for a finite float: one zero after the point, or the shortest decimal. -/
theorem toList_floatLiteral (negative : Bool) (m : Nat) (e : Int) :
    (floatLiteral (.finite negative m e)).toList = signText negative ++
      if (Double.finite negative m e).isIntegral && isModest (.finite negative m e) then
        numeral (digitText ((Decimal.scale2 m 1 e).1 / (Decimal.scale2 m 1 e).2)) ['0']
      else numeral (shortest .up m e).places.1 (shortest .up m e).places.2 := by
  unfold floatLiteral
  dsimp only
  split
  · simp [Double.withTenths, numeral]
  · rw [String.toList_ofList, ← Script.Scaled.positional_eq]
    rfl

theorem isModest_iff (negative : Bool) (m : Nat) (e : Int) :
    isModest (.finite negative m e) = true ↔ (m * 2 ^ e : ℚ) < 10 ^ 16 := by
  have hden : (0 : ℚ) < (Decimal.scale2 m 1 e).2 := by
    exact_mod_cast Decimal.scale_den_pos two_pos one_pos m e
  have hratio : ((Decimal.scale2 m 1 e).1 / (Decimal.scale2 m 1 e).2 : ℚ) =
      m / (1 : Nat) * (2 : Nat) ^ e :=
    Decimal.ratio_scale two_pos m 1 e
  rw [Nat.cast_one, div_one, Nat.cast_two] at hratio
  have hmodest : isModest (.finite negative m e) = true ↔
      (Decimal.scale2 m 1 e).1 < 10 ^ 16 * (Decimal.scale2 m 1 e).2 := decide_eq_true_iff
  rw [hmodest, ← hratio, div_lt_iff₀ hden]
  norm_cast

/-- A numeral near a double is read as the double, unless it is read as an integer. -/
theorem atom?_numeral {m : Nat} {e : Int} (h : IsDouble m e) (hm : 0 < m) {whole rest : List Char}
    (hne : whole ≠ []) (hwhole : ∀ c ∈ whole, c.isDigit = true)
    (hrest : ∀ c ∈ rest, c.isDigit = true) {negative : Bool}
    (hnear : Near m e (Nat.ofDigitChars 10 (whole ++ rest) 0 * 10 ^ (-rest.length : Int)))
    (hinteger : integer? (signText negative ++ numeral whole rest) = none) :
    atom? (signText negative ++ numeral whole rest) = some (.float (.finite negative m e)) := by
  have hnumeric : isNumeric (signText negative ++ numeral whole rest) = true := by
    unfold numeral
    split
    · have hplain := isNumeric_signText hne hwhole negative []
      rwa [List.append_nil] at hplain
    · exact isNumeric_signText hne hwhole negative _
  rw [atom?_of_isNumeric hnumeric, hinteger, float?_numeral hne hwhole hrest,
    Decimal.ofDecimal_of_near h hm hnear]
  rfl

theorem integer?_of_rest {whole rest : List Char} (hne : whole ≠ [])
    (hwhole : ∀ c ∈ whole, c.isDigit = true) (hrest : rest ≠ []) (negative : Bool) :
    integer? (signText negative ++ numeral whole rest) = none := by
  rw [numeral, if_neg hrest]
  exact integer?_point hne hwhole negative rest

/-- With tenths, an integral float is read back. -/
theorem atom?_withTenths {m : Nat} {e : Int} (h : IsDouble m e) {negative : Bool}
    (hintegral : (Double.finite negative m e).isIntegral = true) :
    atom? (signText negative ++
      numeral (digitText ((Decimal.scale2 m 1 e).1 / (Decimal.scale2 m 1 e).2)) ['0']) =
        some (.float (.finite negative m e)) := by
  have hwhole := whole_of_isIntegral hintegral
  generalize (Decimal.scale2 m 1 e).1 / (Decimal.scale2 m 1 e).2 = n at *
  have hne : digitText n ≠ [] := Nat.toDigits_ne_nil
  have hdigits : ∀ c ∈ digitText n, c.isDigit = true :=
    fun c hc => Text.isDigit_of_mem_toDigits_ten hc
  have hvalue : Nat.ofDigitChars 10 (digitText n ++ ['0']) 0 = 10 * n := by
    have hdigits : Nat.ofDigitChars 10 (digitText n) 0 = n := Nat.ofDigitChars_ten_toDigits
    rw [Nat.ofDigitChars_append, hdigits]
    rfl
  rcases Nat.eq_zero_or_pos m with rfl | hm
  · -- a zero has one exponent, and its text is fixed but for the sign
    obtain rfl : n = 0 := by simpa using hwhole
    obtain rfl : e = Double.minExponent := h.full.resolve_right (by simp [Double.leastNormal])
    cases negative <;> rfl
  · refine atom?_numeral h hm hne hdigits (List.forall_mem_singleton.mpr rfl) ?_
      (integer?_of_rest hne hdigits (by simp) _)
    rw [hvalue, Nat.cast_mul, hwhole]
    convert Decimal.near_self m e using 1
    simp only [List.length_singleton, Nat.cast_ofNat, Nat.cast_one, zpow_neg, zpow_one]
    ring

/-- A float with a fractional part has digits after the point, so it is read back. -/
theorem atom?_fractional {m : Nat} {e : Int} (h : IsDouble m e) {negative : Bool}
    (hnot : (Double.finite negative m e).isIntegral = false) :
    atom? (signText negative ++
      numeral (shortest .up m e).places.1 (shortest .up m e).places.2) =
        some (.float (.finite negative m e)) := by
  have hm : 0 < m := by
    refine Nat.pos_of_ne_zero ?_
    rintro rfl
    simp [Double.isIntegral] at hnot
  have hexponent := Decimal.exponent_neg_of_not_isIntegral h hm .up hnot
  obtain ⟨hne, hwhole, hrest⟩ := isDigit_of_mem_places (shortest .up m e)
  obtain ⟨hpoint, hvalue, hlength⟩ := places_of_neg hexponent
  refine atom?_numeral h hm hne hwhole hrest ?_ (integer?_of_rest hne hwhole hpoint _)
  rw [hvalue, hlength, neg_neg]
  exact (Decimal.shortest_spec h hm .up).1

theorem mantissa_pos {m : Nat} {e : Int} {v : ℚ} (hv : 0 < v) (h : v ≤ m * 2 ^ e) : 0 < m := by
  refine Nat.pos_of_ne_zero ?_
  rintro rfl
  rw [Nat.cast_zero, zero_mul] at h
  exact absurd h hv.not_ge

/-- From ten to the sixteenth on, the text of a float is a whole number near it. -/
theorem floatLiteral_whole (negative : Bool) {m : Nat} {e : Int} (h : IsDouble m e)
    (hlarge : (10 : ℚ) ^ 16 ≤ m * 2 ^ e) :
    ∃ k : Nat, k = (shortest .up m e).value ∧ Near m e k ∧
      (floatLiteral (.finite negative m e)).toList = signText negative ++ Nat.toDigits 10 k := by
  have hm : 0 < m := mantissa_pos (by norm_num) hlarge
  have hexponent := Decimal.exponent_nonneg_of_large h hm .up hlarge
  have hnear := (Decimal.shortest_spec h hm .up).1
  have hdigits : 0 < (shortest .up m e).digits := by
    refine Nat.pos_of_ne_zero fun hzero => ?_
    have hpos := hnear.pos hm
    simp [Scaled.value, hzero] at hpos
  have hvalue := Scaled.value_of_nonneg hexponent
  have hmodest : isModest (.finite negative m e) = false := by
    rw [← Bool.not_eq_true, isModest_iff]
    exact not_lt.mpr hlarge
  refine ⟨_, hvalue.symm, hvalue ▸ hnear, ?_⟩
  rw [toList_floatLiteral, hmodest, Bool.and_false, if_neg Bool.false_ne_true,
    places_of_nonneg hexponent hdigits, numeral, if_pos rfl]

/-- From two to the sixty-third on, the digits are too many for an integer. -/
theorem atom?_huge {m : Nat} {e : Int} (h : IsDouble m e) (negative : Bool)
    (hhuge : (2 : ℚ) ^ 63 ≤ m * 2 ^ e) :
    atom? (floatLiteral (.finite negative m e)).toList = some (.float (.finite negative m e)) := by
  obtain ⟨k, hk, hnear, htext⟩ := floatLiteral_whole negative h (le_trans (by norm_num) hhuge)
  have hm : 0 < m := mantissa_pos (by norm_num) hhuge
  -- the decimal may be less than the float, but still not an integer of 64 bits
  have hover : 2 ^ 63 < k := by
    have hvalue := Decimal.two_pow_lt_shortest h hhuge
    rw [← hk] at hvalue
    exact_mod_cast hvalue
  have hne : Nat.toDigits 10 k ≠ [] := Nat.toDigits_ne_nil
  have hdigits : ∀ c ∈ Nat.toDigits 10 k, c.isDigit = true :=
    fun c hc => Text.isDigit_of_mem_toDigits_ten hc
  have hplain : Nat.toDigits 10 k = numeral (Nat.toDigits 10 k) [] := (if_pos rfl).symm
  have hinteger : integer? (signText negative ++ Nat.toDigits 10 k) = none := by
    rw [integer?_whole hne hdigits, Nat.ofDigitChars_ten_toDigits]
    refine if_neg ?_
    cases negative <;> simp [fitsInt64] <;> omega
  rw [htext]
  rw [hplain] at hinteger ⊢
  refine atom?_numeral h hm hne hdigits (by simp) ?_ hinteger
  simpa [Nat.ofDigitChars_ten_toDigits] using hnear

/-- Between the two, the text of a float is that of an integer. -/
theorem floatLiteral_eq_toString {m : Nat} {e : Int} (h : IsDouble m e) (negative : Bool)
    (hlarge : (10 : ℚ) ^ 16 ≤ m * 2 ^ e) (hless : (m * 2 ^ e : ℚ) < 2 ^ 63) :
    ∃ n : Int, fitsInt64 n = true ∧ floatLiteral (.finite negative m e) = toString n := by
  obtain ⟨k, -, hnear, htext⟩ := floatLiteral_whole negative h hlarge
  have hm : 0 < m := mantissa_pos (by norm_num) hlarge
  have hfits : k < 2 ^ 63 := by
    have hvalue := hnear.lt_two_zpow (k := 63) hm (by exact_mod_cast hless)
    exact_mod_cast hvalue
  have hpos : 0 < k := by exact_mod_cast hnear.pos hm
  refine ⟨if negative then -k else k, ?_, ?_⟩
  · cases negative <;> simp [fitsInt64] <;> omega
  · rw [← String.toList_inj, htext, Text.toList_toString_int]
    cases negative with
    | true => simp [signText, hpos]
    | false => simp [signText]

theorem isToken_floatLiteral (negative : Bool) (m : Nat) (e : Int) :
    IsToken (floatLiteral (.finite negative m e)).toList := by
  rw [toList_floatLiteral]
  split
  · exact isToken_numeral Nat.toDigits_ne_nil (fun c hc => Text.isDigit_of_mem_toDigits_ten hc)
      (List.forall_mem_singleton.mpr rfl) negative
  · obtain ⟨hne, hwhole, hrest⟩ := isDigit_of_mem_places (shortest .up m e)
    exact isToken_numeral hne hwhole hrest negative

theorem atom?_floatLiteral {m : Nat} {e : Int} (h : IsDouble m e) (negative : Bool)
    (hrange : (m * 2 ^ e : ℚ) < 10 ^ 16 ∨ (2 : ℚ) ^ 63 ≤ m * 2 ^ e) :
    atom? (floatLiteral (.finite negative m e)).toList = some (.float (.finite negative m e)) := by
  rcases hrange with hmodest | hhuge
  · rw [← isModest_iff negative] at hmodest
    rw [toList_floatLiteral, hmodest, Bool.and_true]
    cases hintegral : (Double.finite negative m e).isIntegral with
    | true => exact atom?_withTenths h hintegral
    | false => exact atom?_fractional h hintegral
  · exact atom?_huge h negative hhuge

/-! ## Texts of one form -/

/-- The text of a form that reads back has that form alone. -/
theorem readAll_of_readsBack {f : Form} (h : ReadsBack f) :
    ∃ g, readAll f.render = .ok [g] ∧ g.same f = true := by
  obtain ⟨g, c, hfirst, hsame, hrest, hpending⟩ := h.read
    (c := Cursor.ofLines (linesOfText f.render)) rfl rfl h.linesOfText
  have hmore : ∀ fuel, readRest (fuel + 1) (Cursor.ofLines (linesOfText f.render)) = .ok [g] := by
    intro fuel
    have hnone : readRest fuel c = .ok [] := readRest_of_empty hrest hpending
    rw [readRest]
    simp only [hfirst, hnone]
    rfl
  exact ⟨g, hmore _, hsame⟩

theorem exists_atom_of_same {g : Form} {pos : Position} {a : Atom}
    (h : g.same (.atom pos a) = true) : ∃ p b, g = .atom p b ∧ b.same a = true := by
  cases g with
  | atom p b => exact ⟨p, b, rfl, h⟩
  | _ => simp [Form.same] at h

/-- In the two ranges the text of a float has one form, an equal float. -/
theorem readAll_float {m : Nat} {e : Int} (h : IsDouble m e) (negative : Bool)
    (hrange : (m * 2 ^ e : ℚ) < 10 ^ 16 ∨ (2 : ℚ) ^ 63 ≤ m * 2 ^ e) (pos : Position) :
    ∃ p y, readAll (Form.atom pos (.float (.finite negative m e))).render =
        .ok [.atom p (.float y)] ∧ y.sameNumber (.finite negative m e) = true := by
  have hback : ReadsBack (.atom pos (.float (.finite negative m e))) :=
    readsBack_token pos (isToken_floatLiteral negative m e) (atom?_floatLiteral h negative hrange)
  obtain ⟨g, hread, hsame⟩ := readAll_of_readsBack hback
  obtain ⟨p, a, rfl, hatom⟩ := exists_atom_of_same hsame
  obtain ⟨y, rfl, hy⟩ : ∃ y, a = .float y ∧ y.sameNumber (.finite negative m e) = true := by
    cases a with
    | float y => exact ⟨y, rfl, hatom⟩
    | _ => simp [Atom.same] at hatom
  exact ⟨p, y, hread, hy⟩

/-- The text of an integer has one form, the integer. -/
theorem readAll_toString {n : Int} (hn : fitsInt64 n = true) :
    ∃ p, readAll (toString n) = .ok [.atom p (.int n)] := by
  have hback : ReadsBack (.atom ⟨1, 1⟩ (.int n)) :=
    readsBack_token ⟨1, 1⟩ (isToken_toString n) (atom?_toString hn)
  obtain ⟨g, hread, hsame⟩ := readAll_of_readsBack hback
  obtain ⟨p, a, rfl, hatom⟩ := exists_atom_of_same hsame
  obtain rfl : a = .int n := by simpa [Atom.same] using hatom
  exact ⟨p, hread⟩

/-- Between the ranges the text of a float has one form, an integer. -/
theorem readAll_float_between {m : Nat} {e : Int} (h : IsDouble m e) (negative : Bool)
    (hlarge : (10 : ℚ) ^ 16 ≤ m * 2 ^ e) (hless : (m * 2 ^ e : ℚ) < 2 ^ 63) (pos : Position) :
    ∃ p n, readAll (Form.atom pos (.float (.finite negative m e))).render =
      .ok [.atom p (.int n)] := by
  obtain ⟨n, hn, htext⟩ := floatLiteral_eq_toString h negative hlarge hless
  obtain ⟨p, hread⟩ := readAll_toString hn
  refine ⟨p, n, ?_⟩
  rw [← hread]
  exact congrArg readAll htext

/-- The text of an infinity is refused. -/
theorem readAll_infinite (negative : Bool) (pos : Position) :
    readAll (Form.atom pos (.float (.infinite negative))).render =
      .error (.unsupportedDispatch '#' ⟨1, 1⟩) := by
  cases negative with
  | false =>
    change readAll "##Inf" = _
    rfl
  | true =>
    change readAll "##-Inf" = _
    rfl

theorem float?_of_atom? {token : List Char} {x : Double} (h : atom? token = some (.float x)) :
    float? token = some x := by
  unfold atom? at h
  split_ifs at h with hnil htrue hfalse hnumeric
  · simp at h
  · simp at h
  · simp at h
  · split at h
    · simp at h
    · simpa using h
  · split at h <;> simp at h

/-- What tokens are read as: infinities and doubles. -/
theorem isDouble_of_atom? {token : List Char} {x : Double} (h : atom? token = some (.float x)) :
    ∃ negative, x = .infinite negative ∨ ∃ m e, IsDouble m e ∧ x = .finite negative m e := by
  have hfloat := float?_of_atom? h
  unfold float? at hfloat
  dsimp only at hfloat
  rw [Option.ite_none_left_eq_some, Option.map_eq_some_iff] at hfloat
  obtain ⟨-, exponent, -, rfl⟩ := hfloat
  exact ⟨_, Decimal.ofDecimal_cases _ _ _⟩

/-- Printing and reading floats: of the floats that tokens are read as, exactly the finite ones
below ten to the sixteenth or from two to the sixty-third on have a text that is read as one form,
an equal float. -/
theorem float_reads_back_iff {token : List Char} {x : Double} (h : atom? token = some (.float x))
    (pos : Position) :
    (∃ p y, readAll (Form.atom pos (.float x)).render = .ok [.atom p (.float y)] ∧
        y.sameNumber x = true) ↔
      ∃ negative m e, x = .finite negative m e ∧
        ((m * 2 ^ e : ℚ) < 10 ^ 16 ∨ (2 : ℚ) ^ 63 ≤ m * 2 ^ e) := by
  constructor
  · rintro ⟨p, y, hread, -⟩
    obtain ⟨negative, rfl | ⟨m, e, hdouble, rfl⟩⟩ := isDouble_of_atom? h
    · rw [readAll_infinite] at hread
      simp at hread
    · refine ⟨negative, m, e, rfl, ?_⟩
      by_contra hbetween
      simp only [not_or, not_lt, not_le] at hbetween
      obtain ⟨q, n, hinteger⟩ :=
        readAll_float_between hdouble negative hbetween.1 hbetween.2 pos
      rw [hread] at hinteger
      simp at hinteger
  · rintro ⟨negative, m, e, rfl, hrange⟩
    obtain ⟨sign, hsign | ⟨n, f, hdouble, hsame⟩⟩ := isDouble_of_atom? h
    · simp at hsign
    · obtain ⟨rfl, rfl, rfl⟩ := Double.finite.inj hsame
      exact readAll_float hdouble negative hrange pos

/-- A tenth is read back. -/
theorem tenth_reads_back :
    atom? "0.1".toList = some (.float (.finite false 7205759403792794 (-56))) ∧
      ∃ p y, readAll (Form.atom ⟨1, 1⟩ (.float (.finite false 7205759403792794 (-56)))).render =
          .ok [.atom p (.float y)] ∧
        y.sameNumber (.finite false 7205759403792794 (-56)) = true := by
  have htoken : atom? "0.1".toList = some (.float (.finite false 7205759403792794 (-56))) := by
    decide +kernel
  exact ⟨htoken, (float_reads_back_iff htoken ⟨1, 1⟩).mpr ⟨_, _, _, rfl, .inl (by norm_num)⟩⟩

/-- Ten to the sixteenth is read back as an integer. -/
theorem float_read_as_integer :
    atom? "1e16".toList = some (.float (.finite false 5000000000000000 1)) ∧
      ∃ p, readAll (Form.atom ⟨1, 1⟩ (.float (.finite false 5000000000000000 1))).render =
        .ok [.atom p (.int 10000000000000000)] := by
  have htext : (Form.atom ⟨1, 1⟩ (.float (.finite false 5000000000000000 1))).render =
      toString (10000000000000000 : Int) := by decide +kernel
  refine ⟨by decide +kernel, ?_⟩
  rw [htext]
  exact readAll_toString (by decide)

end LiveLisp.Reading
