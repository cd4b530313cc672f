import LiveLisp.Proofs.Decimal.Rounding
/-!
# Shortest decimals read back

Seventeen digits are enough to tell a double from its neighbours, so the search for the fewest
digits ends with a decimal that is read as the double it was made from.  A double with a fractional
part has digits after the point; one of at least seventeen places before the point has none.
-/

namespace LiveLisp.Decimal

open Double (minExponent maxExponent leastNormal)

/-! ## The decimal place -/

/-- Powers of ten below powers of two, as far as three digits are worth ten bits, and
ninety-three bits less than twenty-eight digits. -/
theorem ten_zpow_le_two_zpow {g l : Int} (h : 0 ≤ l ∧ 10 * g ≤ 3 * l ∨ l ≤ 0 ∧ 93 * g ≤ 28 * l) :
    (10 : ℚ) ^ g ≤ 2 ^ l := by
  rcases h with ⟨hl, hg⟩ | ⟨hl, hg⟩
  · refine (pow_le_pow_iff_left₀ (by positivity) (by positivity) (n := 10) (by norm_num)).mp ?_
    calc ((10 : ℚ) ^ g) ^ 10 = 10 ^ (10 * g) := by rw [← zpow_natCast, ← zpow_mul, mul_comm]; rfl
      _ ≤ 10 ^ (3 * l) := zpow_le_zpow_right₀ (by norm_num) hg
      _ = (10 ^ (3 : Int)) ^ l := zpow_mul _ _ _
      _ ≤ (2 ^ (10 : Int)) ^ l := zpow_le_zpow_left₀ hl (by norm_num) (by norm_num)
      _ = (2 ^ l) ^ 10 := by rw [← zpow_mul, mul_comm, zpow_mul]; rfl
  · refine (pow_le_pow_iff_left₀ (by positivity) (by positivity) (n := 93) (by norm_num)).mp ?_
    calc ((10 : ℚ) ^ g) ^ 93 = 10 ^ (93 * g) := by rw [← zpow_natCast, ← zpow_mul, mul_comm]; rfl
      _ ≤ 10 ^ (28 * l) := zpow_le_zpow_right₀ (by norm_num) hg
      _ = ((10 ^ (28 : Int)) ^ (-l))⁻¹ := by rw [zpow_mul, zpow_neg, inv_inv]
      _ ≤ ((2 ^ (93 : Int)) ^ (-l))⁻¹ := by
        gcongr
        exact zpow_le_zpow_left₀ (by omega) (by norm_num) (by norm_num)
      _ = (2 ^ l) ^ 93 := by rw [zpow_neg, inv_inv, ← zpow_mul, mul_comm, zpow_mul]; rfl

theorem placeFrom_spec {n d : Nat} (hd : 0 < d) (fuel : Nat) (k : Int) :
    ((10 : ℚ) ^ (k - 1) ≤ n / d → (10 : ℚ) ^ (placeFrom n d fuel k - 1) ≤ n / d) ∧
      ((n / d : ℚ) < 10 ^ placeFrom n d fuel k ∨ placeFrom n d fuel k = k + fuel) := by
  induction fuel generalizing k with
  | zero => exact ⟨id, .inr (by simp [placeFrom])⟩
  | succ fuel ih =>
    have hpos : (0 : ℚ) < (scale 10 n d (-k)).2 := by
      exact_mod_cast scale_den_pos (by omega) hd n (-k)
    have hcompare : (scale 10 n d (-k)).1 < (scale 10 n d (-k)).2 ↔ (n / d : ℚ) < 10 ^ k := by
      rw [← Nat.cast_lt (α := ℚ), ← div_lt_one hpos]
      change ratio (scale 10 n d (-k)) < 1 ↔ _
      rw [ratio_scale (by omega) n d (-k), zpow_neg, ← div_eq_mul_inv, div_lt_one (by positivity)]
      norm_num
    rw [placeFrom]
    simp only [scale10_eq, hcompare]
    split_ifs with hlt
    · exact ⟨id, .inl hlt⟩
    · obtain ⟨hlow, hhigh⟩ := ih (k + 1)
      rw [add_sub_cancel_right] at hlow
      refine ⟨fun _ => hlow (not_lt.mp hlt), hhigh.imp_right fun h => ?_⟩
      rw [h]
      push_cast
      ring

/-- The place of a double's first digit is not overestimated. -/
theorem place_le {n d : Nat} (hn : 0 < n) (hd : 0 < d) (hleast : -1074 ≤ floorLog2 n d)
    (hmost : floorLog2 n d ≤ 1023) : (10 : ℚ) ^ (place n d - 1) ≤ n / d := by
  refine (placeFrom_spec hd 4 _).1 (le_trans (ten_zpow_le_two_zpow ?_) (floorLog2_spec hn hd).1)
  generalize floorLog2 n d = l at *
  rw [Int.tdiv_eq_ediv]
  rcases le_or_gt 0 l with hl | hl
  · rw [if_pos (.inl (by omega))]
    exact .inl ⟨hl, by omega⟩
  · refine .inr ⟨hl.le, ?_⟩
    have hsign : Int.sign 100000 = 1 := rfl
    split_ifs <;> omega

/-! ## Grids -/

/-- The number that a decimal stands for. -/
def Scaled.value (s : Scaled) : ℚ := s.digits * 10 ^ s.exponent

theorem ratio_scale10 (digits : Nat) (exponent : Int) :
    ratio (scale10 digits 1 exponent) = (Scaled.mk digits exponent).value := by
  rw [scale10_eq, ratio_scale (by omega)]
  simp [Scaled.value]

/-- Whether a decimal is in the interval of a double. -/
def Interval.holds (i : Interval) (digits : Nat) (exponent : Int) : Bool :=
  i.contains (scale10 digits 1 exponent).1 (scale10 digits 1 exponent).2

theorem holds_iff {m : Nat} (hm : 0 < m) (e : Int) (digits : Nat) (exponent : Int) :
    (Interval.ofParts m e).holds digits exponent = true ↔
      Near m e (Scaled.mk digits exponent).value := by
  have hden : 0 < (scale10 digits 1 exponent).2 := scale_den_pos (by omega) one_pos digits exponent
  rw [Interval.holds, contains_iff hm hden, ← ratio_scale10]
  rfl

/-- The middle of the interval is the double itself. -/
theorem ratio_ofParts (m : Nat) (e : Int) :
    ((Interval.ofParts m e).value / (Interval.ofParts m e).den : ℚ) = m * 2 ^ e ∧
      0 < (Interval.ofParts m e).den := by
  have hden := scale_den_pos two_pos one_pos 1 (e - 2)
  have hunit := ratio_scale two_pos 1 1 (e - 2)
  simp only [Interval.ofParts, scale2_eq]
  generalize scale 2 1 1 (e - 2) = p at *
  obtain ⟨unit, den⟩ := p
  refine ⟨?_, hden⟩
  push_cast
  rw [mul_div_assoc, show (unit / den : ℚ) = ratio (unit, den) from rfl, hunit,
    zpow_sub₀ (by norm_num)]
  norm_num
  ring

/-- The lower one of the two decimals around the middle of an interval. -/
def Interval.lower (i : Interval) (exponent : Int) : Nat :=
  (scale10 i.value i.den (-exponent)).1 / (scale10 i.value i.den (-exponent)).2

/-- What is found on a grid: one of the decimals around the middle if it is in the interval, and
otherwise nothing. -/
theorem nearestOnGrid_cases (tie : Tie) (i : Interval) (exponent : Int) :
    (∃ digits, nearestOnGrid tie i exponent = some ⟨digits, exponent⟩ ∧
        i.holds digits exponent = true) ∨
      nearestOnGrid tie i exponent = none ∧ i.holds (i.lower exponent) exponent = false ∧
        i.holds (i.lower exponent + 1) exponent = false := by
  unfold nearestOnGrid
  dsimp only
  split
  · next hlower hupper =>
    have heither : ∀ (upper : Prop) [Decidable upper],
        i.holds (if upper then i.lower exponent + 1 else i.lower exponent) exponent = true := by
      intro upper _
      split
      · exact hupper
      · exact hlower
    exact .inl ⟨_, rfl, heither _⟩
  · next hlower _ => exact .inl ⟨_, rfl, hlower⟩
  · next _ hupper => exact .inl ⟨_, rfl, hupper⟩
  · next hlower hupper => exact .inr ⟨rfl, hlower, hupper⟩

/-- The search ends with a decimal of a grid on which there is one. -/
theorem firstOnGrids_spec (tie : Tie) (i : Interval) (place : Int) {ns : List Nat}
    (h : ∃ n ∈ ns, nearestOnGrid tie i (place - n) ≠ none) :
    ∃ digits, ∃ n ∈ ns, firstOnGrids tie i place ns = ⟨digits, place - n⟩ ∧
      i.holds digits (place - n) = true := by
  induction ns with
  | nil => simp at h
  | cons n ns ih =>
    rw [firstOnGrids]
    rcases nearestOnGrid_cases tie i (place - n) with ⟨digits, hsome, hholds⟩ | ⟨hnone, -, -⟩
    · rw [hsome]
      exact ⟨digits, n, by simp, rfl, hholds⟩
    · rw [hnone]
      obtain ⟨k, hk, hne⟩ := h
      have hmem : k ∈ ns := by
        rcases List.mem_cons.mp hk with rfl | hmem
        · exact absurd hnone hne
        · exact hmem
      obtain ⟨digits, k, hk, hfirst, hholds⟩ := ih ⟨k, hmem, hne⟩
      exact ⟨digits, k, by simp [hk], hfirst, hholds⟩

/-- The decimals around the middle are no further from it than one step of the grid. -/
theorem lower_bounds (i : Interval) (hden : 0 < i.den) (exponent : Int) :
    (Scaled.mk (i.lower exponent) exponent).value ≤ i.value / i.den ∧
      (i.value / i.den : ℚ) < (Scaled.mk (i.lower exponent + 1) exponent).value := by
  have hpos : 0 < (scale10 i.value i.den (-exponent)).2 := scale_den_pos (by omega) hden _ _
  have hratio :
      ((scale10 i.value i.den (-exponent)).1 / (scale10 i.value i.den (-exponent)).2 : ℚ) =
        i.value / i.den / 10 ^ exponent := by
    have h := ratio_scale (show 0 < 10 by omega) i.value i.den (-exponent)
    rw [zpow_neg, ← div_eq_mul_inv] at h
    exact_mod_cast h
  have hstep : (0 : ℚ) < 10 ^ exponent := by positivity
  obtain ⟨hlow, hhigh⟩ := quotient_bounds (scale10 i.value i.den (-exponent)).1 hpos
  rw [hratio] at hlow hhigh
  rw [Scaled.value, Scaled.value, ← le_div_iff₀ hstep, ← div_lt_iff₀ hstep]
  push_cast
  exact ⟨hlow, hhigh⟩

/-- Seventeen digits are enough: one of the decimals around a double is read as it. -/
theorem seventeen_digits {m : Nat} {e : Int} (h : IsDouble m e) (hm : 0 < m) {place : Int}
    (hplace : (10 : ℚ) ^ (place - 1) ≤ m * 2 ^ e) (tie : Tie) :
    nearestOnGrid tie (Interval.ofParts m e) (place - (17 : Nat)) ≠ none := by
  obtain ⟨hvalue, hden⟩ := ratio_ofParts m e
  obtain ⟨hlower, hupper⟩ := lower_bounds (Interval.ofParts m e) hden (place - (17 : Nat))
  have hdouble := h.lt_cast
  have hunit : (0 : ℚ) < 2 ^ e := by positivity
  rw [hvalue] at hlower hupper
  intro hnone
  obtain ⟨-, hnot, hnot'⟩ := (nearestOnGrid_cases tie (Interval.ofParts m e) _).resolve_left (by
    rintro ⟨digits, hsome, -⟩
    rw [hnone] at hsome
    simp at hsome)
  rw [← Bool.not_eq_true, holds_iff hm] at hnot hnot'
  generalize (Interval.ofParts m e).lower (place - (17 : Nat)) = k at *
  -- one step of the grid, far smaller than the double
  have hsucc : (Scaled.mk (k + 1) (place - (17 : Nat))).value =
      (Scaled.mk k (place - (17 : Nat))).value + 10 ^ (place - (17 : Nat)) := by
    simp only [Scaled.value]
    push_cast
    ring
  have hstep : (10 : ℚ) ^ (place - (17 : Nat)) * 10 ^ 16 ≤ m * 2 ^ e := by
    have hsplit : (10 : ℚ) ^ (place - 1) = 10 ^ (place - (17 : Nat)) * 10 ^ 16 := by
      rw [← zpow_natCast, ← zpow_add₀ (by norm_num)]
      congr 1
      push_cast
      ring
    rwa [← hsplit]
  rw [hsucc] at hupper hnot'
  generalize (Scaled.mk k (place - (17 : Nat))).value = v at *
  generalize (10 : ℚ) ^ (place - (17 : Nat)) = step at *
  by_cases hnarrow : m = leastNormal ∧ minExponent < e
  · -- below a power of two the interval is narrow, but above it the step is small enough
    have hquarter : gapBelow m e = 1 / 4 := if_pos hnarrow
    rw [hnarrow.1, leastNormal_cast] at hstep hupper hlower
    refine hnot' (.of_lt ?_ ?_)
    · rw [hquarter, hnarrow.1, leastNormal_cast]
      linarith
    · rw [hnarrow.1, leastNormal_cast]
      linarith
  · have hhalf : gapBelow m e = 1 / 2 := if_neg hnarrow
    have hmost := mul_le_mul_of_nonneg_right hdouble hunit.le
    rcases lt_or_ge (((m : ℚ) - 1 / 2) * 2 ^ e) v with hnear | hfar
    · refine hnot (.of_lt ?_ ?_)
      · rw [hhalf]
        linarith
      · linarith
    · refine hnot' (.of_lt ?_ ?_)
      · rw [hhalf]
        linarith
      · linarith

/-! ## Trailing zeros -/

theorem Scaled.value_trim (s : Scaled) (fuel : Nat) : (s.trim fuel).value = s.value := by
  induction fuel generalizing s with
  | zero => rfl
  | succ fuel ih =>
    rw [trim]
    split
    · next h =>
      rw [ih]
      have hdigits : (s.digits : ℚ) = (s.digits / 10 : Nat) * 10 := by
        exact_mod_cast (Nat.div_mul_cancel (Nat.dvd_of_mod_eq_zero h.2)).symm
      rw [value, value, hdigits, zpow_add_one₀ (by norm_num)]
      ring
    · rfl

theorem Scaled.exponent_le_trim (s : Scaled) (fuel : Nat) :
    s.exponent ≤ (s.trim fuel).exponent := by
  induction fuel generalizing s with
  | zero => rfl
  | succ fuel ih =>
    rw [trim]
    split
    · exact le_trans (by simp) (ih _)
    · rfl

/-! ## The shortest decimal -/

theorem floorLog2_of_isDouble {m n d : Nat} {e : Int} (h : IsDouble m e) (hm : 0 < m) (hn : 0 < n)
    (hd : 0 < d) (hvalue : (n / d : ℚ) = m * 2 ^ e) :
    -1074 ≤ floorLog2 n d ∧ floorLog2 n d ≤ 1023 := by
  have hleast := h.least
  have hgreatest := h.greatest
  unfold minExponent at hleast
  unfold maxExponent at hgreatest
  obtain ⟨hlow, hhigh⟩ := floorLog2_spec hn hd
  rw [hvalue] at hlow hhigh
  have hone : (1 : ℚ) ≤ m := by exact_mod_cast hm
  constructor
  · have hlt : (2 : ℚ) ^ e < 2 ^ (floorLog2 n d + 1) :=
      lt_of_le_of_lt (le_mul_of_one_le_left (by positivity) hone) hhigh
    have := (zpow_lt_zpow_iff_right₀ one_lt_two).mp hlt
    omega
  · have hlt : (2 : ℚ) ^ floorLog2 n d < 2 ^ (e + (53 : Nat)) := by
      calc (2 : ℚ) ^ floorLog2 n d ≤ m * 2 ^ e := hlow
        _ ≤ (m + 1 / 2) * 2 ^ e := by gcongr; norm_num
        _ < 2 ^ (e + (53 : Nat)) := h.high_lt
    have := (zpow_lt_zpow_iff_right₀ one_lt_two).mp hlt
    omega

/-- The shortest decimal of a double is read as the double, and has its last digit at most
seventeen places behind its first one. -/
theorem shortest_spec {m : Nat} {e : Int} (h : IsDouble m e) (hm : 0 < m) (tie : Tie) :
    Near m e (shortest tie m e).value ∧
      place (Interval.ofParts m e).value (Interval.ofParts m e).den - 17 ≤
        (shortest tie m e).exponent := by
  obtain ⟨hvalue, hden⟩ := ratio_ofParts m e
  have hpos : 0 < (Interval.ofParts m e).value := by
    have hratio : (0 : ℚ) < (Interval.ofParts m e).value / (Interval.ofParts m e).den := by
      rw [hvalue]
      positivity
    rw [div_pos_iff_of_pos_right (by exact_mod_cast hden)] at hratio
    exact_mod_cast hratio
  obtain ⟨hleast, hmost⟩ := floorLog2_of_isDouble h hm hpos hden hvalue
  have hplace := place_le hpos hden hleast hmost
  rw [hvalue] at hplace
  have hgrid : ∃ n ∈ (List.range 18).drop 1, nearestOnGrid tie (Interval.ofParts m e)
      (place (Interval.ofParts m e).value (Interval.ofParts m e).den - n) ≠ none :=
    ⟨17, by decide, seventeen_digits h hm hplace tie⟩
  obtain ⟨digits, n, hn, hfirst, hholds⟩ := firstOnGrids_spec tie _ _ hgrid
  have hle : n ≤ 17 := by
    have hmem : n ∈ List.range 18 := List.mem_of_mem_drop hn
    have := List.mem_range.mp hmem
    omega
  rw [holds_iff hm] at hholds
  rw [shortest, if_neg (by omega)]
  dsimp only
  rw [hfirst, Scaled.value_trim]
  refine ⟨hholds, le_trans ?_ (Scaled.exponent_le_trim _ 20)⟩
  dsimp only
  omega

/-! ## Whole numbers -/

theorem Scaled.value_of_nonneg {s : Scaled} (h : 0 ≤ s.exponent) :
    s.value = (s.digits * 10 ^ s.exponent.toNat : Nat) := by
  obtain ⟨k, hk⟩ := Int.eq_ofNat_of_zero_le h
  rw [value, hk, zpow_natCast, Int.toNat_natCast]
  push_cast
  rfl

/-- A whole number is near a double only if the double is whole. -/
theorem Near.isIntegral {m k : Nat} {e : Int} (h : Near m e k) (negative : Bool) :
    (Double.finite negative m e).isIntegral = true := by
  rcases le_or_gt 0 e with he | he
  · simp [Double.isIntegral, he]
  · obtain ⟨j, rfl⟩ : ∃ j : Nat, e = -j := ⟨(-e).toNat, by omega⟩
    have hpos : (0 : ℚ) < 2 ^ j := by positivity
    have hlow := h.half.1
    have hhigh := h.high
    rw [zpow_neg, zpow_natCast, ← div_eq_mul_inv] at hlow hhigh
    rw [div_le_iff₀ hpos] at hlow
    rw [le_div_iff₀ hpos] at hhigh
    have hmore : (m : ℚ) < (k * 2 ^ j : Nat) + 1 := by
      push_cast
      linarith
    have hless : ((k * 2 ^ j : Nat) : ℚ) < m + 1 := by
      push_cast
      linarith
    norm_cast at hmore hless
    obtain rfl : m = k * 2 ^ j := by omega
    simp [Double.isIntegral]

/-- A double with a fractional part has digits after the point. -/
theorem exponent_neg_of_not_isIntegral {m : Nat} {e : Int} (h : IsDouble m e) (hm : 0 < m)
    (tie : Tie) {negative : Bool} (hnot : (Double.finite negative m e).isIntegral = false) :
    (shortest tie m e).exponent < 0 := by
  by_contra hge
  have hnear := (shortest_spec h hm tie).1
  rw [Scaled.value_of_nonneg (not_lt.mp hge)] at hnear
  rw [hnear.isIntegral negative] at hnot
  exact absurd hnot (by simp)

/-- The shortest decimal of a double of seventeen places or more has no digits after the point. -/
theorem exponent_nonneg_of_large {m : Nat} {e : Int} (h : IsDouble m e) (hm : 0 < m) (tie : Tie)
    (hlarge : (10 : ℚ) ^ 16 ≤ m * 2 ^ e) : 0 ≤ (shortest tie m e).exponent := by
  refine le_trans ?_ (shortest_spec h hm tie).2
  obtain ⟨hvalue, hden⟩ := ratio_ofParts m e
  generalize (Interval.ofParts m e).value = n at *
  generalize (Interval.ofParts m e).den = d at *
  rw [← hvalue] at hlarge
  have hn : 0 < n := by
    rcases Nat.eq_zero_or_pos n with rfl | hn
    · norm_num at hlarge
    · exact hn
  have hlog : 53 ≤ floorLog2 n d := by
    have hlt : (2 : ℚ) ^ (53 : Int) < 2 ^ (floorLog2 n d + 1) :=
      lt_of_le_of_lt (le_trans (by norm_num) hlarge) (floorLog2_spec hn hden).2
    have := (zpow_lt_zpow_iff_right₀ one_lt_two).mp hlt
    omega
  rcases (placeFrom_spec hden 4 ((floorLog2 n d * 30103).tdiv 100000 - 1)).2 with hlt | hend
  · have hplace : (10 : ℚ) ^ (16 : Int) < 10 ^ place n d :=
      lt_of_le_of_lt (by exact_mod_cast hlarge) hlt
    have := (zpow_lt_zpow_iff_right₀ (by norm_num)).mp hplace
    omega
  · change place n d = _ at hend
    rw [hend, Int.tdiv_eq_ediv, if_pos (.inl (by omega))]
    omega

/-- Numbers near a double below a power of two are below it too. -/
theorem Near.lt_two_zpow {m : Nat} {e k : Int} {v : ℚ} (h : Near m e v) (hm : 0 < m)
    (hlt : (m * 2 ^ e : ℚ) < 2 ^ k) : v < 2 ^ k := by
  have hunit : (0 : ℚ) < 2 ^ e := by positivity
  have hone : (1 : ℚ) ≤ m := by exact_mod_cast hm
  have hle : e < k := by
    apply (zpow_lt_zpow_iff_right₀ (one_lt_two (α := ℚ))).mp
    exact lt_of_le_of_lt (le_mul_of_one_le_left hunit.le hone) hlt
  obtain ⟨j, rfl⟩ : ∃ j : Nat, k = j + e := ⟨(k - e).toNat, by omega⟩
  rw [zpow_add₀ two_ne_zero, zpow_natCast] at hlt ⊢
  have hsucc : (m : ℚ) + 1 ≤ 2 ^ j := by
    have hnat : (m : ℚ) < 2 ^ j := lt_of_mul_lt_mul_right hlt hunit.le
    norm_cast at hnat ⊢
  calc v ≤ (m + 1 / 2) * 2 ^ e := h.high
    _ < (m + 1) * 2 ^ e := by gcongr; norm_num
    _ ≤ 2 ^ j * 2 ^ e := by gcongr

/-- Numbers near a double above a power of two are above it too. -/
theorem Near.two_zpow_lt {m : Nat} {e k : Int} {v : ℚ} (h : Near m e v) (hm : 1 < m)
    (hlt : (2 : ℚ) ^ k < m * 2 ^ e) : 2 ^ k < v := by
  have hunit : (0 : ℚ) < 2 ^ e := by positivity
  have hone : (1 : ℚ) < m := by exact_mod_cast hm
  rcases le_or_gt e k with hle | hgt
  · obtain ⟨j, rfl⟩ : ∃ j : Nat, k = j + e := ⟨(k - e).toNat, by omega⟩
    rw [zpow_add₀ two_ne_zero, zpow_natCast] at hlt ⊢
    have hsucc : (2 : ℚ) ^ j + 1 ≤ m := by
      have hnat : (2 : ℚ) ^ j < m := lt_of_mul_lt_mul_right hlt hunit.le
      norm_cast at hnat ⊢
    calc (2 : ℚ) ^ j * 2 ^ e < (m - 1 / 2) * 2 ^ e := by gcongr; linarith
      _ ≤ v := h.half.1
  · calc (2 : ℚ) ^ k ≤ 2 ^ (e - 1) := zpow_le_zpow_right₀ one_le_two (by omega)
      _ = 1 / 2 * 2 ^ e := by rw [zpow_sub_one₀ two_ne_zero]; ring
      _ < (m - 1 / 2) * 2 ^ e := by gcongr; linarith
      _ ≤ v := h.half.1

/-- Of the doubles from `2 ^ 63` on, none has a shortest decimal as low as `2 ^ 63`. -/
theorem two_pow_lt_shortest {m : Nat} {e : Int} (h : IsDouble m e)
    (hge : (2 : ℚ) ^ (63 : Int) ≤ m * 2 ^ e) :
    (2 : ℚ) ^ (63 : Int) < (shortest .up m e).value := by
  have hhigh := h.high_lt
  have hexponent : 10 < e := by
    have hlt : (2 : ℚ) ^ (63 : Int) < 2 ^ (e + (53 : Nat)) := by
      refine lt_of_le_of_lt hge (lt_of_le_of_lt ?_ hhigh)
      gcongr
      norm_num
    have := (zpow_lt_zpow_iff_right₀ one_lt_two).mp hlt
    omega
  have hfull : leastNormal ≤ m := by
    refine h.full.resolve_left ?_
    rintro rfl
    exact absurd hexponent (by decide)
  have hm : 1 < m := lt_of_lt_of_le (by decide) hfull
  rcases hge.lt_or_eq with hlt | heq
  · exact (shortest_spec h (by omega) .up).1.two_zpow_lt hm hlt
  · -- the one double whose interval reaches below
    have hcast : (2 : ℚ) ^ 52 ≤ m := by
      rw [← leastNormal_cast]
      exact_mod_cast hfull
    obtain rfl : e = 11 := by
      have hle : (2 : ℚ) ^ (52 + e) ≤ 2 ^ (63 : Int) := by
        rw [heq, zpow_add₀ two_ne_zero]
        gcongr
        exact_mod_cast hcast
      have := (zpow_le_zpow_iff_right₀ one_lt_two).mp hle
      omega
    obtain rfl : m = leastNormal := by
      have hvalue : (m : ℚ) = leastNormal := by
        rw [leastNormal_cast]
        norm_num at heq ⊢
        linarith
      exact_mod_cast hvalue
    have hshortest : shortest .up leastNormal 11 = ⟨9223372036854776, 3⟩ := by decide +kernel
    rw [hshortest, Scaled.value]
    norm_num

end LiveLisp.Decimal
