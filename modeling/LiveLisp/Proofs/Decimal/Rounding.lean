import LiveLisp.Decimal.Shortest
import Mathlib.Algebra.Order.Field.Power
import Mathlib.Data.Nat.Log
import Mathlib.Tactic.FieldSimp
import Mathlib.Tactic.Linarith
import Mathlib.Tactic.NormNum
import Mathlib.Tactic.Positivity
import Mathlib.Tactic.Ring
/-!
# Rounding to doubles

A fraction is rounded to a double by way of its binary place.  What comes out is a mantissa and an
exponent in the range of doubles, or an infinity; and every number that is nearer to a double than
to its neighbours is rounded to it.
-/

namespace LiveLisp.Decimal

open Double (minExponent maxExponent leastNormal)

/-! ## Fractions -/

/-- The number that a fraction stands for. -/
def ratio (p : Nat × Nat) : ℚ := p.1 / p.2

/-- `num · base ^ e / den` as a fraction. -/
def scale (base num den : Nat) (e : Int) : Nat × Nat :=
  if 0 ≤ e then (num * base ^ e.toNat, den) else (num, den * base ^ (-e).toNat)

theorem scale2_eq (num den : Nat) (e : Int) : scale2 num den e = scale 2 num den e := rfl

theorem scale10_eq (num den : Nat) (e : Int) : scale10 num den e = scale 10 num den e := rfl

theorem ratio_scale {base : Nat} (hbase : 0 < base) (num den : Nat) (e : Int) :
    ratio (scale base num den e) = num / den * (base : ℚ) ^ e := by
  have hne : (base : ℚ) ≠ 0 := by positivity
  unfold scale ratio
  split
  · next he =>
    obtain ⟨k, rfl⟩ := Int.eq_ofNat_of_zero_le he
    push_cast [Int.toNat_natCast, zpow_natCast]
    ring
  · next he =>
    obtain ⟨k, rfl⟩ : ∃ k : Nat, e = -k := ⟨(-e).toNat, by omega⟩
    push_cast [neg_neg, Int.toNat_natCast, zpow_neg, zpow_natCast]
    field_simp

theorem scale_den_pos {base den : Nat} (hbase : 0 < base) (hden : 0 < den) (num : Nat) (e : Int) :
    0 < (scale base num den e).2 := by
  unfold scale
  split
  · exact hden
  · positivity

/-! ## The binary place -/

theorem log2_bounds {n : Nat} (hn : 0 < n) :
    (2 : ℚ) ^ (n.log2 : Int) ≤ n ∧ (n : ℚ) < 2 ^ ((n.log2 : Int) + 1) := by
  have hlow : 2 ^ n.log2 ≤ n := Nat.log2_self_le (by omega)
  have hhigh : n < 2 ^ (n.log2 + 1) := Nat.lt_log2_self
  constructor
  · rw [zpow_natCast]
    exact_mod_cast hlow
  · rw [← Nat.cast_succ, zpow_natCast]
    exact_mod_cast hhigh

theorem floorLog2_spec {n d : Nat} (hn : 0 < n) (hd : 0 < d) :
    (2 : ℚ) ^ floorLog2 n d ≤ n / d ∧ (n / d : ℚ) < 2 ^ (floorLog2 n d + 1) := by
  obtain ⟨hn₁, hn₂⟩ := log2_bounds hn
  obtain ⟨hd₁, hd₂⟩ := log2_bounds hd
  have hdpos : (0 : ℚ) < d := by positivity
  generalize hk : (n.log2 : Int) - d.log2 = k
  -- the places of the two numbers leave two places for the fraction
  have hlow : (2 : ℚ) ^ (k - 1) ≤ n / d := by
    rw [le_div_iff₀ hdpos]
    calc (2 : ℚ) ^ (k - 1) * d ≤ 2 ^ (k - 1) * 2 ^ ((d.log2 : Int) + 1) := by gcongr
      _ = 2 ^ (n.log2 : Int) := by rw [← zpow_add₀ two_ne_zero, ← hk]; congr 1; ring
      _ ≤ n := hn₁
  have hhigh : (n / d : ℚ) < 2 ^ (k + 1) := by
    rw [div_lt_iff₀ hdpos]
    calc (n : ℚ) < 2 ^ ((n.log2 : Int) + 1) := hn₂
      _ = 2 ^ (k + 1) * 2 ^ (d.log2 : Int) := by
        rw [← zpow_add₀ two_ne_zero, ← hk]
        congr 1
        ring
      _ ≤ 2 ^ (k + 1) * d := by gcongr
  have hscaled := scale_den_pos two_pos hd n (-k)
  have hratio := ratio_scale two_pos n d (-k)
  unfold floorLog2
  simp only [scale2_eq, hk]
  generalize scale 2 n d (-k) = p at hscaled hratio
  obtain ⟨n', d'⟩ := p
  have hcompare : d' ≤ n' ↔ (2 : ℚ) ^ k ≤ n / d := by
    have hpow : (n / d : ℚ) = n' / d' * 2 ^ k := by
      rw [show (n' / d' : ℚ) = ratio (n', d') from rfl, hratio, mul_assoc, Nat.cast_two,
        ← zpow_add₀ two_ne_zero, neg_add_cancel, zpow_zero, mul_one]
    have hd' : (0 : ℚ) < d' := by exact_mod_cast hscaled
    rw [hpow, le_mul_iff_one_le_left (by positivity), one_le_div hd', Nat.cast_le]
  split
  · next h => exact ⟨hcompare.mp h, hhigh⟩
  · next h =>
    rw [hcompare, not_le] at h
    exact ⟨hlow, by rwa [sub_add_cancel]⟩

/-- The place is the only one with these bounds. -/
theorem floorLog2_eq {n d : Nat} {k : Int} (hn : 0 < n) (hd : 0 < d) (hlow : (2 : ℚ) ^ k ≤ n / d)
    (hhigh : (n / d : ℚ) < 2 ^ (k + 1)) : floorLog2 n d = k := by
  obtain ⟨hlow', hhigh'⟩ := floorLog2_spec hn hd
  have hle : k < floorLog2 n d + 1 :=
    (zpow_lt_zpow_iff_right₀ one_lt_two).mp (hlow.trans_lt hhigh')
  have hge : floorLog2 n d < k + 1 :=
    (zpow_lt_zpow_iff_right₀ one_lt_two).mp (hlow'.trans_lt hhigh)
  omega

/-! ## Rounding to naturals -/

theorem div_eq_quotient_add (n : Nat) {d : Nat} (hd : 0 < d) :
    (n / d : ℚ) = (n / d : Nat) + (n % d : Nat) / (d : ℚ) := by
  have hne : (d : ℚ) ≠ 0 := by positivity
  have hsplit : (n : ℚ) = d * (n / d : Nat) + (n % d : Nat) := by
    exact_mod_cast (Nat.div_add_mod n d).symm
  field_simp
  linarith

/-- How the rest of a division compares with one half. -/
theorem rest_compare (n : Nat) {d : Nat} (hd : 0 < d) :
    (2 * (n % d) < d ↔ (n / d : ℚ) < (n / d : Nat) + 1 / 2) ∧
      (d < 2 * (n % d) ↔ (n / d : Nat) + 1 / 2 < (n / d : ℚ)) := by
  have hpos : (0 : ℚ) < d := by exact_mod_cast hd
  rw [div_eq_quotient_add n hd, add_lt_add_iff_left, add_lt_add_iff_left,
    div_lt_div_iff₀ hpos two_pos, div_lt_div_iff₀ two_pos hpos, ← Nat.cast_lt (α := ℚ),
    ← Nat.cast_lt (α := ℚ)]
  push_cast
  rw [one_mul, mul_comm (2 : ℚ)]
  exact ⟨Iff.rfl, Iff.rfl⟩

theorem quotient_bounds (n : Nat) {d : Nat} (hd : 0 < d) :
    ((n / d : Nat) : ℚ) ≤ n / d ∧ (n / d : ℚ) < (n / d : Nat) + 1 := by
  have hpos : (0 : ℚ) < d := by exact_mod_cast hd
  have hrest : ((n % d : Nat) : ℚ) < d := by exact_mod_cast Nat.mod_lt n hd
  rw [div_eq_quotient_add n hd]
  constructor
  · have hnonneg : (0 : ℚ) ≤ (n % d : Nat) / d := by positivity
    linarith
  · have hone : ((n % d : Nat) : ℚ) / d < 1 := (div_lt_one hpos).mpr hrest
    linarith

/-- What is rounded lies at most one half from what comes out. -/
theorem roundHalfEven_near (n : Nat) {d : Nat} (hd : 0 < d) :
    (roundHalfEven n d : ℚ) - 1 / 2 ≤ n / d ∧ (n / d : ℚ) ≤ roundHalfEven n d + 1 / 2 := by
  obtain ⟨hlow, hhigh⟩ := quotient_bounds n hd
  obtain ⟨hbelow, habove⟩ := rest_compare n hd
  unfold roundHalfEven
  simp only [hbelow, habove]
  generalize (n / d : ℚ) = t at *
  split_ifs <;> push_cast <;> constructor <;> linarith

/-- A number less than one half from `m`, or just one half from an even `m`, is rounded to `m`. -/
theorem roundHalfEven_eq {n d m : Nat} (hd : 0 < d) (hlow : (m : ℚ) - 1 / 2 ≤ n / d)
    (hhigh : (n / d : ℚ) ≤ m + 1 / 2)
    (hodd : m % 2 = 1 → (m : ℚ) - 1 / 2 < n / d ∧ (n / d : ℚ) < m + 1 / 2) :
    roundHalfEven n d = m := by
  obtain ⟨hquotient, hnext⟩ := quotient_bounds n hd
  obtain ⟨hbelow, habove⟩ := rest_compare n hd
  unfold roundHalfEven
  simp only [hbelow, habove]
  generalize (n / d : ℚ) = t at *
  generalize n / d = q at *
  have hcases : m = q ∨ m = q + 1 := by
    have hle : (q : ℚ) < m + 1 := by linarith
    have hge : (m : ℚ) < q + 2 := by linarith
    norm_cast at hle hge
    omega
  have hparity := Nat.mod_two_eq_zero_or_one q
  rcases hcases with rfl | rfl
  · split_ifs with h₁ h₂ h₃
    · rfl
    · linarith
    · rfl
    · have h := hodd (by omega)
      exact absurd h.2 h₁
  · push_cast at hlow hhigh hodd
    split_ifs with h₁ h₂ h₃
    · linarith
    · rfl
    · have h := (hodd (by omega)).1
      exact absurd (by linarith) h₂
    · rfl

/-! ## Doubles -/

/-- A mantissa and an exponent of a double: full precision but for the least exponent. -/
structure IsDouble (m : Nat) (e : Int) : Prop where
  least : minExponent ≤ e
  greatest : e ≤ maxExponent
  below : m < 2 * leastNormal
  full : e = minExponent ∨ leastNormal ≤ m

/-- How far the numbers that are rounded to `m · 2 ^ e` go down from it, in units of `2 ^ e`. -/
def gapBelow (m : Nat) (e : Int) : ℚ := if m = leastNormal ∧ minExponent < e then 1 / 4 else 1 / 2

/-- The number is nearer to `m · 2 ^ e` than to its neighbours, or half way to one and `m` is
even. -/
structure Near (m : Nat) (e : Int) (v : ℚ) : Prop where
  low : (m - gapBelow m e) * 2 ^ e ≤ v
  high : v ≤ (m + 1 / 2) * 2 ^ e
  odd : m % 2 = 1 → (m - gapBelow m e) * 2 ^ e < v ∧ v < (m + 1 / 2) * 2 ^ e

theorem gapBelow_cases (m : Nat) (e : Int) : gapBelow m e = 1 / 4 ∨ gapBelow m e = 1 / 2 := by
  unfold gapBelow
  split
  · exact .inl rfl
  · exact .inr rfl

theorem Near.of_lt {m : Nat} {e : Int} {v : ℚ} (hlow : (m - gapBelow m e) * 2 ^ e < v)
    (hhigh : v < (m + 1 / 2) * 2 ^ e) : Near m e v :=
  ⟨hlow.le, hhigh.le, fun _ => ⟨hlow, hhigh⟩⟩

theorem near_self (m : Nat) (e : Int) : Near m e (m * 2 ^ e) := by
  have hunit : (0 : ℚ) < 2 ^ e := by positivity
  refine .of_lt (mul_lt_mul_of_pos_right ?_ hunit) (mul_lt_mul_of_pos_right ?_ hunit)
  · rcases gapBelow_cases m e with hgap | hgap <;> rw [hgap] <;> linarith
  · linarith

theorem Interval.contains_eq_true {i : Interval} {n d : Nat} :
    i.contains n d = true ↔ if i.closed then i.low * d ≤ n * i.den ∧ n * i.den ≤ i.high * d
      else i.low * d < n * i.den ∧ n * i.den < i.high * d := by
  unfold Interval.contains
  split <;> simp

theorem contains_iff {m n d : Nat} {e : Int} (hm : 0 < m) (hd : 0 < d) :
    (Interval.ofParts m e).contains n d = true ↔ Near m e (n / d) := by
  have hden := scale_den_pos two_pos one_pos 1 (e - 2)
  have hunit := ratio_scale two_pos 1 1 (e - 2)
  have hgap : gapBelow m e =
      ((if m = leastNormal ∧ minExponent < e then 1 else 2 : Nat) : ℚ) / 4 := by
    unfold gapBelow
    split_ifs <;> norm_num
  have hbelow : (if m = leastNormal ∧ minExponent < e then 1 else 2) ≤ 4 * m := by
    split_ifs <;> omega
  simp only [Interval.contains_eq_true, Interval.ofParts, scale2_eq]
  generalize (if m = leastNormal ∧ minExponent < e then 1 else 2) = below at *
  generalize scale 2 1 1 (e - 2) = p at *
  obtain ⟨unit, den⟩ := p
  have hpos : (0 : ℚ) < d ∧ (0 : ℚ) < den := by exact_mod_cast And.intro hd hden
  have hquarter : (unit / den : ℚ) = 2 ^ e / 4 := by
    rw [show (unit / den : ℚ) = ratio (unit, den) from rfl, hunit, zpow_sub₀ (by norm_num)]
    norm_num
  -- both sides of the interval are counted in quarters of the unit
  have hquarters : ∀ a : Nat, ((a * unit : Nat) / den : ℚ) = a / 4 * 2 ^ e := by
    intro a
    push_cast
    rw [mul_div_assoc, hquarter]
    ring
  have hlow : ((4 * m - below : Nat) : ℚ) / 4 = m - gapBelow m e := by
    rw [hgap, Nat.cast_sub hbelow]
    push_cast
    ring
  have hhigh : ((4 * m + 2 : Nat) : ℚ) / 4 = m + 1 / 2 := by
    push_cast
    ring
  have hcompare : ∀ a : Nat, (a * unit * d ≤ n * den ↔ (a / 4 * 2 ^ e : ℚ) ≤ n / d) ∧
      (n * den ≤ a * unit * d ↔ (n / d : ℚ) ≤ a / 4 * 2 ^ e) := by
    intro a
    rw [← hquarters, div_le_div_iff₀ hpos.2 hpos.1, div_le_div_iff₀ hpos.1 hpos.2]
    constructor <;> norm_cast
  have hl := hcompare (4 * m - below)
  have hh := hcompare (4 * m + 2)
  rw [hlow] at hl
  rw [hhigh] at hh
  split_ifs with heven
  · have hodd : m % 2 ≠ 1 := by
      have h := beq_iff_eq.mp heven
      omega
    rw [hl.1, hh.2]
    exact ⟨fun h => ⟨h.1, h.2, fun h => absurd h hodd⟩, fun h => ⟨h.low, h.high⟩⟩
  · have hodd : m % 2 = 1 := by
      have h := mt beq_iff_eq.mpr heven
      omega
    rw [← not_le, ← not_le, hl.2, hh.1, not_le, not_le]
    exact ⟨fun h => ⟨h.1.le, h.2.le, fun _ => h⟩, fun h => h.odd hodd⟩

/-! ## Fractions to doubles -/

/-- The double with a mantissa that may have been rounded up by one place. -/
def carried (negative : Bool) (m : Nat) (q : Int) : Double :=
  let (m, q) := if m = 2 * leastNormal then (leastNormal, q + 1) else (m, q)
  if maxExponent < q then .infinite negative else .finite negative m q

theorem ofRatio_eq_carried (negative : Bool) {n : Nat} (hn : 0 < n) (d : Nat) :
    Double.ofRatio negative n d =
      carried negative
        (roundHalfEven (scale 2 n d (-max (floorLog2 n d - 52) minExponent)).1
          (scale 2 n d (-max (floorLog2 n d - 52) minExponent)).2)
        (max (floorLog2 n d - 52) minExponent) := by
  rw [Double.ofRatio, if_neg (by omega)]
  rfl

theorem carried_of_isDouble (negative : Bool) {m : Nat} {e : Int} (h : IsDouble m e) :
    carried negative m e = .finite negative m e := by
  have hne : m ≠ 2 * leastNormal := Nat.ne_of_lt h.below
  simp only [carried, hne, if_false]
  exact if_neg (not_lt.mpr h.greatest)

theorem carried_of_full (negative : Bool) {e : Int} (h : e ≤ maxExponent) :
    carried negative (2 * leastNormal) (e - 1) = .finite negative leastNormal e := by
  simp only [carried, if_true, sub_add_cancel]
  exact if_neg (not_lt.mpr h)

/-- A fraction in the interval around `m · 2 ^ q` is rounded to `m`. -/
theorem round_scaled {n d m : Nat} {q : Int} (hd : 0 < d)
    (hlow : ((m : ℚ) - 1 / 2) * 2 ^ q ≤ n / d) (hhigh : (n / d : ℚ) ≤ (m + 1 / 2) * 2 ^ q)
    (hodd : m % 2 = 1 → ((m : ℚ) - 1 / 2) * 2 ^ q < n / d ∧ (n / d : ℚ) < (m + 1 / 2) * 2 ^ q) :
    roundHalfEven (scale 2 n d (-q)).1 (scale 2 n d (-q)).2 = m := by
  have hratio : ((scale 2 n d (-q)).1 / (scale 2 n d (-q)).2 : ℚ) = n / d / 2 ^ q := by
    rw [show ((scale 2 n d (-q)).1 / (scale 2 n d (-q)).2 : ℚ) = ratio (scale 2 n d (-q)) from rfl,
      ratio_scale two_pos n d (-q), zpow_neg, ← div_eq_mul_inv, Nat.cast_two]
  have hpos : (0 : ℚ) < 2 ^ q := by positivity
  apply roundHalfEven_eq (scale_den_pos two_pos hd n (-q))
  · rwa [hratio, le_div_iff₀ hpos]
  · rwa [hratio, div_le_iff₀ hpos]
  · rw [hratio, lt_div_iff₀ hpos, div_lt_iff₀ hpos]
    exact hodd

theorem Near.pos {m : Nat} {e : Int} {v : ℚ} (h : Near m e v) (hm : 0 < m) : 0 < v := by
  have hone : (1 : ℚ) ≤ m := by exact_mod_cast hm
  refine lt_of_lt_of_le ?_ h.low
  rcases gapBelow_cases m e with hgap | hgap
  all_goals
    rw [hgap]
    have hdiff : (0 : ℚ) < m - 1 / 2 := by linarith
    have hdiff' : (0 : ℚ) < m - 1 / 4 := by linarith
    positivity

theorem leastNormal_cast : (leastNormal : ℚ) = 2 ^ 52 := by norm_num [leastNormal]

theorem IsDouble.lt_cast {m : Nat} {e : Int} (h : IsDouble m e) : (m : ℚ) + 1 ≤ 2 ^ 53 := by
  have hcast : ((m + 1 : Nat) : ℚ) ≤ (2 * leastNormal : Nat) := by exact_mod_cast h.below
  push_cast [leastNormal_cast] at hcast
  linarith

theorem IsDouble.high_lt {m : Nat} {e : Int} (h : IsDouble m e) :
    ((m : ℚ) + 1 / 2) * 2 ^ e < 2 ^ (e + (53 : Nat)) := by
  have hbound := h.lt_cast
  rw [zpow_add₀ two_ne_zero, zpow_natCast, mul_comm]
  gcongr
  linarith

/-- Above the least mantissa, or at the least exponent, the interval reaches one half down. -/
theorem Near.half {m : Nat} {e : Int} {v : ℚ} (h : Near m e v) :
    ((m : ℚ) - 1 / 2) * 2 ^ e ≤ v ∧ (m % 2 = 1 → ((m : ℚ) - 1 / 2) * 2 ^ e < v) := by
  have hgap : ((m : ℚ) - 1 / 2) * 2 ^ e ≤ (m - gapBelow m e) * 2 ^ e := by
    have hle : gapBelow m e ≤ 1 / 2 := by
      rcases gapBelow_cases m e with hgap | hgap <;> rw [hgap]
      norm_num
    gcongr
  exact ⟨hgap.trans h.low, fun hodd => hgap.trans_lt (h.odd hodd).1⟩

/-- Every number that is nearer to a double than to its neighbours is rounded to it. -/
theorem ofRatio_of_near {m n d : Nat} {e : Int} (h : IsDouble m e) (hm : 0 < m) (hd : 0 < d)
    (hnear : Near m e (n / d)) (negative : Bool) :
    Double.ofRatio negative n d = .finite negative m e := by
  have hn : 0 < n := by
    have hpos := hnear.pos hm
    rw [div_pos_iff_of_pos_right (by exact_mod_cast hd)] at hpos
    exact_mod_cast hpos
  have hunit : (0 : ℚ) < 2 ^ e := by positivity
  have hleast := h.least
  have hshift : ∀ k : Nat, (2 : ℚ) ^ (e + k) = 2 ^ k * 2 ^ e := by
    intro k
    rw [zpow_add₀ two_ne_zero, zpow_natCast, mul_comm]
  rw [ofRatio_eq_carried negative hn]
  by_cases hcut : (2 : ℚ) ^ (e + (52 : Nat)) ≤ n / d ∨ e = minExponent
  · -- the exponent is found at once, and the mantissa is rounded in units of it
    have hplace : max (floorLog2 n d - 52) minExponent = e := by
      obtain ⟨hlow, hhigh⟩ := floorLog2_spec hn hd
      have htop : (n / d : ℚ) < 2 ^ (e + (53 : Nat)) := hnear.high.trans_lt h.high_lt
      have hle := (zpow_lt_zpow_iff_right₀ one_lt_two).mp (hlow.trans_lt htop)
      rcases hcut with hcut | rfl
      · have hge := (zpow_lt_zpow_iff_right₀ one_lt_two).mp (hcut.trans_lt hhigh)
        omega
      · omega
    rw [hplace, round_scaled hd hnear.half.1 hnear.high
      fun hodd => ⟨hnear.half.2 hodd, (hnear.odd hodd).2⟩]
    exact carried_of_isDouble negative h
  · -- below a power of two the mantissa is rounded up to the next place
    obtain ⟨hcut, hne⟩ := not_or.mp hcut
    rw [not_le, hshift] at hcut
    have hlow := hnear.low
    obtain rfl : m = leastNormal := by
      have hge := h.full.resolve_left hne
      have hlt : (m : ℚ) < leastNormal + 1 := by
        have hgap : ((m : ℚ) - gapBelow m e) * 2 ^ e < 2 ^ 52 * 2 ^ e := hlow.trans_lt hcut
        have hdiff := lt_of_mul_lt_mul_right hgap hunit.le
        rw [leastNormal_cast]
        rcases gapBelow_cases m e with hgap | hgap <;> rw [hgap] at hdiff <;> linarith
      norm_cast at hlt
      omega
    have hgap : gapBelow leastNormal e = 1 / 4 := if_pos ⟨rfl, by omega⟩
    rw [hgap, leastNormal_cast] at hlow
    have hplace : floorLog2 n d = e + (51 : Nat) := by
      apply floorLog2_eq hn hd
      · rw [hshift]
        refine le_trans ?_ hlow
        gcongr
        norm_num
      · rw [add_assoc, show ((51 : Nat) : Int) + 1 = (52 : Nat) from rfl, hshift]
        exact hcut
    have hbelow : max (floorLog2 n d - 52) minExponent = e - 1 := by omega
    have hhalf : (2 : ℚ) ^ (e - 1) = 2 ^ e / 2 := by rw [zpow_sub_one₀ two_ne_zero]; ring
    rw [hbelow, round_scaled (m := 2 * leastNormal) hd]
    · exact carried_of_full negative h.greatest
    · rw [hhalf]
      push_cast [leastNormal_cast]
      linarith
    · rw [hhalf]
      push_cast [leastNormal_cast]
      linarith
    · intro hodd
      omega

theorem carried_cases (negative : Bool) {m : Nat} {q : Int} (hleast : minExponent ≤ q)
    (hbelow : m ≤ 2 * leastNormal) (hfull : q = minExponent ∨ leastNormal ≤ m) :
    carried negative m q = .infinite negative ∨
      ∃ m' e, IsDouble m' e ∧ carried negative m q = .finite negative m' e := by
  have hnormal : leastNormal < 2 * leastNormal := by decide
  unfold carried
  dsimp only
  by_cases hcarry : m = 2 * leastNormal
  · rw [if_pos hcarry]
    by_cases hmax : maxExponent < q + 1
    · exact .inl (if_pos hmax)
    · refine .inr ⟨leastNormal, q + 1, ⟨by omega, by omega, hnormal, .inr le_rfl⟩, if_neg hmax⟩
  · rw [if_neg hcarry]
    by_cases hmax : maxExponent < q
    · exact .inl (if_pos hmax)
    · exact .inr ⟨m, q, ⟨hleast, by omega, by omega, hfull⟩, if_neg hmax⟩

/-- What a fraction is rounded to. -/
theorem ofRatio_cases (negative : Bool) (n : Nat) {d : Nat} (hd : 0 < d) :
    Double.ofRatio negative n d = .infinite negative ∨
      ∃ m e, IsDouble m e ∧ Double.ofRatio negative n d = .finite negative m e := by
  rcases Nat.eq_zero_or_pos n with rfl | hn
  · exact .inr ⟨0, minExponent, ⟨le_rfl, by decide, by decide, .inl rfl⟩, rfl⟩
  obtain ⟨hlow, hhigh⟩ := floorLog2_spec hn hd
  rw [ofRatio_eq_carried negative hn]
  generalize hq : max (floorLog2 n d - 52) minExponent = q
  have hratio : ((scale 2 n d (-q)).1 / (scale 2 n d (-q)).2 : ℚ) = n / d * 2 ^ (-q) :=
    ratio_scale two_pos n d (-q)
  obtain ⟨hnear, hnear'⟩ := roundHalfEven_near (scale 2 n d (-q)).1
    (scale_den_pos two_pos hd n (-q))
  rw [hratio] at hnear hnear'
  generalize roundHalfEven (scale 2 n d (-q)).1 (scale 2 n d (-q)).2 = m at hnear hnear'
  apply carried_cases negative (by omega)
  · have hlt : (n / d * 2 ^ (-q) : ℚ) < 2 ^ 53 := by
      calc (n / d * 2 ^ (-q) : ℚ) < 2 ^ (floorLog2 n d + 1) * 2 ^ (-q) := by gcongr
        _ = 2 ^ (floorLog2 n d + 1 - q) := by rw [← zpow_add₀ two_ne_zero, sub_eq_add_neg]
        _ ≤ 2 ^ (53 : Int) := zpow_le_zpow_right₀ one_le_two (by omega)
        _ = 2 ^ 53 := by norm_num
    have hm : (m : ℚ) < (2 * leastNormal : Nat) + 1 := by
      push_cast [leastNormal_cast]
      linarith
    norm_cast at hm
    omega
  · by_cases hmin : q = minExponent
    · exact .inl hmin
    · have hge : (2 ^ 52 : ℚ) ≤ n / d * 2 ^ (-q) := by
        calc (2 ^ 52 : ℚ) = 2 ^ (floorLog2 n d - q) := by
              rw [show floorLog2 n d - q = (52 : Nat) by omega, zpow_natCast]
          _ = 2 ^ floorLog2 n d * 2 ^ (-q) := by rw [← zpow_add₀ two_ne_zero, sub_eq_add_neg]
          _ ≤ n / d * 2 ^ (-q) := by gcongr
      have hm : (leastNormal : ℚ) < m + 1 := by
        rw [leastNormal_cast]
        linarith
      norm_cast at hm
      exact .inr (by omega)

/-! ## Decimals to doubles -/

theorem length_toDigits_bounds {n : Nat} (hn : 0 < n) :
    (10 : ℚ) ^ ((Nat.toDigits 10 n).length - 1 : Int) ≤ n ∧
      (n : ℚ) < 10 ^ ((Nat.toDigits 10 n).length : Int) := by
  have hpos : 0 < (Nat.toDigits 10 n).length := Nat.length_toDigits_pos
  have hiff := fun {k : Nat} (hk : 0 < k) =>
    Nat.length_toDigits_le_iff (b := 10) (n := n) (k := k) (by omega) hk
  generalize (Nat.toDigits 10 n).length = length at *
  obtain ⟨k, rfl⟩ : ∃ k, length = k + 1 := ⟨length - 1, by omega⟩
  constructor
  · have hle : 10 ^ k ≤ n := by
      rcases Nat.eq_zero_or_pos k with rfl | hk
      · exact hn
      · have hnot := mt (hiff hk).mpr (by omega)
        omega
    rw [Nat.cast_succ, add_sub_cancel_right, zpow_natCast]
    exact_mod_cast hle
  · have hlt : n < 10 ^ (k + 1) := (hiff hpos).mp le_rfl
    rw [zpow_natCast]
    exact_mod_cast hlt

/-- Numbers near doubles have their first digit well inside the places that are looked at. -/
theorem Near.bounds {m : Nat} {e : Int} {v : ℚ} (h : Near m e v) (hdouble : IsDouble m e)
    (hm : 0 < m) : (10 : ℚ) ^ (-400 : Int) ≤ v ∧ v < 10 ^ (400 : Int) := by
  have hpow : (2 : ℚ) ^ (1200 : Int) ≤ 10 ^ (400 : Int) := by
    calc (2 : ℚ) ^ (1200 : Int) = (2 ^ (3 : Int)) ^ (400 : Int) := by rw [← zpow_mul]; rfl
      _ ≤ 10 ^ (400 : Int) := by
        apply zpow_le_zpow_left₀ <;> norm_num
  have hleast := hdouble.least
  have hgreatest := hdouble.greatest
  unfold minExponent at hleast
  unfold maxExponent at hgreatest
  constructor
  · have hone : (1 : ℚ) ≤ m := by exact_mod_cast hm
    calc (10 : ℚ) ^ (-400 : Int) = (10 ^ (400 : Int))⁻¹ := zpow_neg _ _
      _ ≤ (2 ^ (1200 : Int))⁻¹ := by gcongr
      _ = 2 ^ (-1200 : Int) := (zpow_neg _ _).symm
      _ ≤ 2 ^ (e - 1) := zpow_le_zpow_right₀ one_le_two (by omega)
      _ = 1 / 2 * 2 ^ e := by rw [zpow_sub_one₀ two_ne_zero]; ring
      _ ≤ (m - 1 / 2) * 2 ^ e := by gcongr; linarith
      _ ≤ v := h.half.1
  · calc v ≤ (m + 1 / 2) * 2 ^ e := h.high
      _ < 2 ^ (e + (53 : Nat)) := hdouble.high_lt
      _ ≤ 2 ^ (1200 : Int) := zpow_le_zpow_right₀ one_le_two (by omega)
      _ ≤ 10 ^ (400 : Int) := hpow

/-- A decimal that is nearer to a double than to its neighbours is read as it. -/
theorem ofDecimal_of_near {m digits : Nat} {e exponent : Int} (h : IsDouble m e) (hm : 0 < m)
    (hnear : Near m e (digits * 10 ^ exponent)) (negative : Bool) :
    Double.ofDecimal negative digits exponent = .finite negative m e := by
  have hpos := hnear.pos hm
  have hdigits : 0 < digits := by
    refine Nat.pos_of_ne_zero ?_
    rintro rfl
    simp at hpos
  obtain ⟨hleast, hmost⟩ := hnear.bounds h hm
  obtain ⟨hlow, hhigh⟩ := length_toDigits_bounds hdigits
  rw [Double.ofDecimal, if_neg (by omega)]
  dsimp only
  generalize ((Nat.toDigits 10 digits).length : Int) = length at *
  have hplace : length + exponent ≤ 400 := by
    have hlt : (10 : ℚ) ^ (length - 1 + exponent) < 10 ^ (400 : Int) := by
      rw [zpow_add₀ (by norm_num)]
      exact lt_of_le_of_lt (by gcongr) hmost
    have := (zpow_lt_zpow_iff_right₀ (by norm_num)).mp hlt
    omega
  have hplace' : -400 ≤ length + exponent := by
    have hlt : (10 : ℚ) ^ (-400 : Int) < 10 ^ (length + exponent) := by
      rw [zpow_add₀ (by norm_num)]
      exact lt_of_le_of_lt hleast (by gcongr)
    exact ((zpow_lt_zpow_iff_right₀ (by norm_num)).mp hlt).le
  rw [if_neg (by omega), if_neg (by omega), scale10_eq]
  apply ofRatio_of_near h hm (scale_den_pos (by omega) one_pos digits exponent)
  have hratio : ((scale 10 digits 1 exponent).1 / (scale 10 digits 1 exponent).2 : ℚ) =
      digits / (1 : Nat) * (10 : Nat) ^ exponent := ratio_scale (by omega) digits 1 exponent
  rw [hratio]
  simpa using hnear

/-- What a decimal is read as. -/
theorem ofDecimal_cases (negative : Bool) (digits : Nat) (exponent : Int) :
    Double.ofDecimal negative digits exponent = .infinite negative ∨
      ∃ m e, IsDouble m e ∧ Double.ofDecimal negative digits exponent = .finite negative m e := by
  have hzero : IsDouble 0 minExponent := ⟨le_rfl, by decide, by decide, .inl rfl⟩
  unfold Double.ofDecimal
  dsimp only
  split_ifs
  · exact .inr ⟨0, minExponent, hzero, rfl⟩
  · exact .inl rfl
  · exact .inr ⟨0, minExponent, hzero, rfl⟩
  · exact ofRatio_cases negative _ (scale_den_pos (by omega) one_pos digits exponent)

end LiveLisp.Decimal
