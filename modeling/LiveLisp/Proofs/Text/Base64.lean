import LiveLisp.Text.Base64
/-!
# Base 64 is read back

A group of four letters holds three bytes, six bits to a letter.  Only the last group is filled
up, and a letter is never the sign that fills it.
-/

namespace LiveLisp.Text.Base64

theorem letter_mod (n : Nat) : letter (n % 64) = letter n := by
  simp [letter]

theorem value?_letter (n : Nat) : value? (letter n) = some (n % 64) := by
  have hall : ∀ m < 64, value? (letter m) = some m := by decide +kernel
  rw [← letter_mod]
  exact hall (n % 64) (Nat.mod_lt n (by omega))

/-- What stands in no alphabet is no letter. -/
theorem letter_ne {c : Char} (hc : c ∉ alphabet) (n : Nat) : letter n ≠ c := by
  have hmem : letter n ∈ alphabet := by
    have hlt : n % 64 < alphabet.length := Nat.mod_lt n (by decide)
    rw [letter, List.getD_eq_getElem?_getD, List.getElem?_eq_getElem hlt]
    exact List.getElem_mem hlt
  intro h
  exact hc (h ▸ hmem)

theorem letter_ne_filler (n : Nat) : letter n ≠ '=' := letter_ne (by decide) n

/-! ## Groups -/

theorem byte_eq {n : Nat} {b : UInt8} (h : n % 256 = b.toNat) : UInt8.ofNat n = b := by
  apply UInt8.toNat_inj.mp
  rw [UInt8.toNat_ofNat', ← h]

theorem group?_one (a : UInt8) :
    group? (letter (a.toNat * 16 / 64)) (letter (a.toNat * 16)) '=' '=' = some [a] := by
  have ha : a.toNat < 256 := a.toNat_lt
  have hbyte : UInt8.ofNat (a.toNat * 16 / 64 % 64 * 4 + a.toNat * 16 % 64 / 16) = a :=
    byte_eq (by omega)
  simp only [group?, value?_letter, Option.bind_eq_bind, Option.bind_some, if_true, hbyte]
  rfl

theorem group?_two (a b : UInt8) :
    group? (letter ((a.toNat * 256 + b.toNat) * 4 / 4096))
      (letter ((a.toNat * 256 + b.toNat) * 4 / 64)) (letter ((a.toNat * 256 + b.toNat) * 4)) '=' =
      some [a, b] := by
  have ha : a.toNat < 256 := a.toNat_lt
  have hb : b.toNat < 256 := b.toNat_lt
  generalize hn : (a.toNat * 256 + b.toNat) * 4 = n
  have hfirst : UInt8.ofNat (n / 4096 % 64 * 4 + n / 64 % 64 / 16) = a := byte_eq (by omega)
  have hsecond : UInt8.ofNat (n / 64 % 64 * 16 + n % 64 / 4) = b := byte_eq (by omega)
  simp only [group?, value?_letter, Option.bind_eq_bind, Option.bind_some, letter_ne_filler,
    if_true, if_false, hfirst, hsecond]
  rfl

theorem group?_three (a b c : UInt8) {n : Nat}
    (hn : (a.toNat * 256 + b.toNat) * 256 + c.toNat = n) :
    group? (letter (n / 262144)) (letter (n / 4096)) (letter (n / 64)) (letter n) =
      some [a, b, c] := by
  have ha : a.toNat < 256 := a.toNat_lt
  have hb : b.toNat < 256 := b.toNat_lt
  have hc : c.toNat < 256 := c.toNat_lt
  have hfirst : UInt8.ofNat (n / 262144 % 64 * 4 + n / 4096 % 64 / 16) = a := byte_eq (by omega)
  have hsecond : UInt8.ofNat (n / 4096 % 64 * 16 + n / 64 % 64 / 4) = b := byte_eq (by omega)
  have hthird : UInt8.ofNat (n / 64 % 64 * 64 + n % 64) = c := byte_eq (by omega)
  simp only [group?, value?_letter, Option.bind_eq_bind, Option.bind_some, letter_ne_filler,
    if_false, hfirst, hsecond, hthird]
  rfl

/-! ## Byte strings -/

/-- The letters of a byte string are decoded to it. -/
theorem decodeBytes?_encodeBytes (bytes : List UInt8) :
    decodeBytes? (encodeBytes bytes) = some bytes := by
  fun_induction encodeBytes bytes with
  | case1 => rfl
  | case2 a n => exact group?_one a
  | case3 a b n => exact group?_two a b
  | case4 a b c rest n ih =>
    have hgroup := group?_three a b c (n := n) rfl
    -- a full group at the end is read by the case of the last group
    cases hmore : encodeBytes rest with
    | nil =>
      rw [hmore] at ih
      obtain rfl : rest = [] := (Option.some.inj ih).symm
      exact hgroup
    | cons d more =>
      rw [hmore] at ih
      rw [decodeBytes?]
      · simp [letter_ne_filler, hgroup, ih]
      · simp

/-- Every character of the letters belongs to the alphabet or fills the last group up. -/
theorem not_mem_encodeBytes {c : Char} (hc : c ∉ alphabet) (hfiller : c ≠ '=')
    (bytes : List UInt8) : c ∉ encodeBytes bytes := by
  have hletter : ∀ n, c ≠ letter n := fun n => (letter_ne hc n).symm
  fun_induction encodeBytes bytes with
  | case1 => simp
  | case2 a n => simp [hletter, hfiller]
  | case3 a b n => simp [hletter, hfiller]
  | case4 a b c rest n ih => simp [hletter, ih]

end LiveLisp.Text.Base64
