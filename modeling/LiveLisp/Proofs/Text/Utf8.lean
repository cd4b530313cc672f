import LiveLisp.Text.Utf8
/-!
# The bytes of a text

The bytes of a text are those of its characters, one after the other; an ASCII character is its
own byte.  Decoding finds the characters again.
-/

namespace LiveLisp.Text.Utf8

private theorem reverse_append_drop_eq_loop (bs : ByteArray) (i : Nat) (acc : List UInt8) :
    ByteArray.toList.loop bs i acc = acc.reverse ++ bs.data.toList.drop i := by
  fun_induction ByteArray.toList.loop bs i acc with
  | case1 i acc hi ih =>
    have hi' : i < bs.data.toList.length := by simpa using hi
    have hget : bs.get! i = bs.data.toList[i] := by
      simp [ByteArray.get!, getElem!_pos bs.data i hi]
    rw [ih, List.reverse_cons, List.append_assoc, List.drop_eq_getElem_cons hi', hget]
    rfl
  | case2 i acc hi =>
    have hi' : bs.data.toList.length ≤ i := by simpa using hi
    rw [List.drop_eq_nil_of_le hi', List.append_nil]

theorem toList_eq_data (bs : ByteArray) : bs.toList = bs.data.toList := by
  rw [ByteArray.toList, reverse_append_drop_eq_loop]
  rfl

/-- The bytes of a text are the bytes of its characters. -/
theorem encode_ofList (cs : List Char) :
    encode (String.ofList cs) = cs.flatMap String.utf8EncodeChar := by
  rw [encode, toList_eq_data]
  exact List.toList_data_toByteArray

/-- A text of ASCII characters has one byte for each. -/
theorem encode_ascii {cs : List Char} (h : ∀ c ∈ cs, c.toNat < 128) :
    encode (String.ofList cs) = cs.map fun c => UInt8.ofNat c.toNat := by
  rw [encode_ofList]
  induction cs with
  | nil => rfl
  | cons c cs ih =>
    have hc : c.val.toNat ≤ 0x7f := Nat.le_of_lt_succ (h c (by simp))
    rw [List.flatMap_cons, ih (fun d hd => h d (by simp [hd])), List.map_cons]
    simp only [String.utf8EncodeChar, hc, if_true]
    rfl

/-- An ASCII byte stands for its own character, and for no part of another. -/
theorem mem_utf8EncodeChar_iff {b : UInt8} (hb : b.toNat < 0x80) (c : Char) :
    b ∈ String.utf8EncodeChar c ↔ c.val.toNat = b.toNat := by
  have hbyte : ∀ {n : Nat}, n < 256 → (b = UInt8.ofNat n ↔ b.toNat = n) := by
    intro n hn
    rw [← UInt8.toNat_inj, UInt8.toNat_ofNat', Nat.mod_eq_of_lt hn]
  unfold String.utf8EncodeChar
  simp only
  generalize c.val.toNat = v
  split
  · rw [List.mem_singleton, hbyte (by omega)]
    exact eq_comm
  · split
    · simp only [List.mem_cons, List.not_mem_nil, or_false]
      rw [hbyte (by omega), hbyte (by omega)]
      omega
    · split
      · simp only [List.mem_cons, List.not_mem_nil, or_false]
        rw [hbyte (by omega), hbyte (by omega), hbyte (by omega)]
        omega
      · simp only [List.mem_cons, List.not_mem_nil, or_false]
        rw [hbyte (by omega), hbyte (by omega), hbyte (by omega), hbyte (by omega)]
        omega

/-- A text has the byte of an ASCII character exactly if it has the character. -/
theorem mem_encode_iff {d : Char} (hd : d.toNat < 0x80) (text : String) :
    UInt8.ofNat d.toNat ∈ encode text ↔ d ∈ text.toList := by
  have hbyte : (UInt8.ofNat d.toNat).toNat = d.toNat := by
    rw [UInt8.toNat_ofNat', Nat.mod_eq_of_lt (by omega)]
  have hself : ∀ c : Char, c.val.toNat = d.toNat ↔ c = d := by
    intro c
    constructor
    · intro h
      exact Char.ext (UInt32.toNat_inj.mp h)
    · rintro rfl
      rfl
  have hencode := encode_ofList text.toList
  rw [String.ofList_toList] at hencode
  rw [hencode, List.mem_flatMap]
  simp only [mem_utf8EncodeChar_iff (hbyte ▸ hd), hbyte, hself, exists_eq_right]

/-! ## Decoding -/

theorem isContinuation_iff (b : UInt8) :
    isContinuation b = true ↔ 0x80 ≤ b.toNat ∧ b.toNat ≤ 0xbf := by
  simp [isContinuation, UInt8.le_iff_toNat_le]

theorem isSecondOfThree_iff (first second : UInt8) :
    isSecondOfThree first second = true ↔
      (if first.toNat = 0xe0 then 0xa0 else 0x80) ≤ second.toNat ∧
        second.toNat ≤ (if first.toNat = 0xed then 0x9f else 0xbf) := by
  simp only [isSecondOfThree, beq_iff_eq, ← UInt8.toNat_inj]
  by_cases hlow : first.toNat = 0xe0
  · simp [hlow, UInt8.le_iff_toNat_le]
  · by_cases hhigh : first.toNat = 0xed <;>
      simp [hlow, hhigh, UInt8.le_iff_toNat_le, isContinuation_iff]

theorem isSecondOfFour_iff (first second : UInt8) :
    isSecondOfFour first second = true ↔
      (if first.toNat = 0xf0 then 0x90 else 0x80) ≤ second.toNat ∧
        second.toNat ≤ (if first.toNat = 0xf4 then 0x8f else 0xbf) := by
  simp only [isSecondOfFour, beq_iff_eq, ← UInt8.toNat_inj]
  by_cases hlow : first.toNat = 0xf0
  · simp [hlow, UInt8.le_iff_toNat_le]
  · by_cases hhigh : first.toNat = 0xf4 <;>
      simp [hlow, hhigh, UInt8.le_iff_toNat_le, isContinuation_iff]

/-- The character with a code point computed from bytes. -/
theorem ofNat_eq {c : Char} {n : Nat} (h : n = c.val.toNat) : Char.ofNat n = c := by
  rw [h]
  exact Char.ofNat_toNat c

theorem toNat_byte {n : Nat} (h : n < 256) : (UInt8.ofNat n).toNat = n := by
  rw [UInt8.toNat_ofNat', Nat.mod_eq_of_lt h]

theorem not_lt_byte {b c : UInt8} (h : c.toNat ≤ b.toNat) : ¬ b < c := by
  rw [UInt8.lt_iff_toNat_lt]
  omega

theorem not_le_byte {b c : UInt8} (h : c.toNat < b.toNat) : ¬ b ≤ c := by
  rw [UInt8.le_iff_toNat_le]
  omega

/-! One lemma for each number of bytes, with the conditions on the numbers the bytes stand for. -/

theorem piece_one {b : UInt8} (hb : b.toNat < 0x80) (rest : List UInt8) :
    piece b rest = (some (Char.ofNat b.toNat), 0) := by
  have hlead : b < 0x80 := UInt8.lt_iff_toNat_lt.mpr hb
  simp only [piece, hlead, if_true]

theorem piece_two {b c : UInt8} (hb : 0xc2 ≤ b.toNat) (hb' : b.toNat ≤ 0xdf)
    (hc : isContinuation c) (rest : List UInt8) :
    piece b (c :: rest) = (some (Char.ofNat (b.toNat % 32 * 64 + low c)), 1) := by
  have hone : ¬ b < 0x80 := not_lt_byte (Nat.le_trans (by decide) hb)
  have hlead : 0xc2 ≤ b ∧ b ≤ 0xdf := ⟨UInt8.le_iff_toNat_le.mpr hb, UInt8.le_iff_toNat_le.mpr hb'⟩
  simp [piece, hone, hlead, hc]

theorem piece_three {b c d : UInt8} (hb : 0xe0 ≤ b.toNat) (hb' : b.toNat ≤ 0xef)
    (hc : isSecondOfThree b c) (hd : isContinuation d) (rest : List UInt8) :
    piece b (c :: d :: rest) =
      (some (Char.ofNat ((b.toNat % 16 * 64 + low c) * 64 + low d)), 2) := by
  have hone : ¬ b < 0x80 := not_lt_byte (Nat.le_trans (by decide) hb)
  have htwo : ¬ b ≤ 0xdf := not_le_byte (Nat.lt_of_lt_of_le (by decide) hb)
  have hlead : 0xe0 ≤ b ∧ b ≤ 0xef := ⟨UInt8.le_iff_toNat_le.mpr hb, UInt8.le_iff_toNat_le.mpr hb'⟩
  simp [piece, hone, htwo, hlead, hc, hd]

theorem piece_four {b c d e : UInt8} (hb : 0xf0 ≤ b.toNat) (hb' : b.toNat ≤ 0xf4)
    (hc : isSecondOfFour b c) (hd : isContinuation d) (he : isContinuation e)
    (rest : List UInt8) :
    piece b (c :: d :: e :: rest) =
      (some (Char.ofNat (((b.toNat % 8 * 64 + low c) * 64 + low d) * 64 + low e)), 3) := by
  have hone : ¬ b < 0x80 := not_lt_byte (Nat.le_trans (by decide) hb)
  have htwo : ¬ b ≤ 0xdf := not_le_byte (Nat.lt_of_lt_of_le (by decide) hb)
  have hthree : ¬ b ≤ 0xef := not_le_byte (Nat.lt_of_lt_of_le (by decide) hb)
  have hlead : 0xf0 ≤ b ∧ b ≤ 0xf4 := ⟨UInt8.le_iff_toNat_le.mpr hb, UInt8.le_iff_toNat_le.mpr hb'⟩
  simp [piece, hone, htwo, hthree, hlead, hc, hd, he]

/-- The bytes of a character are one piece. -/
theorem piecesFrom_char (c : Char) (rest : List UInt8) :
    piecesFrom 0 (String.utf8EncodeChar c ++ rest) = some c :: piecesFrom 0 rest := by
  have hvalid : c.val.toNat < 0xd800 ∨ 0xdfff < c.val.toNat ∧ c.val.toNat < 0x110000 := c.valid
  have hbyte : ∀ {n : Nat}, n < 256 → (UInt8.ofNat n).toNat = n := toNat_byte
  unfold String.utf8EncodeChar
  simp only
  generalize hv : c.val.toNat = v at hvalid
  split
  · have hb := hbyte (n := v) (by omega)
    have hpiece := piece_one (b := UInt8.ofNat v) (by omega) rest
    rw [ofNat_eq (c := c) (by omega)] at hpiece
    simp only [List.cons_append, List.nil_append, piecesFrom, hpiece]
  · split
    · have hb := hbyte (n := v / 64 % 32 + 0xc0) (by omega)
      have hc := hbyte (n := v % 64 + 0x80) (by omega)
      have hpiece := piece_two (b := UInt8.ofNat (v / 64 % 32 + 0xc0)) (by omega) (by omega)
        ((isContinuation_iff (UInt8.ofNat (v % 64 + 0x80))).mpr (by omega)) rest
      rw [ofNat_eq (c := c) (by simp only [low]; omega)] at hpiece
      simp only [List.cons_append, List.nil_append, piecesFrom, hpiece]
    · split
      · have hb := hbyte (n := v / 4096 % 16 + 0xe0) (by omega)
        have hc := hbyte (n := v / 64 % 64 + 0x80) (by omega)
        have hd := hbyte (n := v % 64 + 0x80) (by omega)
        have hsecond : isSecondOfThree (UInt8.ofNat (v / 4096 % 16 + 0xe0))
            (UInt8.ofNat (v / 64 % 64 + 0x80)) = true := by
          rw [isSecondOfThree_iff, hb, hc]
          constructor <;> split <;> omega
        have hpiece := piece_three (by omega) (by omega) hsecond
          ((isContinuation_iff (UInt8.ofNat (v % 64 + 0x80))).mpr (by omega)) rest
        rw [ofNat_eq (c := c) (by simp only [low]; omega)] at hpiece
        simp only [List.cons_append, List.nil_append, piecesFrom, hpiece]
      · have hb := hbyte (n := v / 262144 % 8 + 0xf0) (by omega)
        have hc := hbyte (n := v / 4096 % 64 + 0x80) (by omega)
        have hd := hbyte (n := v / 64 % 64 + 0x80) (by omega)
        have he := hbyte (n := v % 64 + 0x80) (by omega)
        have hsecond : isSecondOfFour (UInt8.ofNat (v / 262144 % 8 + 0xf0))
            (UInt8.ofNat (v / 4096 % 64 + 0x80)) = true := by
          rw [isSecondOfFour_iff, hb, hc]
          constructor <;> split <;> omega
        have hpiece := piece_four (by omega) (by omega) hsecond
          ((isContinuation_iff (UInt8.ofNat (v / 64 % 64 + 0x80))).mpr (by omega))
          ((isContinuation_iff (UInt8.ofNat (v % 64 + 0x80))).mpr (by omega)) rest
        rw [ofNat_eq (c := c) (by simp only [low]; omega)] at hpiece
        simp only [List.cons_append, List.nil_append, piecesFrom, hpiece]

theorem pieces_encode (cs : List Char) : pieces (encode (String.ofList cs)) = cs.map some := by
  rw [pieces, encode_ofList]
  induction cs with
  | nil => rfl
  | cons c cs ih => rw [List.flatMap_cons, piecesFrom_char, ih, List.map_cons]

/-- The bytes of a text are decoded to it. -/
theorem decode?_encode (text : String) : decode? (encode text) = some text := by
  have hpieces := pieces_encode text.toList
  rw [String.ofList_toList] at hpieces
  have hall : ∀ cs : List Char, (cs.map some).mapM id = some cs := by
    intro cs
    induction cs with
    | nil => rfl
    | cons c cs ih => simp [ih]
  rw [decode?, hpieces, hall, Option.map_some, String.ofList_toList]

/-! ## Lossy decoding -/

theorem decodeLossy_encode (text : String) : decodeLossy (encode text) = text := by
  have hpieces := pieces_encode text.toList
  rw [String.ofList_toList] at hpieces
  rw [decodeLossy, hpieces, List.map_map]
  change String.ofList (text.toList.map id) = text
  rw [List.map_id, String.ofList_toList]

theorem toNat_ofNat {n : Nat} (h : n < 0xd800 ∨ 0xdfff < n ∧ n < 0x110000) :
    (Char.ofNat n).toNat = n := by
  rw [Char.ofNat, dif_pos h]
  rfl

/-- A character of several bytes is not ASCII. -/
theorem piece_not_ascii {b : UInt8} (hb : 0x80 ≤ b.toNat) {rest : List UInt8} {d : Char} :
    (piece b rest).1 = some d → 0x80 ≤ d.toNat := by
  have hbyte := b.toNat_lt
  have hvalue : ∀ {n : Nat}, n < 0xd800 ∨ 0xdfff < n ∧ n < 0x110000 → 0x80 ≤ n →
      some (Char.ofNat n) = some d → 0x80 ≤ d.toNat := by
    intro n hn hle h
    rw [← Option.some.inj h, toNat_ofNat hn]
    exact hle
  fun_cases piece b rest with
  | case1 _ hone => exact absurd hone (not_lt_byte hb)
  | case2 _ htwo c more hc =>
    simp only [Bool.and_eq_true, decide_eq_true_eq, UInt8.le_iff_toNat_le] at htwo
    change 0xc2 ≤ _ ∧ _ ≤ 0xdf at htwo
    exact hvalue (by simp only [low]; omega) (by omega)
  | case5 _ _ hthree c e more hc he =>
    rw [isSecondOfThree_iff] at hc
    simp only [Bool.and_eq_true, decide_eq_true_eq, UInt8.le_iff_toNat_le] at hthree
    change 0xe0 ≤ _ ∧ _ ≤ 0xef at hthree
    split at hc <;> split at hc <;>
      exact hvalue (by simp only [low]; omega) (by simp only [low]; omega)
  | case10 _ _ _ hfour c e f more hc he hf =>
    rw [isSecondOfFour_iff] at hc
    simp only [Bool.and_eq_true, decide_eq_true_eq, UInt8.le_iff_toNat_le] at hfour
    change 0xf0 ≤ _ ∧ _ ≤ 0xf4 at hfour
    split at hc <;> split at hc <;>
      exact hvalue (by simp only [low]; omega) (by simp only [low]; omega)
  | _ => exact nofun

/-- A piece that is an ASCII character is its byte. -/
theorem piece_ascii {b : UInt8} {rest : List UInt8} {d : Char} (hd : d.toNat < 0x80)
    (h : (piece b rest).1 = some d) : b = UInt8.ofNat d.toNat ∧ (piece b rest).2 = 0 := by
  by_cases hb : b.toNat < 0x80
  · rw [piece_one hb] at h ⊢
    rw [← Option.some.inj h, toNat_ofNat (.inl (by omega)), UInt8.ofNat_toNat]
    exact ⟨rfl, rfl⟩
  · exact absurd (piece_not_ascii (by omega) h) (by omega)

/-- An ASCII character among the pieces of a byte string is among its bytes. -/
theorem mem_of_mem_piecesFrom {d : Char} (hd : d.toNat < 0x80) {skip : Nat} {bytes : List UInt8}
    (h : some d ∈ piecesFrom skip bytes) : UInt8.ofNat d.toNat ∈ bytes := by
  induction bytes generalizing skip with
  | nil => contradiction
  | cons b rest ih =>
    cases skip with
    | zero =>
      rcases List.mem_cons.mp h with h | h
      · exact List.mem_cons.mpr (.inl (piece_ascii hd h.symm).1.symm)
      · exact List.mem_cons_of_mem _ (ih h)
    | succ k => exact List.mem_cons_of_mem _ (ih h)

/-- Bytes that are read as ASCII characters are the bytes of these. -/
theorem eq_of_pieces_ascii {cs : List Char} (hcs : ∀ c ∈ cs, c.toNat < 0x80) {bytes : List UInt8}
    (h : pieces bytes = cs.map some) : bytes = cs.map fun c => UInt8.ofNat c.toNat := by
  induction cs generalizing bytes with
  | nil =>
    cases bytes with
    | nil => rfl
    | cons b rest => simp [pieces, piecesFrom] at h
  | cons c cs ih =>
    obtain ⟨hc, hcs⟩ := List.forall_mem_cons.mp hcs
    cases bytes with
    | nil => simp [pieces, piecesFrom] at h
    | cons b rest =>
      rw [pieces, piecesFrom, List.map_cons] at h
      obtain ⟨hfirst, hrest⟩ := List.cons.inj h
      obtain ⟨rfl, hnone⟩ := piece_ascii hc hfirst
      rw [hnone] at hrest
      rw [List.map_cons, ← ih hcs hrest]

/-- The replacement character is not ASCII, so that an ASCII character is a piece of its own. -/
theorem eq_some_of_getD_ascii {p : Option Char} {d : Char} (hd : d.toNat < 0x80)
    (h : p.getD (Char.ofNat 0xfffd) = d) : p = some d := by
  cases p with
  | none =>
    rw [← h] at hd
    exact absurd hd (by decide)
  | some c => exact congrArg some h

/-- A text of ASCII characters is decoded from their bytes only. -/
theorem eq_of_decodeLossy_ascii {cs : List Char} (hcs : ∀ c ∈ cs, c.toNat < 0x80)
    {bytes : List UInt8} (h : decodeLossy bytes = String.ofList cs) :
    bytes = cs.map fun c => UInt8.ofNat c.toNat := by
  have hcs' : (pieces bytes).map (fun p => p.getD (Char.ofNat 0xfffd)) = cs :=
    String.ofList_injective h
  apply eq_of_pieces_ascii hcs
  rw [← hcs', List.map_map]
  refine (List.map_id _).symm.trans (List.map_congr_left fun p hp => ?_)
  have hmem : p.getD (Char.ofNat 0xfffd) ∈ cs := by
    rw [← hcs']
    exact List.mem_map_of_mem hp
  exact eq_some_of_getD_ascii (hcs _ hmem) rfl

theorem mem_of_mem_decodeLossy {d : Char} (hd : d.toNat < 0x80) {bytes : List UInt8}
    (h : d ∈ (decodeLossy bytes).toList) : UInt8.ofNat d.toNat ∈ bytes := by
  rw [decodeLossy, String.toList_ofList] at h
  obtain ⟨p, hp, hpd⟩ := List.mem_map.mp h
  rw [eq_some_of_getD_ascii hd hpd] at hp
  exact mem_of_mem_piecesFrom hd hp

end LiveLisp.Text.Utf8
