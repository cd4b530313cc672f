import LiveLisp.Files.Name
import LiveLisp.Proofs.Files.Pathname
import LiveLisp.Proofs.Text.Utf8
/-!
# How file names are shown

A name that is text is shown as it is.  Any other is shown with the replacement character in it,
under the name of another file; it is still one name, without slashes and not a dot or two.
-/

namespace LiveLisp.Files

open Text

/-- The bytes of the name are those of a text. -/
def IsText (name : String) : Prop := '\x00' ∉ name.toList

instance (name : String) : Decidable (IsText name) := inferInstanceAs (Decidable (_ ∉ _))

namespace Name

theorem byteOf?_eq_some {c : Char} {b : UInt8} (h : byteOf? c = some b) : 0x80 ≤ b.toNat := by
  unfold byteOf? at h
  split at h
  · next hc =>
    rw [← Option.some.inj h, Utf8.toNat_byte (by omega)]
    exact hc.1
  · contradiction

theorem bytesFrom_of_isText {cs : List Char} (h : '\x00' ∉ cs) :
    bytesFrom cs = cs.flatMap String.utf8EncodeChar := by
  fun_induction bytesFrom cs with
  | case1 => rfl
  | case2 c => simp
  | case3 c d rest b hb ih =>
    rw [if_neg (by rintro rfl; simp at h)] at hb
    contradiction
  | case4 c d rest _ ih =>
    rw [ih fun hmem => h (List.mem_cons_of_mem _ hmem), ← List.flatMap_cons]

/-- The name of a file that is text is shown as it is. -/
theorem shown_of_isText {name : String} (h : IsText name) : shown name = name := by
  have hencode := Utf8.encode_ofList name.toList
  rw [String.ofList_toList] at hencode
  rw [shown, bytes, bytesFrom_of_isText h, ← hencode, Utf8.decodeLossy_encode]

theorem mem_of_mem_bytesFrom {d : Char} (hd : d.toNat < 0x80) {cs : List Char}
    (h : UInt8.ofNat d.toNat ∈ bytesFrom cs) : d ∈ cs := by
  have hbyte : (UInt8.ofNat d.toNat).toNat = d.toNat := Utf8.toNat_byte (by omega)
  have hplain : ∀ {c : Char}, UInt8.ofNat d.toNat ∈ String.utf8EncodeChar c → d = c := by
    intro c hc
    have hval := (Utf8.mem_utf8EncodeChar_iff (by rw [hbyte]; exact hd) c).mp hc
    exact Char.ext (UInt32.toNat_inj.mp (hval.trans hbyte).symm)
  fun_induction bytesFrom cs with
  | case1 => contradiction
  | case2 c => exact List.mem_singleton.mpr (hplain h)
  | case3 c e rest b hb ih =>
    rcases List.mem_cons.mp h with h | h
    · have hhigh : 0x80 ≤ b.toNat := by
        split at hb
        · exact byteOf?_eq_some hb
        · contradiction
      rw [← h, hbyte] at hhigh
      omega
    · exact List.mem_cons_of_mem _ (List.mem_cons_of_mem _ (ih h))
  | case4 c e rest hnone ih =>
    rcases List.mem_append.mp h with h | h
    · exact List.mem_cons.mpr (.inl (hplain h))
    · exact List.mem_cons_of_mem _ (ih h)

/-- A null character in a name is a byte that no ASCII character but itself has. -/
theorem exists_byte_of_null {cs : List Char} (h : '\x00' ∈ cs) :
    ∃ b ∈ bytesFrom cs, b = 0 ∨ 0x80 ≤ b.toNat := by
  fun_induction bytesFrom cs with
  | case1 => contradiction
  | case2 c =>
    rw [← List.mem_singleton.mp h]
    exact ⟨0, by decide, .inl rfl⟩
  | case3 c d rest b hb ih =>
    refine ⟨b, List.mem_cons_self, .inr ?_⟩
    split at hb
    · exact byteOf?_eq_some hb
    · contradiction
  | case4 c d rest _ ih =>
    rcases List.mem_cons.mp h with rfl | h
    · exact ⟨0, List.mem_append_left _ (by decide), .inl rfl⟩
    · obtain ⟨b, hmem, hb⟩ := ih h
      exact ⟨b, List.mem_append_right _ hmem, hb⟩

/-- A name that is shown as ASCII characters is made of them. -/
theorem eq_of_shown_ascii {name : String} {cs : List Char}
    (hcs : ∀ c ∈ cs, 0 < c.toNat ∧ c.toNat < 0x80) (h : shown name = String.ofList cs) :
    name = String.ofList cs := by
  have hbytes := Utf8.eq_of_decodeLossy_ascii (fun c hc => (hcs c hc).2) h
  have htext : IsText name := by
    intro hnull
    obtain ⟨b, hmem, hb⟩ := exists_byte_of_null hnull
    rw [show bytesFrom name.toList = _ from hbytes] at hmem
    obtain ⟨c, hc, rfl⟩ := List.mem_map.mp hmem
    obtain ⟨hpos, hlt⟩ := hcs c hc
    rw [← UInt8.toNat_inj, Utf8.toNat_byte (by omega)] at hb
    change c.toNat = 0 ∨ _ at hb
    omega
  rw [← h, shown_of_isText htext]

theorem isFileName_shown {name : String} (h : IsFileName name) : IsFileName (shown name) := by
  obtain ⟨hempty, hcurrent, hparent, hslash⟩ := h
  have hdot : 0 < '.'.toNat ∧ '.'.toNat < 0x80 := by decide
  have hone : ∀ c ∈ ['.'], 0 < c.toNat ∧ c.toNat < 0x80 := List.forall_mem_singleton.mpr hdot
  refine ⟨fun heq => hempty ?_, fun heq => hcurrent ?_, fun heq => hparent ?_,
    fun hmem => hslash ?_⟩
  · exact eq_of_shown_ascii (List.forall_mem_nil _) heq
  · exact eq_of_shown_ascii hone heq
  · exact eq_of_shown_ascii (List.forall_mem_cons.mpr ⟨hdot, hone⟩) heq
  · exact mem_of_mem_bytesFrom (by decide) (Utf8.mem_of_mem_decodeLossy (by decide) hmem)

end Name

end LiveLisp.Files
