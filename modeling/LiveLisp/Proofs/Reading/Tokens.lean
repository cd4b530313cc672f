import LiveLisp.Proofs.Reading.Steps
import LiveLisp.Proofs.Text.Digits
import Mathlib.Data.List.TakeDrop
/-!
# Printed tokens

A value that was read from a token is printed as a token that stands for it.  Symbols and keywords
are printed as they were written; an integer may have been written in another way.
-/

namespace LiveLisp

open Decimal (signText)
open Text

/-- A token is printed as it was written, wherever it was split. -/
theorem Symbol.render_ofChars (token : List Char) :
    (Symbol.ofChars token).render = String.ofList token := by
  have hsplit : token.takeWhile (· ≠ '/') ++ token.dropWhile (· ≠ '/') = token :=
    List.takeWhile_append_dropWhile
  unfold Symbol.ofChars
  rw [List.span_eq_takeWhile_dropWhile]
  split
  · next n ns slash m name heq =>
    obtain ⟨htake, hdrop⟩ := Prod.mk.inj heq
    have hslash : slash = '/' := by
      have hne : token.dropWhile (· ≠ '/') ≠ [] := by rw [hdrop]; simp
      have hhead := List.head_dropWhile_not (· ≠ '/') hne
      simp only [hdrop, List.head_cons] at hhead
      simpa using hhead
    rw [htake, hdrop, hslash] at hsplit
    rw [← hsplit]
    simp [Symbol.render, String.ofList_append, String.append_assoc]
  · rfl

namespace Reading

theorem splitSign_of_digit {d : Char} {ds : List Char} (hd : d.isDigit = true) :
    splitSign (d :: ds) = (false, d :: ds) := by
  unfold splitSign
  split
  · next heq =>
    rw [(List.cons.inj heq).1] at hd
    exact absurd hd (by decide)
  · next heq =>
    rw [(List.cons.inj heq).1] at hd
    exact absurd hd (by decide)
  · rfl

section Digits

variable {whole : List Char} (hne : whole ≠ []) (hwhole : ∀ c ∈ whole, c.isDigit = true)
  (negative : Bool)

include hne hwhole

theorem splitSign_signText (tail : List Char) :
    splitSign (signText negative ++ (whole ++ tail)) = (negative, whole ++ tail) := by
  obtain ⟨d, ds, rfl⟩ := List.exists_cons_of_ne_nil hne
  cases negative with
  | true => rfl
  | false => exact splitSign_of_digit (hwhole d (by simp))

/-- Digits alone are read as an integer if it fits in 64 bits. -/
theorem integer?_whole :
    integer? (signText negative ++ whole) =
      let n : Int :=
        if negative then -(Nat.ofDigitChars 10 whole 0 : Int) else Nat.ofDigitChars 10 whole 0
      if fitsInt64 n then some n else none := by
  have hall : whole.all Char.isDigit = true := List.all_eq_true.mpr hwhole
  have hempty : whole.isEmpty = false := List.isEmpty_eq_false_iff.mpr hne
  have hsplit := splitSign_signText hne hwhole negative []
  rw [List.append_nil] at hsplit
  simp [integer?, hsplit, hall, hempty]

theorem isNumeric_signText (tail : List Char) :
    isNumeric (signText negative ++ (whole ++ tail)) = true := by
  obtain ⟨d, ds, rfl⟩ := List.exists_cons_of_ne_nil hne
  have hd := hwhole d (by simp)
  cases negative <;> simp [signText, isNumeric, hd]

end Digits

theorem toList_toString_signText (n : Int) :
    (toString n).toList = signText (decide (n < 0)) ++ Nat.toDigits 10 n.natAbs := by
  rw [toList_toString_int, signText]
  simp only [decide_eq_true_eq]

/-- The digits of an integer are read as the integer. -/
theorem integer?_toString {n : Int} (hn : fitsInt64 n = true) :
    integer? (toString n).toList = some n := by
  have hvalue : (if decide (n < 0) then -(n.natAbs : Int) else n.natAbs) = n := by
    simp only [decide_eq_true_eq]
    split <;> omega
  rw [toList_toString_signText,
    integer?_whole Nat.toDigits_ne_nil fun c hc => isDigit_of_mem_toDigits_ten hc,
    Nat.ofDigitChars_ten_toDigits]
  simp only [hvalue, hn, if_true]

/-- A digit or a minus sign ends no token, and no other reading begins with it. -/
theorem beginsToken_of_digit {c : Char} (hc : c.isDigit = true ∨ c = '-') : BeginsToken c := by
  rcases hc with hc | rfl
  · have hbounds : 48 ≤ c.toNat ∧ c.toNat ≤ 57 := Char.isDigit_iff_toNat.mp hc
    have hne : ∀ d : Char, (d.toNat < 48 ∨ 57 < d.toNat) → c ≠ d := by
      rintro d hd rfl
      omega
    have hblank : isBlank c = false := by
      simp [isBlank]
      omega
    simp only [BeginsToken, isTerminator, isSeparator, hblank]
    refine ⟨?_, hne _ ?_, hne _ ?_, hne _ ?_, hne _ ?_, hne _ ?_⟩
    · simp [hne]
    all_goals decide
  · exact ⟨by decide, by decide⟩

theorem isToken_toString (n : Int) : IsToken (toString n).toList := by
  obtain ⟨c, cs, htext, hc⟩ := toList_toString_int_cons n
  refine ⟨⟨c, cs, htext, beginsToken_of_digit hc⟩, ?_⟩
  intro d hd
  refine (beginsToken_of_digit ?_).1
  rw [toList_toString_int] at hd
  rcases List.mem_append.mp hd with hminus | hdigit
  · refine .inr ?_
    split at hminus <;> simp_all
  · exact .inl (isDigit_of_mem_toDigits_ten hdigit)

theorem isNumeric_toString (n : Int) : isNumeric (toString n).toList = true := by
  have hnumeric := isNumeric_signText (Nat.toDigits_ne_nil (n := n.natAbs) (b := 10))
    (fun c hc => isDigit_of_mem_toDigits_ten hc) (decide (n < 0)) []
  rwa [List.append_nil, ← toList_toString_signText] at hnumeric

theorem atom?_of_isNumeric {token : List Char} (h : isNumeric token = true) :
    atom? token = match integer? token with
      | some n => some (.int n)
      | none => (float? token).map .float := by
  have hne : ∀ text : String, isNumeric text.toList = false → token ≠ text.toList := by
    rintro text htext rfl
    rw [h] at htext
    exact absurd htext (by simp)
  exact (if_neg (hne _ rfl)).trans ((if_neg (hne _ rfl)).trans
    ((if_neg (hne _ rfl)).trans (if_pos h)))

theorem atom?_toString {n : Int} (hn : fitsInt64 n = true) :
    atom? (toString n).toList = some (.int n) := by
  rw [atom?_of_isNumeric (isNumeric_toString n), integer?_toString hn]

theorem fitsInt64_of_integer? {token : List Char} {n : Int} (h : integer? token = some n) :
    fitsInt64 n = true := by
  unfold integer? at h
  split at h
  split at h
  · simp at h
  · obtain ⟨hfits, hvalue⟩ := Option.ite_none_right_eq_some.mp h
    exact Option.some.inj hvalue ▸ hfits

/-- Values other than numbers are printed as they were written. -/
theorem render_of_atom? {token : List Char} {a : Atom} (h : atom? token = some a) :
    (∃ n, a = .int n ∧ fitsInt64 n = true) ∨ (∃ x, a = .float x) ∨ a.render.toList = token := by
  unfold atom? at h
  split at h
  · next htoken =>
    obtain rfl := Option.some.inj h
    exact .inr (.inr htoken.symm)
  · split at h
    · next htoken =>
      obtain rfl := Option.some.inj h
      exact .inr (.inr htoken.symm)
    · split at h
      · next htoken =>
        obtain rfl := Option.some.inj h
        exact .inr (.inr htoken.symm)
      · split at h
        · split at h
          · next n hn =>
            obtain rfl := Option.some.inj h
            exact .inl ⟨n, rfl, fitsInt64_of_integer? hn⟩
          · obtain ⟨x, -, rfl⟩ := Option.map_eq_some_iff.mp h
            exact .inr (.inl ⟨x, rfl⟩)
        · split at h
          · split at h
            · obtain rfl := Option.some.inj h
              refine .inr (.inr ?_)
              simp [Atom.render, Symbol.render_ofChars]
            · simp at h
          · obtain rfl := Option.some.inj h
            refine .inr (.inr ?_)
            simp [Atom.render, Symbol.render_ofChars]

/-- A value that was read from a token is printed as a token that stands for it, unless it is a
float. -/
theorem atom?_render {token : List Char} {a : Atom} (htoken : IsToken token)
    (h : atom? token = some a) (ha : ∀ x, a ≠ .float x) :
    IsToken a.render.toList ∧ atom? a.render.toList = some a := by
  rcases render_of_atom? h with ⟨n, rfl, hn⟩ | ⟨x, rfl⟩ | hrender
  · exact ⟨isToken_toString n, atom?_toString hn⟩
  · exact absurd rfl (ha x)
  · rw [hrender]
    exact ⟨htoken, h⟩

end Reading

end LiveLisp
