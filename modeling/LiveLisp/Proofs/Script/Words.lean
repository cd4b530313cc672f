import LiveLisp.Proofs.Script.Balance
/-!
# Characters of one kind in a template

What a node writes itself is words, numbers, names and data.  Where its words and numbers have no
character of some kind, the characters of that kind are those of its names and its data.
-/

namespace LiveLisp.Script

open Analysis (Ast)

/-- The characters of one kind in the texts among segments. -/
def own (p : Char → Bool) (segments : List Segment) : List Char :=
  segments.flatMap fun
    | .text t => t.toList.filter p
    | .part _ => []

/-- The characters of one kind in names. -/
def inNames (p : Char → Bool) (names : List String) : List Char :=
  names.flatMap fun name => name.toList.filter p

/-- The characters of the words between parts, and of the marks in numbers. -/
def wordChars : List Char := "return null;\n, var =.-".toList

/-- Words and numbers have no character of the kind. -/
class Outside (p : Char → Bool) : Prop where
  word : wordChars.filter p = []
  digit : ∀ c, c.isDigit = true → p c = false

section Filter

variable {p : Char → Bool}

theorem filter_eq_nil_of_forall {text : List Char} (h : ∀ c ∈ text, p c = false) :
    text.filter p = [] := by
  rw [List.filter_eq_nil_iff]
  intro c hc
  simp [h c hc]

theorem mem_filter_iff_mem {c : Char} (h : p c = true) {text : List Char} :
    c ∈ text.filter p ↔ c ∈ text := by
  rw [List.mem_filter, and_iff_left h]

theorem not_mem_of_filter {c : Char} (h : p c = true) {text : List Char}
    (htext : text.filter p = []) : c ∉ text := by
  rw [← mem_filter_iff_mem h, htext]
  exact List.not_mem_nil

theorem mem_inNames_iff {c : Char} (h : p c = true) {names : List String} :
    c ∈ inNames p names ↔ ∃ name ∈ names, c ∈ name.toList := by
  simp only [inNames, List.mem_flatMap, mem_filter_iff_mem h]

theorem filter_around {front back : String} (hfront : front.toList.filter p = [])
    (hback : back.toList.filter p = []) (name : String) :
    (front ++ name ++ back).toList.filter p = name.toList.filter p := by
  simp only [String.toList_append, List.filter_append, hfront, hback, List.nil_append,
    List.append_nil]

variable [Outside p]

theorem filter_word {text : List Char} (h : text ⊆ wordChars) : text.filter p = [] := by
  apply filter_eq_nil_of_forall
  intro c hc
  rw [Bool.eq_false_iff]
  intro hkind
  exact not_mem_of_filter hkind Outside.word (h hc)

theorem filter_digits {ds : List Char} (h : ∀ c ∈ ds, c.isDigit = true) : ds.filter p = [] :=
  filter_eq_nil_of_forall fun c hc => Outside.digit c (h c hc)

theorem filter_toString_nat (n : Nat) : (toString n).toList.filter p = [] := by
  rw [Nat.toString_eq_repr, Nat.toList_repr]
  exact filter_digits fun c hc => Text.isDigit_of_mem_toDigits_ten hc

theorem filter_sign (negative : Bool) : (if negative then ['-'] else []).filter p = [] := by
  cases negative with
  | false => rfl
  | true => exact filter_word (by decide)

theorem filter_numeral {whole rest : List Char} (hwhole : ∀ c ∈ whole, c.isDigit = true)
    (hrest : ∀ c ∈ rest, c.isDigit = true) : (numeral whole rest).filter p = [] := by
  have hpoint : ['.'].filter p = [] := filter_word (by decide)
  unfold numeral
  split
  · exact filter_digits hwhole
  · rw [← List.singleton_append, List.filter_append, List.filter_append, hpoint,
      filter_digits hwhole, filter_digits hrest]
    rfl

theorem filter_int (n : Int) : (atomLiteral (.int n)).toList.filter p = [] := by
  have hdigits : (Nat.toDigits 10 n.natAbs).filter p = [] :=
    filter_digits fun c hc => Text.isDigit_of_mem_toDigits_ten hc
  have htext : (atomLiteral (.int n)).toList = _ := Text.toList_toString_int n
  have hsign := filter_sign (p := p) (decide (n < 0))
  rw [htext, List.filter_append, hdigits]
  simpa using hsign

theorem filter_finite (negative : Bool) (m : Nat) (e : Int) :
    (atomLiteral (.float (.finite negative m e))).toList.filter p = [] := by
  obtain ⟨-, hwhole, hrest⟩ := isDigit_of_mem_places (Decimal.shortest .up m e)
  have htext : (atomLiteral (.float (.finite negative m e))).toList =
      (if negative then ['-'] else []) ++ (Decimal.shortest .up m e).positional := by
    simp [atomLiteral, numberLiteral, Decimal.Double.positional, Decimal.signText]
  rw [htext, List.filter_append, filter_sign, Scaled.positional_eq, filter_numeral hwhole hrest]
  rfl

end Filter

section Own

variable {p : Char → Bool}

@[simp] theorem own_nil : own p [] = [] := rfl

@[simp] theorem own_text (t : String) (segments : List Segment) :
    own p (.text t :: segments) = t.toList.filter p ++ own p segments :=
  rfl

@[simp] theorem own_part (a : Ast) (segments : List Segment) :
    own p (.part a :: segments) = own p segments :=
  rfl

@[simp] theorem own_append (xs ys : List Segment) : own p (xs ++ ys) = own p xs ++ own p ys :=
  List.flatMap_append

theorem own_flatMap {α : Type} {f : α → List Segment} {xs : List α}
    (h : ∀ x ∈ xs, own p (f x) = []) : own p (xs.flatMap f) = [] := by
  induction xs with
  | nil => rfl
  | cons x xs ih =>
    obtain ⟨hx, hxs⟩ := List.forall_mem_cons.mp h
    rw [List.flatMap_cons, own_append, hx, ih hxs]
    rfl

theorem own_of_filter {t : String} (h : t.toList.filter p = []) (segments : List Segment) :
    own p (.text t :: segments) = own p segments := by
  rw [own_text, h, List.nil_append]

/-- A character of the kind comes from a text of its own or from a part. -/
theorem mem_filter_segments {c : Char} {segments : List Segment} :
    c ∈ (segments.flatMap Segment.chars).filter p ↔
      c ∈ own p segments ∨ ∃ a ∈ segments.filterMap Segment.part?, c ∈ (chars a).filter p := by
  induction segments with
  | nil => simp
  | cons s segments ih =>
    rw [List.flatMap_cons, List.filter_append, List.mem_append, ih]
    cases s with
    | text t =>
      rw [own_text, List.mem_append, filterMap_text, or_assoc]
      rfl
    | part a =>
      rw [own_part, filterMap_part]
      simp only [List.mem_cons, exists_eq_or_imp]
      exact or_left_comm

variable [Outside p]

theorem own_word {t : String} (h : t.toList ⊆ wordChars) (segments : List Segment) :
    own p (.text t :: segments) = own p segments :=
  own_of_filter (filter_word h) segments

@[simp] theorem own_commaSeparated (xs : List Ast) : own p (commaSeparated xs) = [] := by
  fun_induction commaSeparated xs with
  | case1 => rfl
  | case2 x => rfl
  | case3 x y rest ih => rwa [own_part, own_word (by decide)]

@[simp] theorem own_afterCommas (xs : List Ast) : own p (afterCommas xs) = [] :=
  own_flatMap fun _ _ => own_word (by decide) _

@[simp] theorem own_statements (xs : List Ast) : own p (statements xs) = [] :=
  own_flatMap fun x _ => (own_part x _).trans (own_word (by decide) _)

@[simp] theorem own_orNull (x : Option Ast) : own p (orNull x) = [] := by
  cases x with
  | none => exact own_word (by decide) _
  | some x => rfl

@[simp] theorem own_returning (xs : List Ast) : own p (returning xs) = [] := by
  fun_induction returning xs with
  | case1 => exact own_word (by decide) _
  | case2 x => rw [own_word (by decide), own_part, own_word (by decide), own_nil]
  | case3 x y rest ih => rwa [own_part, own_word (by decide)]

@[simp] theorem own_varLines (bindings : List (String × Ast)) :
    own p (varLines bindings) = inNames p (bindings.map Prod.fst) := by
  induction bindings with
  | nil => rfl
  | cons b rest ih =>
    have hline : ("var " ++ b.1 ++ " = ").toList.filter p = b.1.toList.filter p :=
      filter_around (filter_word (by decide)) (filter_word (by decide)) b.1
    change own p (.text ("var " ++ b.1 ++ " = ") :: .part b.2 :: .text ";\n" :: varLines rest) = _
    rw [own_text, hline, own_part, own_word (by decide), ih]
    rfl

theorem filter_intercalate (names : List String) :
    (", ".intercalate names).toList.filter p = inNames p names := by
  induction names with
  | nil => rfl
  | cons name names ih =>
    cases names with
    | nil => simp [inNames]
    | cons other rest =>
      have hcomma : ", ".toList.filter p = [] := filter_word (by decide)
      rw [String.intercalate_cons_cons, String.toList_append, String.toList_append,
        List.filter_append, List.filter_append, ih, hcomma, List.append_nil]
      rfl

end Own

end LiveLisp.Script
