/-!
# Texts between marks

A text is cut at every occurrence of one character.  There is one piece more than there are marks,
and a piece at either end is known by the mark beside it.
-/

namespace LiveLisp.Text

theorem length_splitOn (mark : Char) (text : List Char) :
    (text.splitOn mark).length = text.count mark + 1 := by
  induction text with
  | nil => simp
  | cons c text ih =>
    rw [List.splitOn_cons_eq_if_modifyHead]
    by_cases hc : c = mark
    · simp [hc, ih]
    · simp [hc, ih]

/-- What stands before the first mark, and what behind it, is the same in equal texts. -/
theorem append_mark_inj {mark : Char} {xs ys as bs : List Char} (hx : mark ∉ xs) (hy : mark ∉ ys)
    (h : xs ++ mark :: as = ys ++ mark :: bs) : xs = ys ∧ as = bs := by
  have hpieces := congrArg (List.splitOn mark) h
  rw [List.splitOn_append_cons_self_of_not_mem hx,
    List.splitOn_append_cons_self_of_not_mem hy] at hpieces
  obtain rfl := (List.cons.inj hpieces).1
  exact ⟨rfl, (List.cons.inj (List.append_cancel_left h)).2⟩

/-- What stands behind the last mark, and what before it, is the same in equal texts. -/
theorem append_mark_inj_last {mark : Char} {xs ys as bs : List Char} (ha : mark ∉ as)
    (hb : mark ∉ bs) (h : xs ++ mark :: as = ys ++ mark :: bs) : xs = ys ∧ as = bs := by
  have hreverse : as.reverse ++ mark :: xs.reverse = bs.reverse ++ mark :: ys.reverse := by
    simpa using congrArg List.reverse h
  obtain ⟨hlast, hfirst⟩ := append_mark_inj (by simpa using ha) (by simpa using hb) hreverse
  exact ⟨List.reverse_inj.mp hfirst, List.reverse_inj.mp hlast⟩

end LiveLisp.Text
