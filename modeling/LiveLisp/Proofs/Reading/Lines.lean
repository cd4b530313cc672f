import LiveLisp.Reading.Line
import LiveLisp.Text.Split
/-!
# Lines of a text

The lines of a text are the pieces between its newlines, each with a newline behind it; nothing
after the last newline is no line.
-/

namespace LiveLisp.Reading


/-- The pieces that are lines: all but an empty one at the end. -/
def fullPieces (pieces : List (List Char)) : List (List Char) :=
  if pieces.getLast? = some [] then pieces.dropLast else pieces

theorem fullPieces_append (ps : List (List Char)) {qs : List (List Char)} (hne : qs ≠ []) :
    fullPieces (ps ++ qs) = ps ++ fullPieces qs := by
  have hlast : (ps ++ qs).getLast? = qs.getLast? := by
    rw [List.getLast?_append, List.getLast?_eq_some_getLast hne]
    rfl
  unfold fullPieces
  rw [hlast, List.dropLast_append_of_ne_nil hne]
  split <;> rfl

theorem fullPieces_cases (ps : List (List Char)) :
    ps = fullPieces ps ∨ ps = fullPieces ps ++ [[]] := by
  unfold fullPieces
  split
  · next hlast =>
    obtain ⟨init, rfl⟩ := List.getLast?_eq_some_iff.mp hlast
    simp
  · exact .inl rfl

/-- A character more in front of the first piece. -/
theorem fullPieces_cons_char (c : Char) (piece : List Char) (pieces : List (List Char)) :
    fullPieces ((c :: piece) :: pieces) =
      match fullPieces (piece :: pieces) with
      | [] => [[c]]
      | line :: lines => (c :: line) :: lines := by
  cases pieces with
  | nil => cases piece <;> simp [fullPieces]
  | cons next pieces =>
    have hcons : ∀ p, fullPieces (p :: next :: pieces) = p :: fullPieces (next :: pieces) :=
      fun p => fullPieces_append [p] (by simp)
    simp only [hcons]

theorem closeLine_cons {c : Char} (hc : c ≠ '\n') (line : List Char) :
    closeLine (c :: line) = c :: closeLine line := by
  unfold closeLine
  cases line with
  | nil => simp [hc]
  | cons d ds =>
    rw [List.getLast?_cons_cons]
    split <;> rfl

theorem map_closeLine_splitLines (cs : List Char) :
    (splitLines '\n' cs).map closeLine =
      (fullPieces (cs.splitOn '\n')).map (· ++ ['\n']) := by
  induction cs with
  | nil => rfl
  | cons c cs ih =>
    obtain ⟨piece, pieces, hpieces⟩ := List.exists_cons_of_ne_nil (List.splitOn_ne_nil '\n' cs)
    by_cases hc : c = '\n'
    · have hline : (c :: cs).splitOn '\n' = [[]] ++ cs.splitOn '\n' := by
        simp [List.splitOn_cons_eq_if_modifyHead, hc]
      rw [hline, fullPieces_append _ (List.splitOn_ne_nil '\n' cs), List.map_append, ← ih]
      simp [splitLines, hc, closeLine]
    · have hline : (c :: cs).splitOn '\n' = (c :: piece) :: pieces := by
        simp [List.splitOn_cons_eq_if_modifyHead, hc, hpieces]
      rw [hpieces] at ih
      rw [hline, fullPieces_cons_char, splitLines, if_neg hc]
      cases hlines : splitLines '\n' cs with
      | nil =>
        have hfull : fullPieces (piece :: pieces) = [] := by simpa [hlines] using ih.symm
        simp [hfull, closeLine, hc]
      | cons line lines =>
        obtain ⟨full, fulls, hfull⟩ :
            ∃ full fulls, fullPieces (piece :: pieces) = full :: fulls := by
          apply List.exists_cons_of_ne_nil
          intro hnil
          simp [hlines, hnil] at ih
        rw [hlines, hfull] at ih
        obtain ⟨hfirst, hmore⟩ := List.cons.inj ih
        simp [hfull, closeLine_cons hc, hfirst, hmore]

/-- The lines of a text are its pieces between newlines. -/
theorem linesOfText_eq (text : String) :
    linesOfText text =
      (fullPieces (text.toList.splitOn '\n')).map fun piece => .text (piece ++ ['\n']) := by
  have h := congrArg (List.map Line.text) (map_closeLine_splitLines text.toList)
  rw [List.map_map, List.map_map] at h
  exact h

end LiveLisp.Reading
