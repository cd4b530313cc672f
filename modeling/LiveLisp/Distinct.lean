/-!
# Lists without repetition

Items stand in the order in which they first came.
-/

namespace LiveLisp

variable {α : Type} [DecidableEq α]

/-- Adds `x` at the end unless it is there already. -/
def insertNew (xs : List α) (x : α) : List α := if x ∈ xs then xs else xs ++ [x]

/-- Adds the items of `ys` that are new, in order. -/
def insertAllNew (xs ys : List α) : List α := ys.foldl insertNew xs

/-- Each item once, where it first stood. -/
def distinct (xs : List α) : List α := insertAllNew [] xs

@[simp] theorem mem_insertNew {xs : List α} {x y : α} :
    y ∈ insertNew xs x ↔ y ∈ xs ∨ y = x := by
  unfold insertNew
  split
  · exact ⟨Or.inl, fun h => h.elim id (fun h => h ▸ ‹x ∈ xs›)⟩
  · simp

@[simp] theorem mem_insertAllNew {xs ys : List α} {y : α} :
    y ∈ insertAllNew xs ys ↔ y ∈ xs ∨ y ∈ ys := by
  unfold insertAllNew
  induction ys generalizing xs with
  | nil => simp
  | cons x ys ih => simp [ih, or_assoc]

theorem nodup_insertAllNew {xs ys : List α} (h : xs.Nodup) : (insertAllNew xs ys).Nodup := by
  unfold insertAllNew
  induction ys generalizing xs with
  | nil => exact h
  | cons x ys ih =>
    refine ih ?_
    unfold insertNew
    split
    · exact h
    · rename_i hx
      rw [List.nodup_append]
      refine ⟨h, List.pairwise_singleton _ x, ?_⟩
      intro a ha b hb
      rw [List.mem_singleton] at hb
      exact fun hab => hx (hb ▸ hab ▸ ha)

end LiveLisp
