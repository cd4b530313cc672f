import LiveLisp.Proofs.Files.Below
/-!
# Copies of a file onto itself

Making directories keeps all that is there, so paths lead on through it, and two spellings of one
place stay so.  A copy from one spelling of a file to another writes what the file holds already.
-/

namespace LiveLisp.Files.Tree

open Pathname (LeadsDown)

variable {t t' t'' : Tree}

/-- The bytes of the file at a place, and whether it can be run. -/
def file? (t : Tree) (place : Place) : Option (List UInt8 × Bool) :=
  match t.node? place with
  | some (.file content x) => some (content, x)
  | _ => none

/-- The second tree has the directories of the first, perhaps more, and the same files. -/
structure Keeps (t t' : Tree) : Prop where
  cwd_eq : t'.cwd = t.cwd
  directory : ∀ place, t.node? place = some .directory → t'.node? place = some .directory
  file?_eq : ∀ place, t'.file? place = t.file? place

namespace Keeps

theorem refl (t : Tree) : Keeps t t := ⟨rfl, fun _ h => h, fun _ => rfl⟩

theorem trans (h : Keeps t t') (h' : Keeps t' t'') : Keeps t t'' where
  cwd_eq := h'.cwd_eq.trans h.cwd_eq
  directory place hplace := h'.directory place (h.directory place hplace)
  file?_eq place := (h'.file?_eq place).trans (h.file?_eq place)

instance : Std.Refl Keeps := ⟨refl⟩

instance : Trans Keeps Keeps Keeps := ⟨trans⟩

theorem step (h : Keeps t t') {place found : Place} {c : Component}
    (hstep : t.step place c = .ok found) : t'.step place c = .ok found := by
  unfold Tree.step at hstep ⊢
  split at hstep
  · contradiction
  · contradiction
  · next hdirectory => rwa [h.directory place hdirectory]

theorem stepAll (h : Keeps t t') {place found : Place} {cs : List Component}
    (hsteps : t.stepAll place cs = .ok found) : t'.stepAll place cs = .ok found := by
  induction cs generalizing place with
  | nil => exact hsteps
  | cons c cs ih =>
    rw [Tree.stepAll] at hsteps ⊢
    split at hsteps
    · next hstep =>
      rw [h.step hstep]
      exact ih hsteps
    · contradiction

theorem samePlace (h : Keeps t t') {p q : Pathname} (hsame : t.SamePlace p q) :
    t'.SamePlace p q := by
  obtain ⟨place, hp, hq⟩ := hsame
  rw [← h.cwd_eq] at hp hq
  exact ⟨place, h.stepAll hp, h.stepAll hq⟩

end Keeps

theorem node?_put (place : Place) (node : Node) (other : Place) :
    (t.put place node).node? other =
      if other = [] then some .directory
      else if place = other then some node else t.node? other := by
  unfold node? put
  split
  · rfl
  · exact Table.get?_insert ..

theorem keeps_put_directory {place : Place} (h : t.node? place = none) :
    Keeps t (t.put place .directory) where
  cwd_eq := rfl
  directory other hother := by
    rw [node?_put]
    split
    · rfl
    · split <;> simp [hother]
  file?_eq other := by
    unfold file?
    rw [node?_put]
    by_cases hroot : other = []
    · simp [hroot, node?]
    · by_cases hplace : place = other
      · rw [if_neg hroot, if_pos hplace, ← hplace, h]
      · rw [if_neg hroot, if_neg hplace]

/-- Directories are made where nothing is. -/
theorem keeps_makeAlong {place : Place} {cs : List Component}
    (h : t.makeAlong place cs = .ok t') : Keeps t t' := by
  induction cs generalizing t place with
  | nil =>
    obtain rfl := Except.ok.inj h
    exact .refl t
  | cons c cs ih =>
    rw [makeAlong] at h
    split at h
    · contradiction
    · split at h
      · exact ih h
      · contradiction
      · next hnone => exact (keeps_put_directory hnone).trans (ih h)

/-- A file is written as it was. -/
theorem keeps_put_file {place : Place} {content : List UInt8} {x : Bool}
    (h : t.node? place = some (.file content x)) : Keeps t (t.put place (.file content x)) := by
  have hsame : ∀ other, (t.put place (.file content x)).node? other = t.node? other := by
    intro other
    rw [node?_put]
    split
    · next hroot => simp [hroot, node?]
    · split
      · next hplace => rw [← hplace, h]
      · rfl
  refine ⟨rfl, fun other hother => ?_, fun other => ?_⟩
  · rwa [hsame]
  · simp only [file?, hsame]

theorem keeps_copy {p q : Pathname} (hsame : t.locate p = t.locate q)
    (h : t.copy p q = .ok t') : Keeps t t' := by
  unfold copy at h
  split at h
  · contradiction
  · contradiction
  · contradiction
  · next place content x hlocate =>
    rw [hsame] at hlocate
    unfold writeBytes at h
    rw [hlocate] at h
    obtain rfl := Except.ok.inj h
    exact keeps_put_file (of_locate_eq_ok hlocate).2.2

end LiveLisp.Files.Tree
