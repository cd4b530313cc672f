import LiveLisp.Form.Printer
/-!
# Forms as trees

The head and the parts of a form, induction over these, and properties that hold of all values
inside a form.
-/

namespace LiveLisp

theorem Atom.same_self (a : Atom) : a.same a = true := by
  cases a with
  | float x => cases x <;> simp [Atom.same, Decimal.Double.sameNumber]
  | _ => simp [Atom.same]

namespace Form

/-! ## Heads -/

theorem name_eq_of_isHeadedBy {form : Form} {name other : String}
    (h : form.isHeadedBy name = true) (h' : form.isHeadedBy other = true) : name = other := by
  obtain ⟨s, hs, hplain⟩ := (Option.any_eq_true _ _).mp h
  obtain ⟨s', hs', hplain'⟩ := (Option.any_eq_true _ _).mp h'
  rw [hs] at hs'
  obtain rfl := Option.some.inj hs'
  rw [← Symbol.plainName?_eq_some_iff] at hplain hplain'
  rw [hplain] at hplain'
  exact Option.some.inj hplain'

/-! ## Parts -/

/-- The forms directly inside a form. -/
def parts : Form → List Form
  | .atom .. => []
  | .list _ items | .vector _ items | .set _ items => items
  | .map _ entries => entries.flatMap fun e => [e.1, e.2]

theorem sizeOf_lt_of_mem_parts {f g : Form} (h : g ∈ f.parts) : sizeOf g < sizeOf f := by
  cases f with
  | atom => simp [parts] at h
  | list pos items =>
    have hlt : sizeOf g < sizeOf items := List.sizeOf_lt_of_mem h
    simp only [list.sizeOf_spec]
    omega
  | vector pos items =>
    have hlt : sizeOf g < sizeOf items := List.sizeOf_lt_of_mem h
    simp only [vector.sizeOf_spec]
    omega
  | set pos items =>
    have hlt : sizeOf g < sizeOf items := List.sizeOf_lt_of_mem h
    simp only [set.sizeOf_spec]
    omega
  | map pos entries =>
    obtain ⟨⟨k, v⟩, he, hg⟩ := List.mem_flatMap.mp h
    have hlt := List.sizeOf_lt_of_mem he
    simp only [List.mem_cons, List.not_mem_nil, or_false] at hg
    simp only [Prod.mk.sizeOf_spec] at hlt
    simp only [map.sizeOf_spec]
    rcases hg with rfl | rfl <;> omega

/-- Induction over forms: what holds of all parts of a form may be used for the form. -/
theorem induct {P : Form → Prop} (step : ∀ f : Form, (∀ g ∈ f.parts, P g) → P f) (f : Form) :
    P f :=
  step f fun g hg =>
    have _ := sizeOf_lt_of_mem_parts hg
    induct step g
termination_by sizeOf f

/-- `f` stands in `g`, at any depth. -/
inductive Within (f : Form) : Form → Prop
  | refl : Within f f
  | part {g h : Form} (hg : g ∈ h.parts) (hf : Within f g) : Within f h

/-- A form and all forms inside it, each before its parts. -/
def preorder (f : Form) : List Form :=
  f :: f.parts.attach.flatMap fun g =>
    have := sizeOf_lt_of_mem_parts g.2
    preorder g.1
termination_by sizeOf f

theorem preorder_eq (f : Form) : f.preorder = f :: f.parts.flatMap preorder := by
  have hmap := List.flatMap_map Subtype.val preorder (l := f.parts.attach)
  rw [List.attach_map_subtype_val] at hmap
  rw [preorder, hmap]

/-! ## All values -/

mutual

/-- Every value without parts that stands in a form satisfies `P`. -/
def All (P : Atom → Prop) : Form → Prop
  | .atom _ a => P a
  | .list _ items | .vector _ items | .set _ items => AllItems P items
  | .map _ entries => AllEntries P entries

def AllItems (P : Atom → Prop) : List Form → Prop
  | [] => True
  | f :: rest => All P f ∧ AllItems P rest

def AllEntries (P : Atom → Prop) : List (Form × Form) → Prop
  | [] => True
  | (k, v) :: rest => All P k ∧ All P v ∧ AllEntries P rest

end

section All

variable {P : Atom → Prop}

theorem allItems_iff {items : List Form} : AllItems P items ↔ ∀ f ∈ items, All P f := by
  induction items with
  | nil => simp [AllItems]
  | cons f items ih => simp [AllItems, ih]

theorem allEntries_iff {entries : List (Form × Form)} :
    AllEntries P entries ↔ ∀ f ∈ entries.flatMap (fun e => [e.1, e.2]), All P f := by
  induction entries with
  | nil => simp [AllEntries]
  | cons e entries ih =>
    obtain ⟨k, v⟩ := e
    rw [AllEntries, ih, List.flatMap_cons, List.forall_mem_append]
    simp [and_assoc]

/-- What holds of all values in a form holds of all values in its parts. -/
theorem All.of_mem_parts {f g : Form} (h : All P f) (hg : g ∈ f.parts) : All P g := by
  cases f with
  | atom => simp [parts] at hg
  | list pos items => exact allItems_iff.mp h g hg
  | vector pos items => exact allItems_iff.mp h g hg
  | set pos items => exact allItems_iff.mp h g hg
  | map pos entries => exact allEntries_iff.mp h g hg

theorem All.of_within {f g : Form} (h : All P g) (hf : f.Within g) : All P f := by
  induction hf with
  | refl => exact h
  | part hg _ ih => exact ih (h.of_mem_parts hg)

/-- Entries hold the items that they were paired up from. -/
theorem flatMap_of_pairUp {items : List Form} {entries : List (Form × Form)}
    (h : pairUp items = some entries) : entries.flatMap (fun e => [e.1, e.2]) = items := by
  induction items using pairUp.induct generalizing entries with
  | case1 =>
    obtain rfl : [] = entries := by simpa [pairUp] using h
    rfl
  | case2 => simp [pairUp] at h
  | case3 k v rest ih =>
    obtain ⟨es, hes, rfl⟩ : ∃ es, pairUp rest = some es ∧ (k, v) :: es = entries := by
      simpa [pairUp] using h
    simp [ih hes]

end All

/-- No value in the form is a float. -/
def FloatFree (f : Form) : Prop := f.All fun a => ∀ x, a ≠ .float x

end Form

end LiveLisp
