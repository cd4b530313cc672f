/-!
# Walks over text with brackets

A walk passes over a text character by character and keeps the brackets that have to close.  The
laws of walks are those of one step: where a step minds nothing that is open further out, neither
does a walk, and a text that closes what it opens may be passed over wherever it stands.
-/

namespace LiveLisp.Script

/-- Whether a character stands in code or in a string literal. -/
inductive Mode where
  | code
  | quoted (mark : Char)
  | escaped (mark : Char)
  deriving DecidableEq

/-- Where a character of a script stands: the brackets that have to close, innermost first. -/
structure Nesting where
  mode : Mode
  closers : List Char
  deriving DecidableEq

/-- Past the characters of a text, step by step. -/
def walk (step : Nesting → Char → Option Nesting) (n : Nesting) (text : List Char) :
    Option Nesting :=
  text.foldlM step n

/-- What is open further out takes no part in a step. -/
class Inward (step : Nesting → Char → Option Nesting) : Prop where
  step_append {m m' : Mode} {closers closers' : List Char} {c : Char}
    (h : step ⟨m, closers⟩ c = some ⟨m', closers'⟩) (outer : List Char) :
    step ⟨m, closers ++ outer⟩ c = some ⟨m', closers' ++ outer⟩

/-- Every bracket and every quote that is opened is closed. -/
def Closed (step : Nesting → Char → Option Nesting) (text : List Char) : Prop :=
  walk step ⟨.code, []⟩ text = some ⟨.code, []⟩

instance (step : Nesting → Char → Option Nesting) (text : List Char) :
    Decidable (Closed step text) :=
  inferInstanceAs (Decidable (walk step ⟨.code, []⟩ text = some ⟨.code, []⟩))

section Walk

variable {step : Nesting → Char → Option Nesting}

theorem walk_cons (n : Nesting) (c : Char) (text : List Char) :
    walk step n (c :: text) = (step n c).bind (walk step · text) := by
  rw [walk, List.foldlM_cons]
  rfl

theorem walk_append (n : Nesting) (xs ys : List Char) :
    walk step n (xs ++ ys) = (walk step n xs).bind (walk step · ys) := by
  rw [walk, List.foldlM_append]
  rfl

theorem closed_nil : Closed step [] := rfl

theorem Closed.append {xs ys : List Char} (hxs : Closed step xs) (hys : Closed step ys) :
    Closed step (xs ++ ys) := by
  rw [Closed, walk_append, hxs, Option.bind_some, hys]

variable [Inward step]

theorem walk_append_closers {m m' : Mode} (closers closers' : List Char) {text : List Char}
    (h : walk step ⟨m, closers⟩ text = some ⟨m', closers'⟩) (outer : List Char) :
    walk step ⟨m, closers ++ outer⟩ text = some ⟨m', closers' ++ outer⟩ := by
  induction text generalizing m closers with
  | nil =>
    obtain ⟨rfl, rfl⟩ := Nesting.mk.inj (Option.some.inj h)
    rfl
  | cons c text ih =>
    rw [walk_cons] at h ⊢
    obtain ⟨⟨m₁, closers₁⟩, hstep, hrest⟩ := Option.bind_eq_some_iff.mp h
    rw [Inward.step_append hstep outer, Option.bind_some, ih closers₁ hrest]

theorem Closed.walk_eq {text : List Char} (h : Closed step text) (closers : List Char) :
    walk step ⟨.code, closers⟩ text = some ⟨.code, closers⟩ :=
  walk_append_closers [] [] h closers

/-- Wherever a closed text stands, no part of it from its beginning on closes a bracket that was
open before it. -/
theorem Closed.walk_prefix {text front : List Char} (h : Closed step text) (hfront : front <+: text)
    (outer : List Char) :
    ∃ mode inner, walk step ⟨.code, outer⟩ front = some ⟨mode, inner ++ outer⟩ := by
  obtain ⟨back, rfl⟩ := hfront
  rw [Closed, walk_append] at h
  obtain ⟨⟨mode, inner⟩, hwalk, -⟩ := Option.bind_eq_some_iff.mp h
  exact ⟨mode, inner, walk_append_closers [] inner hwalk outer⟩

/-- Text that opens brackets, closed text, and text that closes the brackets again. -/
theorem Closed.between {front text back : List Char} (closers : List Char)
    (htext : Closed step text) (hfront : walk step ⟨.code, []⟩ front = some ⟨.code, closers⟩)
    (hback : walk step ⟨.code, closers⟩ back = some ⟨.code, []⟩) :
    Closed step (front ++ text ++ back) := by
  rw [Closed, walk_append, walk_append, hfront, Option.bind_some, htext.walk_eq,
    Option.bind_some, hback]

end Walk

end LiveLisp.Script
