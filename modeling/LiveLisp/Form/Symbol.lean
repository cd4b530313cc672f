/-!
# Symbols

A symbol, and likewise a keyword, is a name with an optional namespace. Its written form puts a
slash between the two.
-/

namespace LiveLisp

/-- A name that may be qualified by a namespace. -/
structure Symbol where
  ns : Option String
  name : String
  deriving DecidableEq, Repr, Inhabited

namespace Symbol

/-- A name without namespace. -/
def plain (name : String) : Symbol := ⟨none, name⟩

/-- Splits at the first slash that has text on both sides of it; a token whose first slash has
not is a plain name. -/
def ofChars (token : List Char) : Symbol :=
  match token.span (· ≠ '/') with
  | (ns@(_ :: _), _ :: name@(_ :: _)) => ⟨some (String.ofList ns), String.ofList name⟩
  | _ => plain (String.ofList token)

/-- The symbol written as `token`. -/
def ofText (token : String) : Symbol := ofChars token.toList

/-- Whether this is the plain name `name`. -/
def isPlain (s : Symbol) (name : String) : Bool := s.ns.isNone && s.name == name

/-- `ns/name`, or the name alone. -/
def render (s : Symbol) : String :=
  match s.ns with
  | some ns => ns ++ "/" ++ s.name
  | none => s.name

/-- The name if there is no namespace. -/
def plainName? (s : Symbol) : Option String :=
  match s.ns with
  | none => some s.name
  | some _ => none

theorem plainName?_eq_some_iff {s : Symbol} {name : String} :
    s.plainName? = some name ↔ s.isPlain name = true := by
  unfold plainName? isPlain
  cases s.ns <;> simp

end Symbol

end LiveLisp
