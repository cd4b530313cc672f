import LiveLisp.Analysis.Env
/-!
# What a prompt remembers

The current namespace, the last three values, most recent first, and the last failure.
-/

namespace LiveLisp.Session

/-- What is remembered from one prompt to the next. -/
structure State where
  ns : String
  first : Option String
  second : Option String
  third : Option String
  lastError : Option String
  deriving DecidableEq, Repr, Inhabited

namespace State

/-- In the user namespace, with nothing remembered. -/
def initial : State := ⟨Analysis.userNs, none, none, none, none⟩

/-- Goes to another namespace. -/
def enter (s : State) (ns : String) : State := { s with ns := ns }

/-- Remembers a value; the oldest of the three is forgotten. -/
def recordSuccess (s : State) (value : String) : State :=
  { s with first := some value, second := s.first, third := s.second }

/-- Remembers a failure. -/
def recordFailure (s : State) (message : String) : State := { s with lastError := some message }

/-- The value behind `*n`, for `n` from one to three. -/
def value? (s : State) : Nat → Option String
  | 1 => s.first
  | 2 => s.second
  | 3 => s.third
  | _ => none

/-- What stands before the cursor when a form is awaited. -/
def prompt (s : State) : String := s.ns ++ "=> "

theorem value?_recordSuccess_one (s : State) (value : String) :
    (s.recordSuccess value).value? 1 = some value := rfl

theorem value?_recordSuccess_succ (s : State) (value : String) (n : Nat) (h : n = 1 ∨ n = 2) :
    (s.recordSuccess value).value? (n + 1) = s.value? n := by
  rcases h with rfl | rfl <;> rfl

end State

end LiveLisp.Session
