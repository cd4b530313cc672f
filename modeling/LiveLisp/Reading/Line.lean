import LiveLisp.Text.Utf8
/-!
# Input lines

The reader takes its input line by line. A line keeps its newline; the last line of a text gets
one if it has none.
-/

namespace LiveLisp.Reading

open Text

/-- What asking for a line gives: its characters, or a failure of the input. -/
inductive Line where
  | text (chars : List Char)
  | failed (reason : String)
  deriving DecidableEq, Repr, Inhabited

/-- Cuts after every newline. -/
def splitLines {α : Type} [DecidableEq α] (newline : α) : List α → List (List α)
  | [] => []
  | x :: rest =>
    if x = newline then [x] :: splitLines newline rest
    else
      match splitLines newline rest with
      | [] => [[x]]
      | l :: ls => (x :: l) :: ls

/-- Adds a newline to a line that does not end in one. -/
def closeLine (line : List Char) : List Char :=
  if line.getLast? = some '\n' then line else line ++ ['\n']

/-- The lines of a text. -/
def linesOfText (text : String) : List Line :=
  (splitLines '\n' text.toList).map (fun l => .text (closeLine l))

/-- The lines of a byte string; a line that is no UTF-8 is a failed read. -/
def linesOfBytes (bytes : List UInt8) : List Line :=
  (splitLines 0x0a bytes).map fun l =>
    match Utf8.decode? l with
    | some text => .text (closeLine text.toList)
    | none => .failed "stream did not contain valid UTF-8"

theorem flatten_splitLines {α : Type} [DecidableEq α] (newline : α) (xs : List α) :
    (splitLines newline xs).flatten = xs := by
  induction xs with
  | nil => rfl
  | cons x rest ih =>
    simp only [splitLines]
    split
    · simp [ih]
    · split <;> simp_all

end LiveLisp.Reading
