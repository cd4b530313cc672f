import LiveLisp.Text.Position
/-!
# Scripts in pieces

Generated text is a list of pieces: texts, and marks that say where in the source the text after
them comes from. Laying the pieces out gives the script and the generated position of every
mark. Generated columns count UTF-16 units.
-/

namespace LiveLisp.Script

open Text (Position)

/-- A stretch of generated text, or a mark. -/
inductive Piece where
  | text (text : String)
  | mark (pos : Position) (name : Option String)
  deriving DecidableEq, Repr, Inhabited

/-- A generated position and the source position it comes from, all counted from zero. -/
structure Mapping where
  genLine : Nat
  genColumn : Nat
  srcLine : Nat
  srcColumn : Nat
  name : Option String
  deriving DecidableEq, Repr, Inhabited

/-- How many UTF-16 units a character takes. -/
def units16 (c : Char) : Nat := if c.toNat < 0x10000 then 1 else 2

/-- The generated line and column, counted from zero. -/
structure Place where
  line : Nat
  column : Nat
  deriving DecidableEq, Repr, Inhabited

namespace Place

/-- Past one character. -/
def step (p : Place) (c : Char) : Place :=
  if c = '\n' then ⟨p.line + 1, 0⟩ else ⟨p.line, p.column + units16 c⟩

/-- Past a text. -/
def after (p : Place) (text : String) : Place := text.toList.foldl step p

end Place

/-- Generated script with the mappings of its marks. -/
structure Emitted where
  js : String
  mappings : List Mapping
  lines : Nat
  deriving DecidableEq, Repr, Inhabited

/-- Lays pieces out from a place on. -/
def layout (place : Place) : List Piece → List Mapping
  | [] => []
  | .text t :: rest => layout (place.after t) rest
  | .mark pos name :: rest =>
    ⟨place.line, place.column, pos.zeroBased.1, pos.zeroBased.2, name⟩ :: layout place rest

/-- The text of the pieces. -/
def scriptText (pieces : List Piece) : String :=
  pieces.foldl (fun acc p => match p with | .text t => acc ++ t | .mark .. => acc) ""

@[simp] theorem scriptText_nil : scriptText [] = "" := rfl

theorem scriptText_foldl (ps : List Piece) (acc : String) :
    ps.foldl (fun acc p => match p with | .text t => acc ++ t | .mark .. => acc) acc =
      acc ++ scriptText ps := by
  unfold scriptText
  induction ps generalizing acc with
  | nil => simp
  | cons p ps ih =>
    cases p with
    | text t =>
      have hleft := ih (acc ++ t)
      have hright := ih ("" ++ t)
      rw [String.empty_append] at hright
      exact hleft.trans ((String.append_assoc ..).trans (congrArg (acc ++ ·) hright.symm))
    | mark pos name => exact ih acc

@[simp] theorem scriptText_text (t : String) (ps : List Piece) :
    scriptText (.text t :: ps) = t ++ scriptText ps := by
  have h := scriptText_foldl ps ("" ++ t)
  rw [String.empty_append] at h
  exact h

@[simp] theorem scriptText_mark (pos : Position) (name : Option String) (ps : List Piece) :
    scriptText (.mark pos name :: ps) = scriptText ps := rfl

@[simp] theorem scriptText_append (ps qs : List Piece) :
    scriptText (ps ++ qs) = scriptText ps ++ scriptText qs := by
  have h := scriptText_foldl qs (scriptText ps)
  rw [← h, scriptText, List.foldl_append]
  rfl

/-- The script of the pieces; mappings only if asked for. -/
def Emitted.ofPieces (sourceMap : Bool) (pieces : List Piece) : Emitted :=
  let js := scriptText pieces
  { js := js
    mappings := if sourceMap then layout ⟨0, 0⟩ pieces else []
    lines := ((⟨0, 0⟩ : Place).after js).line + 1 }

end LiveLisp.Script
