import LiveLisp.Bounds
/-!
# Positions in a source text

Lines and columns count from one, the way an editor shows them; source maps count from zero in
32-bit words, and `zeroBased` crosses that boundary.
-/

namespace LiveLisp.Text

/-- A line and a column of a source text, both counted from one. -/
structure Position where
  line : Nat
  column : Nat
  deriving DecidableEq, Repr, Inhabited

namespace Position

/-- Where the first character of a text stands. -/
def start : Position := ⟨1, 1⟩

/-- `line:column`. -/
def render (p : Position) : String := toString p.line ++ ":" ++ toString p.column

/-- Both coordinates counted from zero and cut to 32 bits; zero stays zero. -/
def zeroBased (p : Position) : Nat × Nat :=
  ((p.line - 1) % bound32, (p.column - 1) % bound32)

/-- The position whose coordinates, counted from zero, are `line` and `column`. -/
def ofZeroBased (line column : Nat) : Position := ⟨line + 1, column + 1⟩

/-- Earlier lines first, then earlier columns. -/
def compare (p q : Position) : Ordering :=
  (Ord.compare p.line q.line).then (Ord.compare p.column q.column)

theorem ofZeroBased_zeroBased {p : Position} (hl : 0 < p.line) (hc : 0 < p.column)
    (hl' : p.line ≤ bound32) (hc' : p.column ≤ bound32) :
    ofZeroBased p.zeroBased.1 p.zeroBased.2 = p := by
  obtain ⟨l, c⟩ := p
  simp only [zeroBased, ofZeroBased, bound32, mk.injEq] at *
  omega

end Position

end LiveLisp.Text
