/-!
# Ranges of code points

Properties of characters are given by lists of ranges, both ends included.
-/

namespace LiveLisp.Text

/-- Whether `n` lies in one of the ranges. -/
def inRanges (ranges : List (Nat × Nat)) (n : Nat) : Bool :=
  ranges.any fun r => r.1 ≤ n && n ≤ r.2

end LiveLisp.Text
