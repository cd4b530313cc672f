/-!
# Bounds of machine words

One more than the greatest number that fits in 16, 32 or 64 bits.
-/

namespace LiveLisp

/-- One more than the greatest number of 16 bits. -/
def bound16 : Nat := 0x10000

/-- One more than the greatest number of 32 bits. -/
def bound32 : Nat := 0x100000000

/-- One more than the greatest number of 64 bits. -/
def bound64 : Nat := 0x10000000000000000

/-- Whether a number fits in 64 bits with its sign. -/
def fitsInt64 (n : Int) : Bool := -0x8000000000000000 ≤ n && n < 0x8000000000000000

end LiveLisp
