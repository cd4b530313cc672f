/-!
# Double-precision numbers

A finite double is a sign, a mantissa and a binary exponent, so reading and printing are exact
arithmetic on naturals. There is no not-a-number: no text is read as one.
-/

namespace LiveLisp.Decimal

/-- An infinity, or `± mantissa · 2 ^ exponent`. -/
inductive Double where
  | infinite (negative : Bool)
  | finite (negative : Bool) (mantissa : Nat) (exponent : Int)
  deriving DecidableEq, Repr, Inhabited

/-- `num / den` to the nearest natural, a half going to the even neighbour. -/
def roundHalfEven (num den : Nat) : Nat :=
  let q := num / den
  let r := num % den
  if 2 * r < den then q
  else if den < 2 * r then q + 1
  else if q % 2 = 0 then q else q + 1

/-- `num · 2 ^ e / den` as a fraction. -/
def scale2 (num den : Nat) (e : Int) : Nat × Nat :=
  if 0 ≤ e then (num * Nat.pow 2 e.toNat, den) else (num, den * Nat.pow 2 (-e).toNat)

/-- `num · 10 ^ e / den` as a fraction. -/
def scale10 (num den : Nat) (e : Int) : Nat × Nat :=
  if 0 ≤ e then (num * Nat.pow 10 e.toNat, den) else (num, den * Nat.pow 10 (-e).toNat)

/-- The largest `k` with `2 ^ k ≤ num / den`, for a positive fraction. -/
def floorLog2 (num den : Nat) : Int :=
  let k : Int := (num.log2 : Int) - (den.log2 : Int)
  let (n, d) := scale2 num den (-k)
  if d ≤ n then k else k - 1

namespace Double

/-- The least binary exponent. -/
def minExponent : Int := -1074

/-- The greatest binary exponent. -/
def maxExponent : Int := 971

/-- The least mantissa of a double with full precision; twice it is no mantissa any more. -/
def leastNormal : Nat := 0x10000000000000

/-- Zero with a sign. -/
def zero (negative : Bool) : Double := .finite negative 0 minExponent

/-- The double nearest to `± num / den`, ties going to the even mantissa. -/
def ofRatio (negative : Bool) (num den : Nat) : Double :=
  if num = 0 then zero negative
  else
    let q := max (floorLog2 num den - 52) minExponent
    let (n, d) := scale2 num den (-q)
    let m := roundHalfEven n d
    let (m, q) := if m = 2 * leastNormal then (leastNormal, q + 1) else (m, q)
    if maxExponent < q then .infinite negative else .finite negative m q

/-- The double nearest to `± digits · 10 ^ exponent`. Magnitudes far beyond the range are decided
by the place of the first digit alone. -/
def ofDecimal (negative : Bool) (digits : Nat) (exponent : Int) : Double :=
  if digits = 0 then zero negative
  else
    let place := (Nat.toDigits 10 digits).length + exponent
    if 400 < place then .infinite negative
    else if place < -400 then zero negative
    else
      let (n, d) := scale10 digits 1 exponent
      ofRatio negative n d

/-- Whether a finite double has no fractional part; infinities have none to look at. -/
def isIntegral : Double → Bool
  | .infinite _ => false
  | .finite _ m e => 0 ≤ e || m % Nat.pow 2 (-e).toNat == 0

/-- The magnitude of a finite double as a fraction. -/
def magnitude : Double → Nat × Nat
  | .infinite _ => (0, 1)
  | .finite _ m e => scale2 m 1 e

/-- Numeric equality: the two zeros are equal. -/
def sameNumber : Double → Double → Bool
  | .infinite a, .infinite b => a == b
  | .finite a m e, .finite b n f => (m == 0 && n == 0) || (a == b && m == n && e == f)
  | _, _ => false

end Double

end LiveLisp.Decimal
