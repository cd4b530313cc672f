import LiveLisp.Decimal.Double
/-!
# The fewest digits that read back

A double stands for every real number that rounds to it. Of the decimals in that interval, the
ones with the fewest digits are taken, and of these the one nearest to the double itself.
-/

namespace LiveLisp.Decimal

/-- `digits · 10 ^ exponent`. -/
structure Scaled where
  digits : Nat
  exponent : Int
  deriving DecidableEq, Repr, Inhabited

/-- Where a decimal halfway between two candidates goes. -/
inductive Tie where
  | up
  | toEven
  deriving DecidableEq, Repr

/-- The reals that round to `mantissa · 2 ^ exponent`, as the fractions `low / den` and
`high / den` around `value / den`. -/
structure Interval where
  low : Nat
  value : Nat
  high : Nat
  den : Nat
  closed : Bool

namespace Interval

/-- The interval of a positive finite double. It is narrower below a power of two, and contains
its ends when the mantissa is even. -/
def ofParts (mantissa : Nat) (exponent : Int) : Interval :=
  let below := if mantissa = Double.leastNormal ∧ Double.minExponent < exponent then 1 else 2
  let (unit, den) := scale2 1 1 (exponent - 2)
  { low := (4 * mantissa - below) * unit
    value := 4 * mantissa * unit
    high := (4 * mantissa + 2) * unit
    den := den
    closed := mantissa % 2 == 0 }

/-- Whether `num / den` lies in the interval. -/
def contains (i : Interval) (num den : Nat) : Bool :=
  let x := num * i.den
  if i.closed then i.low * den ≤ x && x ≤ i.high * den
  else i.low * den < x && x < i.high * den

end Interval

/-- The least `k` with `num / den < 10 ^ k`, looked for upwards from `k`. -/
def placeFrom (num den : Nat) : Nat → Int → Int
  | 0, k => k
  | fuel + 1, k =>
    let (n, d) := scale10 num den (-k)
    if n < d then k else placeFrom num den fuel (k + 1)

/-- The least `k` with `num / den < 10 ^ k`, for the magnitude of a positive double. -/
def place (num den : Nat) : Int :=
  let guess := (floorLog2 num den * 30103).tdiv 100000 - 1
  placeFrom num den 4 guess

/-- The decimals with last digit at `10 ^ exponent` on either side of the interval's value that
lie in the interval, the nearer one chosen. -/
def nearestOnGrid (tie : Tie) (i : Interval) (exponent : Int) : Option Scaled :=
  let (n, d) := scale10 i.value i.den (-exponent)
  let lower := n / d
  let upper := lower + 1
  let inside := fun k => let (a, b) := scale10 k 1 exponent; i.contains a b
  let twice := 2 * (n % d)
  let preferUpper := if twice = d then tie == .up || lower % 2 == 1 else decide (d < twice)
  match inside lower, inside upper with
  | true, true => some ⟨if preferUpper then upper else lower, exponent⟩
  | true, false => some ⟨lower, exponent⟩
  | false, true => some ⟨upper, exponent⟩
  | false, false => none

/-- The first grid, from coarse to fine, with a decimal in the interval. -/
def firstOnGrids (tie : Tie) (i : Interval) (place : Int) : List Nat → Scaled
  | [] => ⟨0, 0⟩
  | n :: rest =>
    match nearestOnGrid tie i (place - n) with
    | some s => s
    | none => firstOnGrids tie i place rest

/-- Moves trailing zeros of the digits into the exponent. -/
def Scaled.trim (s : Scaled) : Nat → Scaled
  | 0 => s
  | fuel + 1 =>
    if s.digits ≠ 0 ∧ s.digits % 10 = 0 then trim ⟨s.digits / 10, s.exponent + 1⟩ fuel else s

/-- The shortest decimal that reads back as `mantissa · 2 ^ exponent`. -/
def shortest (tie : Tie) (mantissa : Nat) (exponent : Int) : Scaled :=
  if mantissa = 0 then ⟨0, 0⟩
  else
    let i := Interval.ofParts mantissa exponent
    let k := place i.value i.den
    (firstOnGrids tie i k ((List.range 18).drop 1)).trim 20

end LiveLisp.Decimal
