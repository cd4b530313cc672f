import LiveLisp.Bounds
import LiveLisp.Decimal.Notation
import LiveLisp.Text.Digits
/-!
# Numbers in JSON

A number without point and exponent that fits in 64 bits is an integer; every other number is a
double. The double is found from the digits that fit in 64 bits by one multiplication or division
by a power of ten, so its last bit may differ from the nearest double.
-/

namespace LiveLisp.Json

open Decimal

/-- The parts of a number as written. -/
structure NumberText where
  negative : Bool
  whole : List Char
  fraction : Option (List Char)
  exponent : Option (Bool × List Char)
  deriving DecidableEq, Repr, Inhabited

/-- The value of a number. -/
inductive Number where
  | int (value : Int)
  | float (value : Double)
  deriving DecidableEq, Repr, Inhabited

namespace Number

/-- The text of a number. -/
def render : Number → String
  | .int n => toString n
  | .float x => String.ofList x.scientific

end Number

/-- The quotient or the product with a positive finite double, rounded. -/
def scaleBy (divide : Bool) (x factor : Double) : Double :=
  match x with
  | .infinite n => .infinite n
  | .finite n .. =>
    let (a, b) := x.magnitude
    let (c, d) := factor.magnitude
    if divide then .ofRatio n (a * d) (b * c) else .ofRatio n (a * c) (b * d)

/-- Ten to the power `k`, rounded. -/
def tenPower (k : Nat) : Double := .ofDecimal false 1 k

/-- `x · 10 ^ exponent`, in steps of at most 308 places; nothing if it is too large. -/
def scaleByTen : Nat → Double → Int → Option Double
  | 0, x, _ => some x
  | fuel + 1, x, exponent =>
    if exponent.natAbs ≤ 308 then
      match scaleBy (exponent < 0) x (tenPower exponent.natAbs) with
      | .infinite _ => none
      | y => some y
    else if x.magnitude.1 = 0 then some x
    else if 0 ≤ exponent then none
    else scaleByTen fuel (scaleBy true x (tenPower 308)) (exponent + 308)

/-- The leading digits that fit in 64 bits, and how many digits are left over. -/
def leadingDigits (digits : List Char) : Nat × Nat :=
  digits.foldl (fun (sig, left) c =>
    let grown := sig * 10 + (c.toNat - 48)
    if 0 < left || bound64 ≤ grown then (sig, left + 1) else (grown, left)) (0, 0)

/-- Adds digits after the point while they fit in 64 bits, counting those that do. -/
def fractionDigits (sig : Nat) (digits : List Char) : Nat × Nat :=
  let (sig, used, _) := digits.foldl (fun (sig, used, full) c =>
    let grown := sig * 10 + (c.toNat - 48)
    if full || bound64 ≤ grown then (sig, used, true) else (grown, used + 1, false))
    (sig, 0, false)
  (sig, used)

namespace NumberText

/-- The double with the given sign, digits and exponent. -/
def float? (negative : Bool) (sig : Nat) (exponent : Int) : Option Number :=
  (scaleByTen 4 (.ofRatio false sig 1) exponent).map fun x =>
    match x with
    | .finite _ m e => .float (.finite negative m e)
    | .infinite _ => .float (.infinite negative)

/-- The value of a number, if it is not too large. -/
def value? (t : NumberText) : Option Number :=
  let (sig, left) := leadingDigits t.whole
  if t.fraction.isNone && t.exponent.isNone && left == 0 then
    if !t.negative then some (.int sig)
    else if sig = 0 ∨ 0x8000000000000000 < sig then float? true sig 0
    else some (.int (-(sig : Int)))
  else
    let (sig, used) := fractionDigits sig (t.fraction.getD [])
    let start : Int := (left : Int) - used
    match t.exponent with
    | none => float? t.negative sig start
    | some (down, digits) =>
      let e := Nat.ofDigitChars 10 digits 0
      if 0x80000000 ≤ e then
        if sig ≠ 0 ∧ !down then none else some (.float (.zero t.negative))
      else float? t.negative sig (if down then start - e else start + e)

end NumberText

end LiveLisp.Json
