import LiveLisp.Decimal.Shortest
/-!
# Written forms of decimals

Positional text never has an exponent. Scientific text has one outside a range of places.
-/

namespace LiveLisp.Decimal

/-- Decimal digits, most significant first. -/
def digitText (n : Nat) : List Char := Nat.toDigits 10 n

/-- `digits · 10 ^ exponent` without an exponent: the whole part, and the digits after the
point. -/
def Scaled.places (s : Scaled) : List Char × List Char :=
  let ds := digitText s.digits
  if 0 ≤ s.exponent then (ds ++ List.replicate s.exponent.toNat '0', [])
  else
    let after := (-s.exponent).toNat
    if after < ds.length then (ds.take (ds.length - after), ds.drop (ds.length - after))
    else (['0'], List.replicate (after - ds.length) '0' ++ ds)

/-- Whole part, and a point with the rest only if there is a rest. -/
def Scaled.positional (s : Scaled) : List Char :=
  match s.places with
  | (whole, []) => whole
  | (whole, rest) => whole ++ '.' :: rest

/-- A minus sign for negative numbers. -/
def signText (negative : Bool) : List Char := if negative then ['-'] else []

/-- The fewest digits that read back, never with an exponent, halves going up. -/
def Double.positional : Double → List Char
  | .infinite n => signText n ++ "inf".toList
  | .finite n m e => signText n ++ (shortest .up m e).positional

/-- An integral double with one zero after the point. -/
def Double.withTenths : Double → List Char
  | .infinite n => signText n ++ "inf".toList
  | .finite n m e =>
    let (num, den) := scale2 m 1 e
    signText n ++ digitText (num / den) ++ ".0".toList

/-- The fewest digits that read back, halves going to even, as data formats write them: at least
one digit on both sides of the point, and an exponent when the point would stand more than
sixteen places after the first digit or five before it. -/
def Double.scientific : Double → List Char
  | .infinite _ => "null".toList
  | .finite n m e =>
    let s := shortest .toEven m e
    let ds := digitText s.digits
    let point : Int := ds.length + s.exponent
    signText n ++
      if m = 0 then "0.0".toList
      else if 0 ≤ s.exponent ∧ point ≤ 16 then s.positional ++ ".0".toList
      else if -5 < point ∧ point ≤ 16 then s.positional
      else
        let e := (if point < 1 then "" else "+").toList ++ (toString (point - 1)).toList
        match ds with
        | [d] => d :: 'e' :: e
        | d :: rest => d :: '.' :: rest ++ 'e' :: e
        | [] => []

end LiveLisp.Decimal
