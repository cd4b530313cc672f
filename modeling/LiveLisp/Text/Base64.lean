/-!
# Base 64

Three bytes become four letters of the standard alphabet; equals signs fill the last group up.
-/

namespace LiveLisp.Text.Base64

/-- The standard alphabet. -/
def alphabet : List Char :=
  "ABCDEFGHIJKLMNOPQRSTUVWXYZabcdefghijklmnopqrstuvwxyz0123456789+/".toList

/-- The letter for six bits. -/
def letter (n : Nat) : Char := alphabet.getD (n % 64) 'A'

/-- The six bits of a letter. -/
def value? (c : Char) : Option Nat := alphabet.findIdx? (· == c)

/-- The letters of a byte string. -/
def encodeBytes : List UInt8 → List Char
  | [] => []
  | [a] =>
    let n := a.toNat * 16
    [letter (n / 64), letter n, '=', '=']
  | [a, b] =>
    let n := (a.toNat * 256 + b.toNat) * 4
    [letter (n / 4096), letter (n / 64), letter n, '=']
  | a :: b :: c :: rest =>
    let n := (a.toNat * 256 + b.toNat) * 256 + c.toNat
    letter (n / 262144) :: letter (n / 4096) :: letter (n / 64) :: letter n :: encodeBytes rest

/-- The bytes of one full group of letters. -/
def group? (a b c d : Char) : Option (List UInt8) := do
  let a ← value? a
  let b ← value? b
  if c = '=' then
    if d = '=' then return [UInt8.ofNat (a * 4 + b / 16)] else none
  else
    let c ← value? c
    if d = '=' then return [UInt8.ofNat (a * 4 + b / 16), UInt8.ofNat (b * 16 + c / 4)]
    else
      let d ← value? d
      return [UInt8.ofNat (a * 4 + b / 16), UInt8.ofNat (b * 16 + c / 4), UInt8.ofNat (c * 64 + d)]

/-- The bytes written by letters; only the last group may be filled up. -/
def decodeBytes? : List Char → Option (List UInt8)
  | [] => some []
  | [a, b, c, d] => group? a b c d
  | a :: b :: c :: d :: rest =>
    if c = '=' ∨ d = '=' then none
    else do
      let first ← group? a b c d
      let more ← decodeBytes? rest
      return first ++ more
  | _ => none

/-- The letters for the UTF-8 bytes of a text. -/
def encode (text : String) : String := String.ofList (encodeBytes text.toUTF8.toList)

end LiveLisp.Text.Base64
