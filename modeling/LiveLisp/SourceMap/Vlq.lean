import LiveLisp.Bounds
import LiveLisp.Text.Base64
import LiveLisp.Text.Quoted
import LiveLisp.Text.Utf8
/-!
# Variable-length quantities

A signed number is written as base-64 letters of five bits each, lowest first; every letter but
the last has its sixth bit set, and the lowest bit of the number is its sign. Decoding works in
64-bit words.
-/

namespace LiveLisp.SourceMap

open Text

/-- The letters of a natural number, five bits each. -/
def letters (n : Nat) : List Char :=
  if n < 32 then [Base64.letter n] else Base64.letter (n % 32 + 32) :: letters (n / 32)
termination_by n
decreasing_by omega

/-- The letters of a signed number. -/
def encodeVlq (value : Int) : List Char :=
  letters (if value < 0 then 2 * value.natAbs + 1 else 2 * value.natAbs)

/-- Why a segment is malformed. -/
inductive SegmentFault where
  | badLetter (byte : UInt8)
  | overflow
  | truncated
  | fieldCount
  | nameIndex
  | negative
  deriving DecidableEq, Repr, Inhabited

/-- The text for a malformed segment. -/
def SegmentFault.message : SegmentFault → String
  | .badLetter b => "invalid base64 character " ++ quotedSingle (Char.ofNat b.toNat)
  | .overflow => "value overflows 64 bits"
  | .truncated => "truncated value"
  | .fieldCount => "expected 1, 4 or 5 fields"
  | .nameIndex => "name index out of range"
  | .negative => "negative position"

/-- The six bits of a letter given as a byte. -/
def letterBits? (b : UInt8) : Option Nat :=
  if b < 0x80 then Base64.value? (Char.ofNat b.toNat) else none

/-- A 64-bit word as a signed number. -/
def signed64 (n : Nat) : Int := Int.bmod n bound64

/-- The signed number whose bits, the lowest being the sign, are the word `n`. -/
def unzigzag (n : Nat) : Int :=
  let word := signed64 n
  let magnitude := word.fdiv 2
  if n % 2 = 1 then -magnitude else magnitude

/-- Decodes letters given the bits of the value in progress and how many they are. -/
def decodeFrom (value shift : Nat) (pending : Bool) :
    List UInt8 → Except SegmentFault (List Int)
  | [] => if pending then .error .truncated else .ok []
  | b :: rest =>
    match letterBits? b with
    | none => .error (.badLetter b)
    | some bits =>
      if 60 < shift then .error .overflow
      else
        let value := value + bits % 32 * Nat.pow 2 shift
        if 32 ≤ bits then decodeFrom value (shift + 5) true rest
        else
          match decodeFrom 0 0 false rest with
          | .ok values => .ok (unzigzag value :: values)
          | .error e => .error e

/-- The numbers of one segment. -/
def decodeSegment (segment : String) : Except SegmentFault (List Int) :=
  decodeFrom 0 0 false (Utf8.encode segment)

end LiveLisp.SourceMap
