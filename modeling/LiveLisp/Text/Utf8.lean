/-!
# UTF-8

Bytes are cut into well-formed characters and malformed pieces, a malformed piece being the
longest start of a character that breaks off. Strict decoding refuses malformed pieces; lossy
decoding puts the replacement character for each.
-/

namespace LiveLisp.Text.Utf8

/-- The bytes of a text. -/
def encode (text : String) : List UInt8 := text.toUTF8.toList

/-- Whether `b` continues a character. -/
def isContinuation (b : UInt8) : Bool := 0x80 ≤ b && b ≤ 0xbf

/-- Whether `second` may follow the leading byte `first` of a three-byte character. -/
def isSecondOfThree (first second : UInt8) : Bool :=
  if first == 0xe0 then 0xa0 ≤ second && second ≤ 0xbf
  else if first == 0xed then 0x80 ≤ second && second ≤ 0x9f
  else isContinuation second

/-- Whether `second` may follow the leading byte `first` of a four-byte character. -/
def isSecondOfFour (first second : UInt8) : Bool :=
  if first == 0xf0 then 0x90 ≤ second && second ≤ 0xbf
  else if first == 0xf4 then 0x80 ≤ second && second ≤ 0x8f
  else isContinuation second

/-- The payload bits of a continuation byte. -/
def low (b : UInt8) : Nat := b.toNat % 64

/-- The character that starts with `b`, or nothing for a malformed piece, and how many of the
bytes after `b` belong to it. -/
def piece (b : UInt8) (rest : List UInt8) : Option Char × Nat :=
  if b < 0x80 then (some (Char.ofNat b.toNat), 0)
  else if 0xc2 ≤ b && b ≤ 0xdf then
    match rest with
    | c :: _ =>
      if isContinuation c then (some (Char.ofNat (b.toNat % 32 * 64 + low c)), 1) else (none, 0)
    | [] => (none, 0)
  else if 0xe0 ≤ b && b ≤ 0xef then
    match rest with
    | c :: d :: _ =>
      if isSecondOfThree b c then
        if isContinuation d then
          (some (Char.ofNat ((b.toNat % 16 * 64 + low c) * 64 + low d)), 2)
        else (none, 1)
      else (none, 0)
    | [c] => (none, if isSecondOfThree b c then 1 else 0)
    | [] => (none, 0)
  else if 0xf0 ≤ b && b ≤ 0xf4 then
    match rest with
    | c :: d :: e :: _ =>
      if isSecondOfFour b c then
        if isContinuation d then
          if isContinuation e then
            (some (Char.ofNat (((b.toNat % 8 * 64 + low c) * 64 + low d) * 64 + low e)), 3)
          else (none, 2)
        else (none, 1)
      else (none, 0)
    | [c, d] =>
      (none, if isSecondOfFour b c then (if isContinuation d then 2 else 1) else 0)
    | [c] => (none, if isSecondOfFour b c then 1 else 0)
    | [] => (none, 0)
  else (none, 0)

/-- The pieces of a byte string after passing over `skip` bytes. -/
def piecesFrom (skip : Nat) : List UInt8 → List (Option Char)
  | [] => []
  | b :: rest =>
    match skip with
    | 0 => (piece b rest).1 :: piecesFrom (piece b rest).2 rest
    | k + 1 => piecesFrom k rest

/-- The characters and malformed pieces of a byte string, in order. -/
def pieces (bytes : List UInt8) : List (Option Char) := piecesFrom 0 bytes

/-- The text, if every piece is well-formed. -/
def decode? (bytes : List UInt8) : Option String := ((pieces bytes).mapM id).map String.ofList

/-- The text with the replacement character for every malformed piece. -/
def decodeLossy (bytes : List UInt8) : String :=
  String.ofList ((pieces bytes).map (fun p => p.getD (Char.ofNat 0xfffd)))

end LiveLisp.Text.Utf8
