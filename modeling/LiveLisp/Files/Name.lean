import LiveLisp.Text.Utf8
/-!
# File names

The name of a file is a string of bytes, in most cases those of a text. A name is kept as text; a
byte that belongs to no character stands in it as the null character, which no file name holds,
with the character that has the byte for its code. Where a name has to be shown, the replacement
character stands for what is no text.
-/

namespace LiveLisp.Files.Name

open Text

/-- The byte that stands behind a null character. -/
def byteOf? (c : Char) : Option UInt8 :=
  if 0x80 ≤ c.toNat ∧ c.toNat ≤ 0xff then some (UInt8.ofNat c.toNat) else none

/-- The bytes that the characters of a name stand for. -/
def bytesFrom : List Char → List UInt8
  | [] => []
  | [c] => String.utf8EncodeChar c
  | c :: d :: rest =>
    match if c = '\x00' then byteOf? d else none with
    | some b => b :: bytesFrom rest
    | none => String.utf8EncodeChar c ++ bytesFrom (d :: rest)

/-- The bytes of a name. -/
def bytes (name : String) : List UInt8 := bytesFrom name.toList

/-- The name as a text, with the replacement character for what is none. -/
def shown (name : String) : String := Utf8.decodeLossy (bytes name)

/-- The order of names, byte by byte. -/
def before (a b : String) : Bool := decide (bytes a < bytes b)

end LiveLisp.Files.Name
