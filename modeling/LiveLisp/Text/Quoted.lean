import LiveLisp.Text.Combining
import LiveLisp.Text.Hidden
/-!
# Quoted text in messages

Messages show a text between quotes, with escapes for the quote, the backslash, three blanks, the
null character and everything that has no picture of its own.
-/

namespace LiveLisp.Text

/-- `\u` with the code in braces, in as few lower-case digits as it takes. -/
def codeEscape (c : Char) : List Char :=
  ['\\', 'u', '\x7b'] ++ Nat.toDigits 16 c.toNat ++ ['\x7d']

/-- What stands for a character between two `quote`s. -/
def quotedChar (quote c : Char) : List Char :=
  if c.toNat = 0 then ['\\', '0']
  else if c = '\t' then ['\\', 't']
  else if c = '\r' then ['\\', 'r']
  else if c = '\n' then ['\\', 'n']
  else if c = '\\' then ['\\', '\\']
  else if c = quote then ['\\', quote]
  else if isCombining c || isHidden c then codeEscape c
  else [c]

/-- A text between double quotes. -/
def quoted (text : String) : String :=
  String.ofList ('"' :: text.toList.flatMap (quotedChar '"') ++ ['"'])

/-- A character between single quotes. -/
def quotedSingle (c : Char) : String :=
  String.ofList ('\x27' :: quotedChar '\x27' c ++ ['\x27'])

end LiveLisp.Text
