import Localizer.Text.InvisibleRanges

/-!
# Quoted texts

A text as it is shown in a message: between quotes, with escapes for the quote,
the backslash, line breaks and tabs, and with the number of every character that
has no look of its own.
-/

namespace Localizer.Text

/-- The number of a character in hexadecimal digits. -/
def hexDigits (c : Char) : List Char := Nat.toDigits 16 c.toNat

/-- A character as it is shown between two `quote`s. -/
def spell (quote c : Char) : List Char :=
  if c == '\x00' then ['\\', '0']
  else if c == '\t' then ['\\', 't']
  else if c == '\n' then ['\\', 'n']
  else if c == '\r' then ['\\', 'r']
  else if c == '\\' then ['\\', '\\']
  else if c == quote then ['\\', quote]
  else if invisibleRanges.contains c then "\\u\x7b".toList ++ hexDigits c ++ ['\x7d']
  else [c]

/-- A text between double quotes. -/
def quoted (s : String) : String :=
  String.ofList ('"' :: s.toList.flatMap (spell '"') ++ ['"'])

/-- A character between single quotes. -/
def quotedChar (c : Char) : String :=
  String.ofList ('\'' :: spell '\'' c ++ ['\''])

end Localizer.Text
