/-!
# Escaped text

The form in which a message shows a text of any characters: on one line and in printable ASCII. The
quotes, the backslash, the tab and the two line ends have escapes of two characters, and every other
character outside U+0020 to U+007E is written by its code point in hexadecimal.
-/

namespace SpaceLang.Escape

/-- The digits of a number in base sixteen, in lower case and without leading zeros. -/
def hexadecimal (n : Nat) : List Char :=
  Nat.toDigits 16 n

/-- One character in escaped form. -/
def char (c : Char) : List Char :=
  if c = '\t' then ['\\', 't']
  else if c = '\r' then ['\\', 'r']
  else if c = '\n' then ['\\', 'n']
  else if c = '\'' then ['\\', '\'']
  else if c = '"' then ['\\', '"']
  else if c = '\\' then ['\\', '\\']
  else if ' ' ≤ c ∧ c ≤ '~' then [c]
  else ['\\', 'u', '\x7b'] ++ hexadecimal c.toNat ++ ['\x7d']

/-- A text in escaped form, character by character. -/
def text (s : String) : String :=
  String.ofList (s.toList.flatMap char)

end SpaceLang.Escape
