import SpaceLang.Unicode.Range

/-!
# White space

The characters with the property White_Space: the blanks and line ends of ASCII, the next-line
character, the no-break space, and the spaces and separators of the other blocks. There are 25 of
them in version 16.0 of the character database.
-/

namespace SpaceLang.Unicode

/-- The ranges of the property, in ascending order. -/
def whiteSpaceRanges : List (Nat × Nat) := [
  (0x9, 0xD), (0x20, 0x20), (0x85, 0x85), (0xA0, 0xA0), (0x1680, 0x1680), (0x2000, 0x200A),
  (0x2028, 0x2029), (0x202F, 0x202F), (0x205F, 0x205F), (0x3000, 0x3000)]

theorem ascendFrom_whiteSpaceRanges : ascendFrom 0 whiteSpaceRanges := by
  decide +kernel

/-- Whether a character has the property White_Space. -/
def isWhiteSpace (c : Char) : Bool :=
  inRanges whiteSpaceRanges c.toNat

end SpaceLang.Unicode
