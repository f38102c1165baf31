import SpaceLang.Class.Basic

/-!
# Spaces

A space has a name of segments with dots between them, and holds the classes declared in it.
-/

namespace SpaceLang

/-- The index of a space among others. -/
structure Space.Id where
  index : Nat
deriving DecidableEq, Inhabited, Repr

/-- A space. `parent?` is the space that it belongs to. -/
structure Space where
  name : String
  classes : List Class
  parent? : Option Space.Id
  span : Span
deriving Inhabited

namespace Space

/-- The parts of a text between its dots. There is one more than there are dots. -/
def splitDots (text : List Char) : List (List Char) :=
  text.foldr (fun c parts => if c = '.' then [] :: parts else parts.modifyHead (c :: ·)) [[]]

/-- The segments of the name of a space. -/
def segments (s : Space) : List String :=
  (splitDots s.name.toList).map String.ofList

end Space

end SpaceLang
