import SpaceLang.Source.Position

/-!
# The line at a position

A line runs up to a line feed. A carriage return right before that line feed belongs to the line
end and not to the line; at the end of the text, where no line feed follows, it stays.
`Line.ofPosition` looks a position up: lines and columns are counted from one, a zero counts as one,
and a line beyond the end of the text is empty.
-/

namespace SpaceLang

/-- One line of a text and a column on it. -/
structure Line where
  number : Nat
  text : String
  column : Nat
deriving DecidableEq, Repr

namespace Line

/-- The text that follows the first `n` line feeds; nothing if there are fewer. -/
def skip : Nat → List Char → List Char
  | 0, cs => cs
  | _ + 1, [] => []
  | n + 1, c :: cs => if c = '\n' then skip n cs else skip (n + 1) cs

/-- The line that a text begins with, without its end. -/
def first (cs : List Char) : List Char :=
  let body := cs.takeWhile (· != '\n')
  if body.length < cs.length ∧ body.getLast? = some '\r' then body.dropLast else body

/-- The line of `source` that `position` is on. -/
def ofPosition (source : String) (position : Position) : Line :=
  let number := max position.line.toNat 1
  { number
    text := String.ofList (first (skip (number - 1) source.toList))
    column := max position.column.toNat 1 }

end Line

end SpaceLang
