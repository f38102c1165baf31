/-!
# Positions and spans

A `Position` is a line and a column, both counted from one; columns count characters.
`Position.next` is the place after one character and `Position.after` the place after a text, so a
position is what remains of the text before it. Positions are ordered first by line and then by
column. A `Span` runs from the position of its first character to the position after its last one.
-/

namespace SpaceLang

/-- A place in a text. The counters are 32-bit words and wrap. -/
structure Position where
  line : UInt32
  column : UInt32
deriving DecidableEq, Inhabited, Repr

namespace Position

/-- The place of the first character of a text. -/
def start : Position := ⟨1, 1⟩

/-- The place after the character `c` at `p`: a line feed begins a new line. -/
def next (p : Position) (c : Char) : Position :=
  if c = '\n' then ⟨p.line + 1, 1⟩ else ⟨p.line, p.column + 1⟩

/-- The place after a text that begins at `p`. -/
def after (p : Position) (text : List Char) : Position :=
  text.foldl next p

@[simp] theorem after_nil (p : Position) : p.after [] = p := rfl

@[simp] theorem after_cons (p : Position) (c : Char) (cs : List Char) :
    p.after (c :: cs) = (p.next c).after cs := rfl

theorem after_append (p : Position) (xs ys : List Char) :
    p.after (xs ++ ys) = (p.after xs).after ys :=
  List.foldl_append

/-! ## Order -/

instance : LT Position where
  lt p q := p.line < q.line ∨ p.line = q.line ∧ p.column < q.column

theorem lt_def {p q : Position} :
    p < q ↔ p.line < q.line ∨ p.line = q.line ∧ p.column < q.column := Iff.rfl

instance (p q : Position) : Decidable (p < q) :=
  decidable_of_iff _ lt_def.symm

instance : LE Position where
  le p q := p < q ∨ p = q

theorem le_def {p q : Position} : p ≤ q ↔ p < q ∨ p = q := Iff.rfl

instance (p q : Position) : Decidable (p ≤ q) :=
  decidable_of_iff _ le_def.symm

instance : Ord Position where
  compare p q := compareOfLessAndEq p q

/-! ## Text -/

/-- A position in the words of a message. -/
def describe (p : Position) : String :=
  "line " ++ toString p.line.toNat ++ ", column " ++ toString p.column.toNat

end Position

/-- A stretch of text: `start` is the place of its first character and `stop` the place after its
last one. -/
structure Span where
  start : Position
  stop : Position
deriving DecidableEq, Inhabited, Repr

namespace Span

/-- The empty stretch at a place. -/
def emptyAt (p : Position) : Span := ⟨p, p⟩

/-- The stretch from the beginning of one stretch to the end of another. -/
def join (first last : Span) : Span := ⟨first.start, last.stop⟩

end Span

end SpaceLang
