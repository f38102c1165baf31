import SpaceLang.Diagnostic.Basic
import SpaceLang.Token.Piece

/-!
# Reading tokens

A `Reader` stands between two characters of its source: it holds the place, which is known by the
number of bytes before it, the position of the place and the tokens read so far. It moves one
character at a time, which keeps the position in step, and at the end of the source it stays where
it is. `Reader.take` moves over a piece and keeps its token, and `Token.ofSource` takes every piece
of a source and closes the list with the end marker.

`Reader.Passes` says what moves have in common: the characters that they pass are taken from what is
left of the source, and the position moves over them.
-/

namespace SpaceLang

/-- A place in a source and the tokens before it, the latest first. -/
structure Reader where
  source : String
  place : source.Pos
  position : Position
  tokens : List Token
deriving DecidableEq

namespace Reader

/-- At the beginning of a source. -/
def ofString (source : String) : Reader := ⟨source, source.startPos, .start, []⟩

/-- The characters to come. -/
def rest (r : Reader) : List Char := (r.source.sliceFrom r.place).copy.toList

/-- The character to come. -/
def peek? (r : Reader) : Option Char := r.place.get?

/-- Whether no character is left. -/
def atEnd (r : Reader) : Bool := r.place = r.source.endPos

/-- Past the character to come. -/
def advance (r : Reader) : Reader :=
  if h : r.place = r.source.endPos then r
  else { r with place := r.place.next h, position := r.position.next (r.place.get h) }

/-- The character to come, and the reader past it. -/
def read (r : Reader) : Option Char × Reader := (r.peek?, r.advance)

/-- Past the next `n` characters, or as many as are left. -/
def advanceBy (r : Reader) : Nat → Reader
  | 0 => r
  | n + 1 => r.advance.advanceBy n

/-- With one more token. -/
def push (r : Reader) (t : Token) : Reader := { r with tokens := t :: r.tokens }

/-- Past a piece, with its token if it has one. -/
def take (r : Reader) (p : Piece) : Reader :=
  let past := r.advanceBy p.text.length
  match p.content? with
  | none => past
  | some (kind, value) => past.push ⟨kind, value, ⟨r.position, past.position⟩⟩

variable {r r' r'' : Reader} {cs ds : List Char} {c : Char}

/-! ## Steps -/

@[simp] theorem rest_ofString (source : String) : (ofString source).rest = source.toList := by
  rw [rest, ofString, source.splits_startPos.copy_sliceFrom_eq]

theorem rest_of_atEnd (h : r.place = r.source.endPos) : r.rest = [] := by
  simp [rest, h]

theorem rest_of_not_atEnd (h : r.place ≠ r.source.endPos) :
    r.rest = r.place.get h :: r.advance.rest := by
  have hsplits := r.place.splits_next_right h
  rw [rest, hsplits.copy_sliceFrom_eq, String.toList_append, String.toList_singleton,
    List.singleton_append, advance, dif_neg h]
  rfl

theorem peek?_eq_head?_rest (r : Reader) : r.peek? = r.rest.head? := by
  by_cases h : r.place = r.source.endPos
  · rw [rest_of_atEnd h, peek?, h]
    exact String.Pos.get?_endPos ..
  · rw [rest_of_not_atEnd h]
    exact String.Pos.get?_eq_some_get h

theorem atEnd_iff : r.atEnd ↔ r.rest = [] := by
  by_cases h : r.place = r.source.endPos
  · simp [atEnd, h, rest_of_atEnd h]
  · simp [atEnd, h, rest_of_not_atEnd h]

theorem advance_of_atEnd (h : r.atEnd) : r.advance = r := by
  rw [advance, dif_pos (of_decide_eq_true h)]

/-- What is left of a source is behind the place of the reader, and what is not is before it. -/
theorem splits_place (h : cs ++ r.rest = r.source.toList) :
    r.place.Splits (String.ofList cs) (String.ofList r.rest) := by
  have hsplits := r.place.splits
  have hbefore : (r.source.sliceTo r.place).copy.toList = cs := by
    have hsource := congrArg String.toList hsplits.eq_append
    rw [String.toList_append, ← h] at hsource
    exact (List.append_cancel_right hsource).symm
  refine hsplits.of_eq ?_ ?_
  · rw [← hbefore, String.ofList_toList]
  · rw [rest, String.ofList_toList]

/-! ## What is passed -/

/-- From `r` over the characters `cs` to `r'`, in the same source. -/
structure Passes (r : Reader) (cs : List Char) (r' : Reader) : Prop where
  source_eq : r'.source = r.source
  rest_eq : r.rest = cs ++ r'.rest
  position_eq : r'.position = r.position.after cs

theorem Passes.refl (r : Reader) : r.Passes [] r :=
  ⟨rfl, (List.nil_append _).symm, rfl⟩

theorem Passes.push (h : r.Passes cs r') (t : Token) : r.Passes cs (r'.push t) :=
  ⟨h.source_eq, h.rest_eq, h.position_eq⟩

theorem Passes.append (h : r.Passes cs r') (h' : r'.Passes ds r'') : r.Passes (cs ++ ds) r'' := by
  constructor
  · rw [h'.source_eq, h.source_eq]
  · rw [h.rest_eq, h'.rest_eq, List.append_assoc]
  · rw [h'.position_eq, h.position_eq, Position.after_append]

/-- A step passes the character that it reads, if there is one. -/
theorem passes_advance (r : Reader) : r.Passes r.peek?.toList r.advance := by
  by_cases h : r.place = r.source.endPos
  · rw [peek?_eq_head?_rest, rest_of_atEnd h, advance_of_atEnd (decide_eq_true h)]
    exact .refl r
  · rw [peek?_eq_head?_rest, rest_of_not_atEnd h]
    refine ⟨?_, rest_of_not_atEnd h, ?_⟩
    all_goals simp [advance, h]

/-- Moving over a text that comes next. -/
theorem passes_advanceBy (h : r.rest = cs ++ ds) : r.Passes cs (r.advanceBy cs.length) := by
  induction cs generalizing r with
  | nil => exact .refl r
  | cons c cs ih =>
    have hstep := r.passes_advance
    rw [peek?_eq_head?_rest, h] at hstep
    have hrest : r.advance.rest = cs ++ ds := by
      have heq := hstep.rest_eq
      rw [h] at heq
      exact (List.cons.inj heq).2.symm
    exact hstep.append (ih hrest)

@[simp] theorem tokens_advance (r : Reader) : r.advance.tokens = r.tokens := by
  unfold advance
  split <;> rfl

@[simp] theorem tokens_advanceBy (r : Reader) (n : Nat) : (r.advanceBy n).tokens = r.tokens := by
  induction n generalizing r with
  | zero => rfl
  | succ n ih => rw [advanceBy, ih, tokens_advance]

end Reader

/-- The tokens of a source, the end marker last. It fails only at a string literal that nothing
closes, at the position of its quote. -/
def Token.ofSource (source : String) : Except Diagnostic (List Token) :=
  let (pieces, left) := Piece.split source.toList
  let reader := pieces.foldl Reader.take (.ofString source)
  match left with
  | [] => .ok (reader.push (.endOfFile reader.position)).tokens.reverse
  | _ :: _ => .error ⟨.unterminatedString, reader.position⟩

end SpaceLang
