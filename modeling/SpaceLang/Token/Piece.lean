import SpaceLang.Token.Basic
import SpaceLang.Token.Quoted
import SpaceLang.Unicode.Alphabetic
import SpaceLang.Unicode.DecimalDigit
import SpaceLang.Unicode.WhiteSpace

/-!
# Pieces of a source

A source is a row of pieces: blanks, comments, words, digits, string literals, operators and
symbols. `Piece.text` is the piece as written and `Piece.content?` what it contributes to the
tokens, which is nothing for blanks and comments. `Piece.first?` reads the piece that a text begins
with, by the first rule that applies, and each run is as long as it can be; it fails only at the
quote of a string literal that nothing closes. `Piece.split` reads on from there until the text is
used up.

A piece is never empty (`text_eq_cons`) and is what the text begins with (`eq_text_append`), so the
pieces of a source and what is left of it make it up again (`flatMap_text_append_left`).
-/

namespace SpaceLang

/-- A maximal part of a source that is read as one. -/
inductive Piece where
  /-- White space. -/
  | blank (run : List Char)
  /-- What follows the two slashes on the rest of a line. -/
  | comment (body : List Char)
  /-- An identifier or a reserved word. -/
  | word (run : List Char)
  /-- Decimal digits of ASCII. -/
  | digits (run : List Char)
  /-- What stands between the two quotes. -/
  | literal (body : List Char)
  /-- An operator of one or two characters. -/
  | operator (run : List Char)
  /-- Any other character. -/
  | symbol (c : Char)
deriving DecidableEq, Repr

namespace Piece

/-- Whether a word can begin with a character. -/
def isWordStart (c : Char) : Bool :=
  Unicode.isAlphabetic c || c = '_'

/-- Whether a word can go on with a character. -/
def isWordPart (c : Char) : Bool :=
  Unicode.isAlphabetic c || Unicode.isDecimalDigit c || c = '_'

/-- A piece as written. -/
def text : Piece → List Char
  | blank run => run
  | comment body => '/' :: '/' :: body
  | word run => run
  | digits run => run
  | literal body => '"' :: body ++ ['"']
  | operator run => run
  | symbol c => [c]

/-- The kind and the value of the token that a piece stands for. -/
def content? : Piece → Option (TokenKind × String)
  | blank _ => none
  | comment _ => none
  | word run =>
    let value := String.ofList run
    some (if value ∈ reservedWords then .keyword else .identifier, value)
  | digits run => some (.number, String.ofList run)
  | literal body => some (.string, String.ofList (Quoted.unescape body))
  | operator run => some (.operator, String.ofList run)
  | symbol c => some (.symbol, c.toString)

/-- The operator or symbol that a text begins with; an operator of two characters goes first. -/
def mark (c : Char) (cs : List Char) : Piece :=
  match cs with
  | d :: _ =>
    if String.ofList [c, d] ∈ pairOperators then operator [c, d]
    else if c ∈ singleOperators then operator [c] else symbol c
  | [] => if c ∈ singleOperators then operator [c] else symbol c

/-- The piece that a text with the first character `c` begins with. -/
def first? (c : Char) (cs : List Char) : Option Piece :=
  if Unicode.isWhiteSpace c then some (blank (c :: cs.takeWhile Unicode.isWhiteSpace))
  else if c = '/' ∧ cs.head? = some '/' then some (comment (cs.tail.takeWhile (· ≠ '\n')))
  else if isWordStart c then some (word (c :: cs.takeWhile isWordPart))
  else if c.isDigit then some (digits (c :: cs.takeWhile Char.isDigit))
  else if c = '"' then (Quoted.body? cs).map literal
  else some (mark c cs)

/-! ## A piece is part of its text -/

theorem mark_text (c : Char) (cs : List Char) :
    ∃ t rest, (mark c cs).text = c :: t ∧ cs = t ++ rest := by
  unfold mark
  split
  · next d ds =>
    split
    · exact ⟨[d], ds, rfl, rfl⟩
    · split <;> exact ⟨[], d :: ds, rfl, rfl⟩
  · split <;> exact ⟨[], [], rfl, rfl⟩

/-- The first piece of a text takes its first character and what follows it up to some place. -/
theorem first?_text {c : Char} {cs : List Char} {p : Piece} (h : first? c cs = some p) :
    ∃ t rest, p.text = c :: t ∧ cs = t ++ rest := by
  unfold first? at h
  split at h
  · cases h
    exact ⟨_, cs.dropWhile Unicode.isWhiteSpace, rfl, List.takeWhile_append_dropWhile.symm⟩
  split at h
  · next hc =>
    cases h
    obtain ⟨rfl, hd⟩ := hc
    obtain ⟨ds, rfl⟩ := List.head?_eq_some_iff.1 hd
    refine ⟨'/' :: ds.takeWhile (· ≠ '\n'), ds.dropWhile (· ≠ '\n'), rfl, ?_⟩
    rw [List.cons_append, List.takeWhile_append_dropWhile]
  split at h
  · cases h
    exact ⟨_, cs.dropWhile isWordPart, rfl, List.takeWhile_append_dropWhile.symm⟩
  split at h
  · cases h
    exact ⟨_, cs.dropWhile Char.isDigit, rfl, List.takeWhile_append_dropWhile.symm⟩
  split at h
  · next hc =>
    obtain ⟨body, hb, rfl⟩ := Option.map_eq_some_iff.1 h
    obtain ⟨rest, rfl⟩ := Quoted.eq_append_of_body? hb
    exact ⟨body ++ ['"'], rest, by rw [hc]; rfl, by simp⟩
  · cases h
    exact mark_text c cs

theorem text_eq_cons {c : Char} {cs : List Char} {p : Piece} (h : first? c cs = some p) :
    ∃ t, p.text = c :: t :=
  let ⟨t, _, ht, _⟩ := first?_text h
  ⟨t, ht⟩

theorem eq_text_append {c : Char} {cs : List Char} {p : Piece} (h : first? c cs = some p) :
    c :: cs = p.text ++ (c :: cs).drop p.text.length := by
  obtain ⟨t, rest, ht, rfl⟩ := first?_text h
  simp [ht]

theorem text_length_pos {c : Char} {cs : List Char} {p : Piece} (h : first? c cs = some p) :
    0 < p.text.length := by
  obtain ⟨t, ht⟩ := text_eq_cons h
  simp [ht]

/-! ## All pieces of a text -/

/-- The pieces of a text, and what is left of it from the first string literal that nothing
closes. -/
def split : List Char → List Piece × List Char
  | [] => ([], [])
  | c :: cs =>
    match h : first? c cs with
    | none => ([], c :: cs)
    | some p =>
      have := text_length_pos h
      let (pieces, left) := split ((c :: cs).drop p.text.length)
      (p :: pieces, left)
termination_by cs => cs.length

@[simp] theorem split_nil : split [] = ([], []) := by
  rw [split]

theorem split_of_none {c : Char} {cs : List Char} (h : first? c cs = none) :
    split (c :: cs) = ([], c :: cs) := by
  rw [split]
  split
  · rfl
  · next h' => simp [h] at h'

theorem split_of_some {c : Char} {cs : List Char} {p : Piece} (h : first? c cs = some p) :
    split (c :: cs) =
      (p :: (split ((c :: cs).drop p.text.length)).1,
        (split ((c :: cs).drop p.text.length)).2) := by
  rw [split]
  split
  · next h' => simp [h] at h'
  · next h' =>
    cases h.symm.trans h'
    rfl

/-- No character of a text is lost: its pieces and what is left make it up. -/
theorem flatMap_text_append_left (cs : List Char) :
    (split cs).1.flatMap text ++ (split cs).2 = cs := by
  fun_induction split cs with
  | case1 => rfl
  | case2 => rfl
  | case3 c cs p h _ pieces left hs ih =>
    rw [hs] at ih
    rw [List.flatMap_cons, List.append_assoc, ih, ← eq_text_append h]

end Piece

end SpaceLang
