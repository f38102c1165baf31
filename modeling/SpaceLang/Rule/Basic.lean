import SpaceLang.Diagnostic.Basic
import SpaceLang.Rule.Cursor

/-!
# Rules

A `Rule` reads a construct from a cursor: it returns what it has read and the cursor behind it, or a
diagnostic and the cursor where it stopped. Every diagnostic of a rule is raised by `fail`, so its
position is where the token begins that the cursor stands on, and its cause is made from that token.

All repetition is `foldWhile`, which goes on as long as a test holds of the current token. Its steps
consume tokens, and a step that consumed none would be the last one, so the repetition ends after at
most as many steps as tokens remain.
-/

namespace SpaceLang

/-- A reader of one construct, which keeps the cursor also when it fails. -/
abbrev Rule := EStateM Diagnostic Cursor

namespace Rule

variable {α β σ : Type}

/-! ## Single tokens -/

/-- The current token. -/
def current : Rule Token := fun c => .ok c.current c

/-- The token `n` places ahead. -/
def peek (n : Nat) : Rule Token := fun c => .ok (c.peek n) c

/-- The current token, which is consumed unless it is an end marker. -/
def advance : Rule Token := fun c => .ok c.current c.advance

/-- Refuses the current token for a cause made from it. -/
def fail (cause : Token → Cause) : Rule α := fun c =>
  .error ⟨cause c.current, c.current.position⟩ c

/-- The cause for a token in the place of something else. -/
def missing (expected : String) (found : Token) : Cause :=
  if found.isEndOfFile then .unexpectedEndOfFile expected
  else .expectedToken expected found.describe

/-- Consumes the current token if it passes a test. -/
def accept (test : Token → Bool) (expected : String) : Rule Token := do
  if test (← current) then advance else fail (missing expected)

/-- A token of a kind. -/
def kind (k : TokenKind) (expected : String) : Rule Token :=
  accept (fun t => t.kind = k) expected

/-- An identifier, by its text. -/
def identifier (expected : String) : Rule String := do
  return (← kind .identifier expected).value

/-- The symbol `s`. -/
def symbol (s : String) : Rule Token :=
  accept (fun t => t.isSymbol s) ("`" ++ s ++ "`")

/-- A token that can name a type. -/
def typeName : Rule Token :=
  accept Token.isTypeName "type name"

/-- From `start` to the end of the last token consumed. -/
def spanFrom (start : Position) : Rule Span := fun c => .ok ⟨start, c.previousEnd⟩ c

/-! ## Repetition -/

/-- Folds a step as long as a test of the current token succeeds, and hands the step what the test
found. -/
def foldWhile (test : Token → Option β) (step : σ → β → Rule σ) (state : σ) : Rule σ := fun c =>
  match test c.current with
  | none => .ok state c
  | some b =>
    match step state b c with
    | .error e c' => .error e c'
    | .ok state' c' =>
      if c'.remaining < c.remaining then foldWhile test step state' c' else .ok state' c'
termination_by c => c.remaining

/-- A list of items, each of which begins where the test succeeds. -/
def many (test : Token → Option β) (item : β → Rule α) : Rule (List α) := do
  return (← foldWhile test (fun items b => return (← item b) :: items) []).reverse

/-- A list of items up to the symbol `close`, which is not consumed. -/
def untilSymbol (close : String) (item : Rule α) : Rule (List α) :=
  many (fun t => if t.isSymbol close then none else some ()) (fun _ => item)

/-- A list of items with commas between them, up to the symbol `close`, which is not consumed. -/
def commaList (close : String) (item : Rule α) : Rule (List α) := do
  if (← current).isSymbol close then return []
  let first ← item
  let others ← many (fun t => if t.isSymbol "," then some () else none) (fun _ => advance *> item)
  return first :: others

end Rule

end SpaceLang
