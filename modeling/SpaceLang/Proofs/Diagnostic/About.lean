import SpaceLang.Proofs.Token.Kind
import SpaceLang.Rule.Basic

/-!
# What a diagnostic is about

A diagnostic describes a token if it has its position and a cause whose fields say of the token what
is so (`Diagnostic.Describes`). What the other fields say is about the list of the token: the names
in a cause are those of identifiers of the list, and what it says to be expected is one of a few
texts (`Cause.expectations`). `Diagnostic.IsAbout` says both of the token that a cursor stands on.
-/

namespace SpaceLang

/-- Whether a cause describes the token `t`, whatever names it holds and whatever it expects: the
fields that describe a token describe `t`, those that hold the bare text of one hold that of `t`,
and the end of the file is reported at an end marker only. -/
def Cause.Describes (t : Token) : Cause → Prop
  | unterminatedString => False
  | expectedSpaceDeclaration found => found = t.describe
  | expectedTypeDeclaration found => found = t.describe
  | expectedClassName found => found = t.describe
  | expectedToken _ found => found = t.describe ∧ t.isEndOfFile = false
  | unexpectedEndOfFile _ => t.isEndOfFile
  | unknownMemberDeclaration _ found => found = t.describe
  | invalidAccessor found => found = t.describe
  | duplicateAccessor _ accessor => accessor = t.value
  | missingInitializer _ => True
  | unexpectedToken token => token = t.describe ∧ t.isEndOfFile = false
  | numberParseError token => token = t.value

/-- Whether a diagnostic is at the beginning of the token `t`, with a cause that describes it. -/
structure Diagnostic.Describes (e : Diagnostic) (t : Token) : Prop where
  position : e.position = t.position
  cause : e.cause.Describes t

/-- Whether a text is the name of an identifier among some tokens. -/
def IsNamed (ts : List Token) (name : String) : Prop :=
  ∃ t ∈ ts, t.kind = .identifier ∧ t.value = name

namespace Cause

/-- All that a rule expects in the place of another token. -/
def expectations : List String :=
  ["space name", "type name", "member name", "parameter name", "variable name", "expression",
    "`;`", "`(`", "`)`", "`" ++ leftBrace ++ "`", "`" ++ rightBrace ++ "`"]

/-- The names that a cause holds. -/
def names : Cause → List String
  | unknownMemberDeclaration member _ => [member]
  | duplicateAccessor property _ => [property]
  | missingInitializer variableName => [variableName]
  | _ => []

theorem ne_missingInitializer {cause : Cause} (h : cause.names = []) (name : String) :
    cause ≠ missingInitializer name := by
  rintro rfl
  cases h

/-- Whether a cause fits the token `t`: it expects one of the texts that rules expect, and if it
holds the bare text of `t`, then `t` is of the kind that it says. -/
def Fits (t : Token) : Cause → Prop
  | expectedToken expected _ => expected ∈ expectations
  | unexpectedEndOfFile expected => expected ∈ expectations
  | duplicateAccessor _ _ => t.kind = .keyword
  | numberParseError _ => t.kind = .number
  | _ => True

/-- Whether a cause says of a token `t` among the tokens `ts` what is so. -/
structure IsAbout (ts : List Token) (t : Token) (cause : Cause) : Prop where
  describes : cause.Describes t
  fits : cause.Fits t
  named : ∀ name ∈ cause.names, IsNamed ts name

end Cause

/-- Whether a diagnostic has the position of the current token and a cause that is about it. -/
structure Diagnostic.IsAbout (e : Diagnostic) (c : Cursor) : Prop where
  position : e.position = c.current.position
  cause : e.cause.IsAbout c.toList c.current

namespace Cursor

theorem current_mem_toList (c : Cursor) : c.current ∈ c.toList :=
  List.mem_append_right _ (List.mem_cons_self ..)

theorem isNamed_current {c : Cursor} (h : c.current.kind = .identifier) :
    IsNamed c.toList c.current.value :=
  ⟨c.current, c.current_mem_toList, h, rfl⟩

end Cursor

namespace Rule

variable {expected : String} {t : Token}

theorem describes_missing (expected : String) (t : Token) : (missing expected t).Describes t := by
  unfold missing
  cases hend : t.isEndOfFile with
  | true => exact hend
  | false => exact ⟨rfl, hend⟩

theorem fits_missing (h : expected ∈ Cause.expectations) (t : Token) :
    (missing expected t).Fits t := by
  unfold missing
  split
  · exact h
  · exact h

theorem names_missing (expected : String) (t : Token) : (missing expected t).names = [] := by
  unfold missing
  split <;> rfl

end Rule

end SpaceLang
