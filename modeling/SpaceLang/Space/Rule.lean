import SpaceLang.Class.Rule
import SpaceLang.Space.Basic

/-!
# Reading spaces

A space is declared by its name and a semicolon, and everything behind them belongs to it.
-/

namespace SpaceLang.Rule

/-- The name of a space: identifiers with dots between them. White space and comments around the
dots are no part of it. -/
def spaceName : Rule String := do
  let first ← identifier "space name"
  let others ← many (fun t => if t.isSymbol "." then some () else none)
    (fun _ => advance *> identifier "space name")
  return ".".intercalate (first :: others)

/-- A space and its classes, up to the end marker. -/
def spaceDecl : Rule Space := do
  if !(← current).isKeyword "space" then
    fail (fun found => .expectedSpaceDeclaration found.describe)
  let start := (← advance).position
  let name ← spaceName
  let _ ← symbol ";"
  let classes ← many (fun t => if t.isEndOfFile then none else some ()) (fun _ => typeDecl)
  return ⟨name, classes, none, ← spanFrom start⟩

end SpaceLang.Rule
