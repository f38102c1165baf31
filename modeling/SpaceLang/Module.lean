import SpaceLang.Space.Rule
import SpaceLang.Token.Reader

/-!
# Modules

A module is what one source makes: the space it declares, under the name of a main module.
`Module.ofSource` reads it from the source, and `Module.ofTokens` from any list of tokens. The
tokens of a source are read first, so a string literal that nothing closes is reported whatever else
is wrong.
-/

namespace SpaceLang

/-- A source as a tree. -/
structure Module where
  name : String
  rootSpace : Space
  span : Span
deriving Inhabited

namespace Module

/-- The name of a module that is read from a source. -/
def mainName : String := "main"

/-- The module that a list of tokens makes. -/
def ofTokens (tokens : List Token) : Except Diagnostic Module :=
  match Rule.spaceDecl (.ofTokens tokens) with
  | .ok space _ => .ok ⟨mainName, space, space.span⟩
  | .error diagnostic _ => .error diagnostic

/-- The module that a source makes. -/
def ofSource (source : String) : Except Diagnostic Module := do
  ofTokens (← Token.ofSource source)

/-- The classes of a module, in order. -/
def classes (m : Module) : List Class := m.rootSpace.classes

end Module

end SpaceLang
