import SpaceLang.Class.Basic
import SpaceLang.Stmt.Rule

/-!
# Reading classes

A member begins with a type and a name, and the token behind them shows which kind it is: a
parenthesis begins a method, an equals sign or a semicolon a field, and a brace a property. A list
in braces is read up to its closing brace, so a member or a statement that is cut off is refused by
its own rule.
-/

namespace SpaceLang.Rule

/-! ## Methods -/

/-- A parameter. -/
def parameter : Rule Parameter := do
  let type ← typeName
  let name ← identifier "parameter name"
  return ⟨name, type.value, ← spanFrom type.position⟩

/-- A method, from the parenthesis behind its name. -/
def method (start : Position) (type name : String) : Rule Method := do
  let _ ← symbol "("
  let parameters ← commaList ")" parameter
  let _ ← symbol ")"
  let _ ← symbol leftBrace
  let body ← untilSymbol rightBrace stmt
  let _ ← symbol rightBrace
  return ⟨name, type, parameters, body, ← spanFrom start⟩

/-! ## Fields -/

/-- A field, from what stands behind its name. -/
def field (start : Position) (type name : String) : Rule Field := do
  let value? ← initializer?
  let _ ← symbol ";"
  return ⟨name, type, value?, ← spanFrom start⟩

/-! ## Properties -/

/-- One more accessor of a property beside those seen. Each may be declared once. -/
def accessor (property : String) (seen : Accessors) : Rule Accessors := do
  let token ← current
  let duplicate {α : Type} : Rule α := fail (fun found => .duplicateAccessor property found.value)
  let declared (all : Accessors) : Rule Accessors := do
    let _ ← advance
    let _ ← symbol ";"
    return all
  if token.isEndOfFile then fail (missing ("`" ++ rightBrace ++ "`"))
  else if token.isKeyword "get" then
    if seen.get then duplicate else declared { seen with get := true }
  else if token.isKeyword "set" then
    if seen.set then duplicate else declared { seen with set := true }
  else fail (fun found => .invalidAccessor found.describe)

/-- A property, from the brace behind its name. -/
def property (start : Position) (type name : String) : Rule Property := do
  let _ ← symbol leftBrace
  let accessors ← foldWhile (fun t => if t.isSymbol rightBrace then none else some ())
    (fun seen _ => accessor name seen) ⟨false, false⟩
  let _ ← symbol rightBrace
  return ⟨name, type, accessors, ← spanFrom start⟩

/-! ## Members and classes -/

/-- A member. -/
def member : Rule Member := do
  let type ← typeName
  let name ← identifier "member name"
  let next ← current
  if next.isSymbol "(" then .method <$> method type.position type.value name
  else if next.isOperator "=" || next.isSymbol ";" then
    .field <$> field type.position type.value name
  else if next.isSymbol leftBrace then .property <$> property type.position type.value name
  else fail (fun found => .unknownMemberDeclaration name found.describe)

/-- A class. Its first token is taken for granted. -/
def classDecl : Rule Class := do
  let start := (← advance).position
  if (← current).kind ≠ .identifier then
    fail (fun found => .expectedClassName found.describe)
  let name ← advance
  let _ ← symbol leftBrace
  let members ← untilSymbol rightBrace member
  let _ ← symbol rightBrace
  return ⟨name.value, members, ← spanFrom start⟩

/-- The declaration of a type, which is a class. -/
def typeDecl : Rule Class := do
  if (← current).isKeyword "class" then classDecl
  else fail (fun found => .expectedTypeDeclaration found.describe)

end SpaceLang.Rule
