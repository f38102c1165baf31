import SpaceLang.Expr.Rule
import SpaceLang.Stmt.Basic

/-!
# Reading statements

A statement ends with a semicolon. `return` and `let` show what it is; otherwise the name of a type
before an identifier begins a declaration, and anything else is an expression. The rules of the
statements that begin with a reserved word take that word for granted.
-/

namespace SpaceLang.Rule

/-- An equals sign and an expression, or nothing. -/
def initializer? : Rule (Option Expr) := do
  if (← current).isOperator "=" then advance *> some <$> expr else return none

/-- A return, with a value unless the semicolon follows at once. -/
def returnStmt : Rule Stmt := do
  let start := (← advance).position
  let value? ← if (← current).isSymbol ";" then pure none else some <$> expr
  let _ ← symbol ";"
  return .ret value? (← spanFrom start)

/-- The declaration of a variable without a type, which needs a value. -/
def implicitVariable : Rule Stmt := do
  let start := (← advance).position
  let name ← identifier "variable name"
  let some value ← initializer? | fail (fun _ => .missingInitializer name)
  let _ ← symbol ";"
  return .declare ⟨name, none, some value, ← spanFrom start⟩

/-- The declaration of a variable with a type. -/
def explicitVariable : Rule Stmt := do
  let type ← typeName
  let name ← identifier "variable name"
  let value? ← initializer?
  let _ ← symbol ";"
  return .declare ⟨name, some type.value, value?, ← spanFrom type.position⟩

/-- An expression on its own. -/
def exprStmt : Rule Stmt := do
  let start := (← current).position
  let e ← expr
  let _ ← symbol ";"
  return .expr e (← spanFrom start)

/-- A statement. -/
def stmt : Rule Stmt := do
  let first ← current
  let second ← peek 1
  if first.isKeyword "return" then returnStmt
  else if first.isKeyword "let" then implicitVariable
  else if first.isTypeName && second.kind = .identifier then explicitVariable
  else exprStmt

end SpaceLang.Rule
