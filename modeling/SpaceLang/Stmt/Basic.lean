import SpaceLang.Expr.Basic

/-!
# Statements

The tree of a statement: a return, the declaration of a variable, or an expression on its own.
-/

namespace SpaceLang

/-- The declaration of a variable, with a type or with a value or with both. -/
structure Variable where
  name : String
  type? : Option String
  value? : Option Expr
  span : Span
deriving Inhabited

/-- Whether the type of a variable is left to its value. -/
def Variable.isImplicit (v : Variable) : Bool := v.type?.isNone

/-- A statement. -/
inductive Stmt where
  /-- The end of a method, with a result or without one. -/
  | ret (value? : Option Expr) (span : Span)
  | declare (v : Variable)
  | expr (e : Expr) (span : Span)
deriving Inhabited

/-- Where a statement stands, its semicolon included. -/
def Stmt.span : Stmt → Span
  | ret _ span => span
  | declare v => v.span
  | expr _ span => span

end SpaceLang
