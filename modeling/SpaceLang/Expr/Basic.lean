import SpaceLang.Expr.Operator
import SpaceLang.Source.Position

/-!
# Expressions

The tree of an expression. Each node has the span of the tokens that it was read from.
-/

namespace SpaceLang

/-- An expression. -/
inductive Expr where
  /-- An integer of 64 bits. -/
  | integer (value : Int64) (span : Span)
  | string (value : String) (span : Span)
  /-- A name, also `this`. -/
  | identifier (name : String) (span : Span)
  | binary (operator : BinaryOperator) (left right : Expr) (span : Span)
  /-- The call of a method of `target`. -/
  | call (target : Expr) (method : String) (arguments : List Expr) (span : Span)
deriving Inhabited

namespace Expr

/-- Where an expression stands. -/
def span : Expr → Span
  | integer _ span => span
  | string _ span => span
  | identifier _ span => span
  | binary _ _ _ span => span
  | call _ _ _ span => span

/-- The expression that joins two operands, from the start of the left one to the end of the right
one. -/
def join (left : Expr) (operator : BinaryOperator) (right : Expr) : Expr :=
  binary operator left right (left.span.join right.span)

end Expr

end SpaceLang
