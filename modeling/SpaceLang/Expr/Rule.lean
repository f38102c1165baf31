import SpaceLang.Expr.Basic
import SpaceLang.Expr.Integer
import SpaceLang.Rule.Basic

/-!
# Reading expressions

An expression is a row of operands with binary operators between them. All operators bind alike and
to the left, so `1 + 2 * 3` is `(1 + 2) * 3`. An operator is known by the text of its token alone,
whatever its kind. An operand is an integer, a string, or a name, which one call of a method may
follow: `name.method(arguments)`.

The rules of operands are written for any rule `argument` that reads the arguments of a call; `expr`
is the rule that reads them by itself. Arguments stand behind their call, where fewer tokens remain,
which is why the recursion ends.
-/

namespace SpaceLang.Rule

/-- What can stand behind a name: the call of one of its methods, or nothing. The call shows by a
dot, an identifier and a parenthesis in a row. -/
def callWith (argument : Rule Expr) (target : Expr) : Rule Expr := do
  if (← current).isSymbol "." && (← peek 1).kind = .identifier && (← peek 2).isSymbol "(" then
    let _ ← advance
    let method ← advance
    let _ ← advance
    let arguments ← commaList ")" argument
    let _ ← symbol ")"
    return .call target method.value arguments (← spanFrom target.span.start)
  else
    return target

/-- An operand: an integer, a string, or a name with a call that may follow it. -/
def operandWith (argument : Rule Expr) : Rule Expr := do
  let token ← current
  match token.kind with
  | .number =>
    match Integer.ofString? token.value with
    | some value =>
      let _ ← advance
      return .integer value token.span
    | none => fail (fun found => .numberParseError found.value)
  | .string =>
    let _ ← advance
    return .string token.value token.span
  | .identifier =>
    let _ ← advance
    callWith argument (.identifier token.value token.span)
  | .keyword =>
    if token.value = "this" then
      let _ ← advance
      callWith argument (.identifier token.value token.span)
    else fail (fun found => .unexpectedToken found.describe)
  | .endOfFile => fail (missing "expression")
  | _ => fail (fun found => .unexpectedToken found.describe)

/-- Operands with operators between them, joined from the left. -/
def chainWith (argument : Rule Expr) : Rule Expr := do
  let first ← operandWith argument
  let others ← many (fun t => BinaryOperator.ofSymbol? t.value) (fun operator => do
    let _ ← advance
    return (operator, ← operandWith argument))
  return others.foldl (fun left (operator, right) => left.join operator right) first

/-- An expression. -/
def expr : Rule Expr := fun c =>
  chainWith (fun c' =>
    if c'.remaining < c.remaining then expr c' else fail (missing "expression") c') c
termination_by c => c.remaining

/-- An operand whose arguments are expressions. -/
def operand : Rule Expr := operandWith expr

/-- What can stand behind a name whose arguments are expressions. -/
def call (target : Expr) : Rule Expr := callWith expr target

end SpaceLang.Rule
