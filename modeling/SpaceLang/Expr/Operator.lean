/-!
# Binary operators

The ten operators that join two operands. `ofSymbol?` and `symbol` are inverse to each other.
-/

namespace SpaceLang

/-- An operator between two operands. -/
inductive BinaryOperator where
  | add
  | subtract
  | multiply
  | divide
  | equals
  | notEquals
  | less
  | greater
  | lessEquals
  | greaterEquals
deriving DecidableEq, Inhabited, Repr

namespace BinaryOperator

/-- An operator as written. -/
def symbol : BinaryOperator → String
  | add => "+"
  | subtract => "-"
  | multiply => "*"
  | divide => "/"
  | equals => "=="
  | notEquals => "!="
  | less => "<"
  | greater => ">"
  | lessEquals => "<="
  | greaterEquals => ">="

/-- The name of an operator. -/
def name : BinaryOperator → String
  | add => "Add"
  | subtract => "Subtract"
  | multiply => "Multiply"
  | divide => "Divide"
  | equals => "Equals"
  | notEquals => "NotEquals"
  | less => "Less"
  | greater => "Greater"
  | lessEquals => "LessEquals"
  | greaterEquals => "GreaterEquals"

/-- The operator that is written as a text, if there is one. -/
def ofSymbol? : String → Option BinaryOperator
  | "+" => some add
  | "-" => some subtract
  | "*" => some multiply
  | "/" => some divide
  | "==" => some equals
  | "!=" => some notEquals
  | "<" => some less
  | ">" => some greater
  | "<=" => some lessEquals
  | ">=" => some greaterEquals
  | _ => none

@[simp] theorem ofSymbol?_symbol (op : BinaryOperator) : ofSymbol? op.symbol = some op := by
  cases op <;> rfl

theorem symbol_eq_of_ofSymbol? {s : String} {op : BinaryOperator} (h : ofSymbol? s = some op) :
    op.symbol = s := by
  unfold ofSymbol? at h
  split at h <;> simp at h <;> subst h <;> rfl

end BinaryOperator

end SpaceLang
