import SpaceLang.Source.Position
import SpaceLang.Token.Escape

/-!
# Tokens

A token has a kind, a value and the span of the source that it was read from. The value of a string
literal is the text it stands for, of every other token the text as written. Every token list that a
source gives ends with the only token of the kind `endOfFile`, whose value is empty.

The words and operators of the language are the tables `reservedWords`, `pairOperators` and
`singleOperators`; `builtinTypes` are the reserved words that name a type.
-/

namespace SpaceLang

/-- What a token is. -/
inductive TokenKind where
  | identifier
  | number
  | string
  | keyword
  | symbol
  | operator
  | endOfFile
deriving DecidableEq, Inhabited, Repr

/-- The name of a kind. -/
def TokenKind.name : TokenKind → String
  | .identifier => "Identifier"
  | .number => "Number"
  | .string => "String"
  | .keyword => "Keyword"
  | .symbol => "Symbol"
  | .operator => "Operator"
  | .endOfFile => "EndOfFile"

/-- The words that are no identifiers, in alphabetical order. -/
def reservedWords : List String :=
  ["bool", "class", "get", "let", "new", "number", "return", "set", "space", "string", "this",
    "void"]

/-- The reserved words that name a type. -/
def builtinTypes : List String :=
  ["void", "number", "string", "bool"]

/-- The operators of two characters. Each is read before the operator its first character makes. -/
def pairOperators : List String :=
  ["==", "!=", ">=", "<="]

/-- The operators of one character. -/
def singleOperators : List Char :=
  ['+', '-', '*', '/', '=', '<', '>', '!']

/-- The symbol that begins a list of members, statements or accessors. -/
def leftBrace : String := "\x7b"

/-- The symbol that ends a list of members, statements or accessors. -/
def rightBrace : String := "\x7d"

/-- The smallest part of a source that has a meaning of its own. -/
structure Token where
  kind : TokenKind
  value : String
  span : Span
deriving DecidableEq, Inhabited, Repr

namespace Token

/-- The end marker of a list whose text ends at `p`. -/
def endOfFile (p : Position) : Token := ⟨.endOfFile, "", .emptyAt p⟩

/-- The place where a token begins. -/
def position (t : Token) : Position := t.span.start

/-! ## Tests -/

/-- Whether the token is the reserved word `word`. -/
def isKeyword (t : Token) (word : String) : Bool :=
  t.kind = .keyword && t.value = word

/-- Whether the token is the symbol `symbol`. -/
def isSymbol (t : Token) (symbol : String) : Bool :=
  t.kind = .symbol && t.value = symbol

/-- Whether the token is the operator `operator`. -/
def isOperator (t : Token) (operator : String) : Bool :=
  t.kind = .operator && t.value = operator

/-- Whether the token is an end marker. -/
def isEndOfFile (t : Token) : Bool :=
  t.kind = .endOfFile

/-- Whether the token can stand where a type is named: an identifier or a builtin type. -/
def isTypeName (t : Token) : Bool :=
  t.kind = .identifier || t.kind = .keyword && builtinTypes.contains t.value

/-! ## Text -/

/-- The token as plain text: its value, or words for the end marker. -/
def display (t : Token) : String :=
  if t.isEndOfFile then "end of file" else t.value

/-- The token in the words of a message. No two kinds of description can be taken for each other:
a string literal stands in double quotes, every other token in backquotes, and the end marker in
none. -/
def describe (t : Token) : String :=
  match t.kind with
  | .endOfFile => "end of file"
  | .string => "string \"" ++ Escape.text t.value ++ "\""
  | _ => "`" ++ t.value ++ "`"

end Token

end SpaceLang
