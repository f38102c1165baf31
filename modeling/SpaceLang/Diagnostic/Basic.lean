import SpaceLang.Source.Position

/-!
# Diagnostics

A `Diagnostic` is the reason why a source is refused and the place where it shows. A `Cause` has a
name, a message and, where a likely remedy is known, a tip. Its kind is lexical for an unterminated
string literal, which is found while a source is cut into tokens, and syntactic for every other
cause. The fields called `found` and `token` hold a token in the words of a message, except that the
token of a bad number is its bare text.
-/

namespace SpaceLang

/-- Why a source is refused. -/
inductive Cause where
  | unterminatedString
  | expectedSpaceDeclaration (found : String)
  | expectedTypeDeclaration (found : String)
  | expectedClassName (found : String)
  | expectedToken (expected found : String)
  | unexpectedEndOfFile (expected : String)
  | unknownMemberDeclaration (member found : String)
  | invalidAccessor (found : String)
  | duplicateAccessor (property accessor : String)
  | missingInitializer (variableName : String)
  | unexpectedToken (token : String)
  | numberParseError (token : String)
deriving DecidableEq, Inhabited, Repr

namespace Cause

/-- What is at fault: the characters of a source or the order of its tokens. -/
inductive Kind where
  | lexical
  | syntactic
deriving DecidableEq, Inhabited, Repr

/-- The name of a kind. -/
def Kind.name : Kind → String
  | lexical => "LexError"
  | syntactic => "SyntaxError"

/-- The name of a cause. -/
def name : Cause → String
  | unterminatedString => "UnterminatedString"
  | expectedSpaceDeclaration _ => "ExpectedSpaceDeclaration"
  | expectedTypeDeclaration _ => "ExpectedTypeDeclaration"
  | expectedClassName _ => "ExpectedClassName"
  | expectedToken _ _ => "ExpectedToken"
  | unexpectedEndOfFile _ => "UnexpectedEndOfFile"
  | unknownMemberDeclaration _ _ => "UnknownMemberDeclaration"
  | invalidAccessor _ => "InvalidAccessor"
  | duplicateAccessor _ _ => "DuplicateAccessor"
  | missingInitializer _ => "MissingInitializer"
  | unexpectedToken _ => "UnexpectedToken"
  | numberParseError _ => "NumberParseError"

/-- The kind of a cause. -/
def kind : Cause → Kind
  | unterminatedString => .lexical
  | _ => .syntactic

/-- A cause in words. -/
def message : Cause → String
  | unterminatedString => "Unterminated string literal"
  | expectedSpaceDeclaration found => "Expected space declaration, found " ++ found
  | expectedTypeDeclaration found => "Expected type declaration, found " ++ found
  | expectedClassName found => "Expected class name, found " ++ found
  | expectedToken expected found => "Expected " ++ expected ++ ", found " ++ found
  | unexpectedEndOfFile expected => "Expected " ++ expected ++ ", found end of file"
  | unknownMemberDeclaration member found =>
    "Unknown member declaration `" ++ member ++ "`, found " ++ found
  | invalidAccessor found => "Expected `get` or `set` accessor, found " ++ found
  | duplicateAccessor property accessor =>
    "Property `" ++ property ++ "` declares `" ++ accessor ++ "` more than once"
  | missingInitializer variableName =>
    "Implicit variable declaration `" ++ variableName ++ "` requires an initializer"
  | unexpectedToken token => "Unexpected token " ++ token ++ " in expression"
  | numberParseError token => "Invalid number literal `" ++ token ++ "`"

/-- What may help. -/
def tip? : Cause → Option String
  | unterminatedString => some "add a closing `\"` to the string literal"
  | expectedToken expected _ =>
    if expected = "`;`" then some "did you miss a semicolon?" else none
  | unknownMemberDeclaration _ _ =>
    some ("members are methods `T name() \x7b \x7d`, fields `T name;` or properties " ++
      "`T name \x7b get; set; \x7d`")
  | missingInitializer variableName =>
    some ("give `" ++ variableName ++ "` a value with `=`, or declare it with an explicit type")
  | numberParseError _ => some "is it above the integer limit?"
  | _ => none

end Cause

/-- The cause of a refusal and the place where it shows. -/
structure Diagnostic where
  cause : Cause
  position : Position
deriving DecidableEq, Inhabited, Repr

/-- A diagnostic in one line: the message and the place. -/
def Diagnostic.display (d : Diagnostic) : String :=
  d.cause.message ++ " at " ++ d.position.describe

end SpaceLang
