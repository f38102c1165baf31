import SpaceLang.Stmt.Basic

/-!
# Classes

The tree of a class: its members are methods, fields and properties, in the order in which they are
declared. Types are held by their names.
-/

namespace SpaceLang

/-- A parameter of a method. -/
structure Parameter where
  name : String
  type : String
  span : Span
deriving DecidableEq, Inhabited, Repr

/-- A method and its statements; `type` is the type of its result. -/
structure Method where
  name : String
  type : String
  parameters : List Parameter
  body : List Stmt
  span : Span
deriving Inhabited

/-- A field, with the value it begins with if one is given. -/
structure Field where
  name : String
  type : String
  initializer? : Option Expr
  span : Span
deriving Inhabited

/-- Which of its two accessors a property declares. -/
structure Accessors where
  get : Bool
  set : Bool
deriving DecidableEq, Inhabited, Repr

/-- A property. -/
structure Property where
  name : String
  type : String
  accessors : Accessors
  span : Span
deriving DecidableEq, Inhabited, Repr

/-- A member of a class. -/
inductive Member where
  | method (m : Method)
  | field (f : Field)
  | property (p : Property)
deriving Inhabited

namespace Member

/-- The name of a member. -/
def name : Member → String
  | method m => m.name
  | field f => f.name
  | property p => p.name

/-- Where a member stands, its type and its closing brace or semicolon included. -/
def span : Member → Span
  | method m => m.span
  | field f => f.span
  | property p => p.span

/-- The method that a member is. -/
def method? : Member → Option Method
  | method m => some m
  | _ => none

/-- The field that a member is. -/
def field? : Member → Option Field
  | field f => some f
  | _ => none

/-- The property that a member is. -/
def property? : Member → Option Property
  | property p => some p
  | _ => none

end Member

/-- A class. -/
structure Class where
  name : String
  members : List Member
  span : Span
deriving Inhabited

namespace Class

/-- The methods of a class, in order. -/
def methods (c : Class) : List Method := c.members.filterMap Member.method?

/-- The fields of a class, in order. -/
def fields (c : Class) : List Field := c.members.filterMap Member.field?

/-- The properties of a class, in order. -/
def properties (c : Class) : List Property := c.members.filterMap Member.property?

end Class

end SpaceLang
