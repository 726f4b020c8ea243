import SchemaDocs.Value.Basic

/-!
# Schemas

The types that documents describe. A schema is a finite tree: what a node states about itself, and
the nodes below it, its attributes first of all. A node that carries a model type declares or refers
to a named schema.
-/

namespace SchemaDocs

/-- The declared name of a schema, the package it is declared in, and its source file there. -/
structure ModelType where
  name : String
  package : String
  sourceFile : String
deriving DecidableEq

namespace ModelType

/-- The name of the schema behind the path of its package. -/
def qualifiedName (m : ModelType) : String :=
  if m.package.isEmpty then m.name else m.package ++ "." ++ m.name

end ModelType

/-- An annotation of a schema or an attribute. -/
structure Decorator where
  name : String
  arguments : List String := []
  keywords : List (String × String) := []
deriving DecidableEq

structure Example where
  summary : String := ""
  description : String := ""
  value : String := ""
deriving DecidableEq

/-- What a node states about itself. -/
structure Facts where
  type : String := ""
  description : String := ""
  required : List String := []
  enum : Option (List Value) := none
  default : Option Value := none
  readOnly : Bool := false
  decorators : List Decorator := []
  examples : List Example := []
  modelType : Option ModelType := none

/-- A schema: the facts of its node, its attributes, the items of an array, the values and the keys
of a map, and the members of a union. A node that several schemas can have in common has a number. -/
structure Schema extends Facts where
  properties : List (String × Schema) := []
  items : Option Schema := none
  additional : Option Schema := none
  keyType : Option Schema := none
  members : List Schema := []
  number : Option Nat := none

/-- The forms that a schema can have. -/
inductive Kind where
  | scalar
  | enum
  | array
  | map
  | union
  | object
  | reference
deriving DecidableEq

/-- The name of a form. -/
def Kind.name : Kind → String
  | .scalar => "scalar"
  | .enum => "enum"
  | .array => "array"
  | .map => "map"
  | .union => "union"
  | .object => "object"
  | .reference => "reference"

/-- The annotation that marks something as deprecated. -/
def Facts.deprecation? (f : Facts) : Option Decorator :=
  f.decorators.find? fun decorator => decorator.name = "deprecated"

def Facts.isDeprecated (f : Facts) : Bool := f.deprecation?.isSome

def Facts.qualifiedName (f : Facts) : String :=
  match f.modelType with
  | some m => m.qualifiedName
  | none => ""

/-- The form of a node with the given facts, by what is below it. -/
def Facts.kind (f : Facts) (isMap hasProperties hasMembers : Bool) : Kind :=
  if f.modelType.isSome then .reference
  else if hasMembers then .union
  else if f.enum.isSome then .enum
  else if f.type = "array" then .array
  else if isMap then .map
  else if hasProperties then .object
  else .scalar

/-- The form of a schema. A model type outranks the members of a union, these the enumerated values,
and so on down to the attributes. -/
def Schema.kind (s : Schema) : Kind :=
  s.toFacts.kind s.additional.isSome (!s.properties.isEmpty) (!s.members.isEmpty)

end SchemaDocs
