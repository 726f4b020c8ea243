import SchemaDocs.Schema.Basic
import SchemaDocs.Value.Literal

/-!
# Types of attributes

How the type of an attribute is written, and the schema that its values are built from.
-/

namespace SchemaDocs

/-- How the types of single values are written; a type without an entry is written by its name. -/
def scalarTokens : List (String × String) :=
  [("", "any"), ("any", "any"), ("string", "str"), ("integer", "int"), ("number", "float"),
    ("boolean", "bool"), ("bool", "bool"), ("null", "None"), ("object", "dict")]

/-- How the type of single values is written. -/
def scalarToken (type : String) : String :=
  match scalarTokens.find? fun entry => entry.1 = type with
  | some entry => entry.2
  | none => type

namespace Schema

mutual

/-- How the type of a schema is written (`type_token`). -/
def token : Schema → String
  | ⟨facts, properties, items, additional, keyType, members, _⟩ =>
    match facts.kind additional.isSome (!properties.isEmpty) (!members.isEmpty) with
    | .reference => match facts.modelType with
      | some m => m.name
      | none => scalarToken facts.type
    | .union => Text.join " | " (memberTokens members)
    | .enum => match facts.enum with
      | some (value :: values) => Text.join " | " ((value :: values).map Value.literal)
      | _ => scalarToken facts.type
    | .array => "[" ++ tokenOr "any" items ++ "]"
    | .map => "\x7b" ++ tokenOr "str" keyType ++ ":" ++ tokenOr "any" additional ++ "\x7d"
    | .object => "dict"
    | .scalar => scalarToken facts.type
termination_by structural schema => schema

/-- How the type of a schema is written, or `absent` if there is none. -/
def tokenOr (absent : String) : Option Schema → String
  | none => absent
  | some schema => schema.token
termination_by structural schema => schema

/-- How the types of the members of a union are written. -/
def memberTokens : List Schema → List String
  | [] => []
  | schema :: rest => schema.token :: memberTokens rest
termination_by structural members => members

end

mutual

/-- The values that the type of a schema writes out, in their order. -/
def tokenValues : Schema → List Value
  | ⟨facts, properties, items, additional, keyType, members, _⟩ =>
    match facts.kind additional.isSome (!properties.isEmpty) (!members.isEmpty) with
    | .union => memberValues members
    | .enum => facts.enum.getD []
    | .array => tokenValuesOf items
    | .map => tokenValuesOf keyType ++ tokenValuesOf additional
    | _ => []
termination_by structural schema => schema

def tokenValuesOf : Option Schema → List Value
  | none => []
  | some schema => schema.tokenValues
termination_by structural schema => schema

def memberValues : List Schema → List Value
  | [] => []
  | schema :: rest => schema.tokenValues ++ memberValues rest
termination_by structural members => members

end

mutual

/-- The schema that the values of a schema are built from: the items of an array and the values of a
map, as deep as they are nested (`element_type`). -/
def element : Schema → Schema
  | ⟨facts, properties, items, additional, keyType, members, number⟩ =>
    match facts.kind additional.isSome (!properties.isEmpty) (!members.isEmpty) with
    | .array => elementOr ⟨facts, properties, items, additional, keyType, members, number⟩ items
    | .map => elementOr ⟨facts, properties, items, additional, keyType, members, number⟩ additional
    | _ => ⟨facts, properties, items, additional, keyType, members, number⟩
termination_by structural schema => schema

/-- The element of a schema, or `absent` if there is none. -/
def elementOr (absent : Schema) : Option Schema → Schema
  | none => absent
  | some schema => schema.element
termination_by structural schema => schema

end

end Schema

end SchemaDocs
