import SchemaDocs.Assoc
import SchemaDocs.Schema.Token
import SchemaDocs.Text.Blank

/-!
# Attributes

What a document tells about each attribute of a schema. The attributes of an inline object, also one
inside arrays and maps, are told below the attribute that holds it.
-/

namespace SchemaDocs

/-- What a document tells about an attribute. -/
structure Attribute where
  name : String
  token : String
  required : Bool
  readOnly : Bool
  deprecated : Bool
  description : String
  default : Option String
  link : Option String
  children : List Attribute

/-- Which attributes are told, and where the references among them lead. -/
structure View where
  /-- Attributes that are marked as deprecated are left out. -/
  ignoreDeprecated : Bool := false
  /-- The link to the document of a schema that is referred to. -/
  link : Schema → Option String := fun _ => none

namespace Schema

/-- What is told about the attribute `name` with the given schema, whose element has the given
children. -/
def toAttribute (view : View) (required : List String) (name : String) (schema : Schema)
    (children : List Attribute) : Attribute where
  name := name
  token := schema.token
  required := required.contains name
  readOnly := schema.readOnly
  deprecated := schema.isDeprecated
  description := Text.trimBlanks schema.description
  default := schema.default.map Value.literal
  link := if schema.element.kind = .reference then view.link schema.element else none
  children := children

def isTold (view : View) (schema : Schema) : Bool :=
  !(view.ignoreDeprecated && schema.isDeprecated)

mutual

/-- The attributes of the inline object that the values of a schema are built from. -/
def elementAttributes (view : View) : Schema → List Attribute
  | ⟨facts, properties, items, additional, _, members, _⟩ =>
    match facts.kind additional.isSome (!properties.isEmpty) (!members.isEmpty) with
    | .array => elementAttributesOf view items
    | .map => elementAttributesOf view additional
    | .object =>
      Assoc.sortByName (·.name) (propertyAttributes view facts.required properties)
    | _ => []
termination_by structural schema => schema

/-- The attributes of the inline object that the values of a schema are built from, if there is a
schema. -/
def elementAttributesOf (view : View) : Option Schema → List Attribute
  | none => []
  | some schema => schema.elementAttributes view
termination_by structural schema => schema

/-- The attributes that are told, in the order in which they are declared (`build_attribute`). -/
def propertyAttributes (view : View) (required : List String) :
    List (String × Schema) → List Attribute
  | [] => []
  | (name, schema) :: rest =>
    if isTold view schema then
      toAttribute view required name schema (schema.elementAttributes view) ::
        propertyAttributes view required rest
    else propertyAttributes view required rest
termination_by structural properties => properties

end

/-- The attributes of a schema in the order of their names (`build_attributes`). -/
def attributes (view : View) (s : Schema) : List Attribute :=
  Assoc.sortByName (·.name) (propertyAttributes view s.required s.properties)

/-! ## Values that attributes write out -/

mutual

def elementValues (view : View) : Schema → List Value
  | ⟨facts, properties, items, additional, _, members, _⟩ =>
    match facts.kind additional.isSome (!properties.isEmpty) (!members.isEmpty) with
    | .array => elementValuesOf view items
    | .map => elementValuesOf view additional
    | .object => (Assoc.sortByName (·.1) (propertyValues view properties)).flatMap (·.2)
    | _ => []
termination_by structural schema => schema

def elementValuesOf (view : View) : Option Schema → List Value
  | none => []
  | some schema => schema.elementValues view
termination_by structural schema => schema

/-- The values that each attribute writes out: first those of the attributes below it, then those of its
type, and its default last. -/
def propertyValues (view : View) : List (String × Schema) → List (String × List Value)
  | [] => []
  | (name, schema) :: rest =>
    if isTold view schema then
      (name, schema.elementValues view ++ schema.tokenValues ++ schema.default.toList) ::
        propertyValues view rest
    else propertyValues view rest
termination_by structural properties => properties

end

/-- The values that the attributes of a schema write out, in their order. -/
def shownValues (view : View) (s : Schema) : List Value :=
  (Assoc.sortByName (·.1) (propertyValues view s.properties)).flatMap (·.2)

/-- The first reason why the attributes of a schema cannot be written out. -/
def literalFault? (view : View) (s : Schema) : Option Value.LiteralFault :=
  (s.shownValues view).findSome? Value.literalFault?

end Schema

end SchemaDocs
