import SchemaDocs.Numeral
import SchemaDocs.Schema.Basic

/-!
# Well-formed schemas

A schema is well formed if every node requires only names of its own attributes. Below a named
schema that is referred to nothing is looked at: it is checked where it is declared. A node that
stands in several places is looked at in the first one only.
-/

namespace SchemaDocs

/-- What is wrong with a schema. -/
inductive Problem where
  /-- A declared schema has no model type. -/
  | unnamed
  /-- The node at a location requires a name that is none of its attributes. -/
  | undeclared (name location : String)
deriving DecidableEq

def Problem.message : Problem → String
  | .unnamed => "top-level schema must define 'x-kcl-type'"
  | .undeclared name location =>
    let place := if location.isEmpty then "" else " of '" ++ location ++ "'"
    "required attribute '" ++ name ++ "'" ++ place ++ " is not a declared property"

namespace Location

def property (location name : String) : String :=
  if location.isEmpty then name else location ++ "." ++ name

/-- The location of the items of an array or the values of a map. -/
def element (location label : String) : String :=
  if location.isEmpty then label else location ++ "[" ++ label ++ "]"

def member (location : String) (index : Nat) : String :=
  location ++ "|" ++ String.ofList (Numeral.decimal index)

end Location

namespace Schema

/-- The first required name that is none of the declared ones. -/
def undeclared? (required declared : List String) : Option String :=
  required.find? fun name => !declared.contains name

/-- The numbers of the nodes that have been visited, before and after a visit that finds no
problem. -/
abbrev Visited := List Nat

/-- The node with this number has been visited. -/
def Visited.has (seen : Visited) : Option Nat → Bool
  | none => false
  | some number => seen.contains number

def Visited.mark (seen : Visited) : Option Nat → Visited
  | none => seen
  | some number => number :: seen

mutual

/-- Visits a schema at a location, from the node itself downwards, up to the first problem
(`_check_node`). A node that has been visited is passed over. -/
def visit (location : String) (seen : Visited) : Schema → Except Problem Visited
  | ⟨facts, properties, items, additional, _, members, number⟩ =>
    if seen.has number then .ok seen
    else match undeclared? facts.required (properties.map (·.1)) with
      | some name => .error (.undeclared name location)
      | none =>
        let seen := seen.mark number
        if facts.modelType.isSome && !location.isEmpty then .ok seen
        else do
          let seen ← visitProperties location seen properties
          let seen ← visitElement (Location.element location "items") seen items
          let seen ← visitElement (Location.element location "additionalProperties") seen additional
          visitMembers location 0 seen members
termination_by structural schema => schema

def visitProperties (location : String) (seen : Visited) :
    List (String × Schema) → Except Problem Visited
  | [] => .ok seen
  | (name, schema) :: rest => do
    let seen ← visit (Location.property location name) seen schema
    visitProperties location seen rest
termination_by structural properties => properties

def visitElement (location : String) (seen : Visited) : Option Schema → Except Problem Visited
  | none => .ok seen
  | some schema => visit location seen schema
termination_by structural element => element

/-- Visits the members of the union at a location, counted from `index`. -/
def visitMembers (location : String) (index : Nat) (seen : Visited) :
    List Schema → Except Problem Visited
  | [] => .ok seen
  | schema :: rest => do
    let seen ← visit (Location.member location index) seen schema
    visitMembers location (index + 1) seen rest
termination_by structural members => members

end

/-- The first problem of a schema (`check_schema`). -/
def problem? (s : Schema) : Option Problem :=
  match s.visit "" [] with
  | .error problem => some problem
  | .ok _ => none

/-- The first problem of a declared schema, which needs a model type. -/
def problemOfDeclared? (s : Schema) : Option Problem :=
  if s.modelType.isNone then some .unnamed else s.problem?

end Schema

end SchemaDocs
