import SchemaDocs.Package.Basic

/-!
# Re-exported schemas

A schema can be visible in several packages. Of all declarations of one schema exactly one is
canonical and is documented; the others are aliases and link to it. A declaration in the package
where the schema is declared wins, best under the declared name; without one the first declaration
is canonical.
-/

namespace SchemaDocs

/-- What identifies a schema: the package it is declared in and the name it is declared with. -/
structure Origin where
  package : String
  name : String
deriving DecidableEq

/-- The origin of a schema with a model type. -/
def ModelType.origin (m : ModelType) : Origin := ⟨m.package, m.name⟩

/-- The name behind the path of the package. -/
def Origin.text (o : Origin) : String :=
  if o.package.isEmpty then o.name else o.package ++ "." ++ o.name

/-- A schema as it is visible under a name in a package. -/
structure Declaration where
  /-- The path of the package. -/
  path : String
  name : String
  schema : Schema
  origin : Origin
  /-- The position among all declarations. -/
  order : Nat

namespace Declaration

/-- The visible name behind the path of the package. -/
def identifier (d : Declaration) : String :=
  if d.path.isEmpty then d.name else d.path ++ "." ++ d.name

/-- The schema is visible where it is declared. -/
def isAtOrigin (d : Declaration) : Bool := d.path = d.origin.package

/-- How far the declaration is from where the schema is declared: at home under the declared name, at
home under another name, or elsewhere. -/
def distance (d : Declaration) : Nat :=
  if d.isAtOrigin then if d.name = d.origin.name then 0 else 1 else 2

/-- The declaration is a better choice than another one: it is nearer to where the schema is declared,
or as near and earlier. -/
def isBetter (d e : Declaration) : Bool :=
  d.distance < e.distance || d.distance = e.distance && d.order < e.order

/-- The two are visible under one name in one package. -/
def sameLocation (d e : Declaration) : Bool := d.path = e.path && d.name = e.name

end Declaration

namespace Package

/-- The schemas that are visible in a package with the path and their visible names, by name. -/
def visibleSchemas (p : Package) : List (String × String × Schema) :=
  (Assoc.sortByName (·.1) p.schemas).map fun (name, schema) => (p.path, name, schema)

/-- The declarations with the given positions onwards; none if a schema has no model type
(`iter_declarations`). -/
def declarationsFrom? : Nat → List (String × String × Schema) → Option (List Declaration)
  | _, [] => some []
  | order, (path, name, schema) :: rest => do
    let modelType ← schema.modelType
    let declarations ← declarationsFrom? (order + 1) rest
    return ⟨path, name, schema, modelType.origin, order⟩ :: declarations

/-- All declarations below a package: package by package, and in a package by visible name. None if
a schema has no model type. -/
def declarations? (p : Package) : Option (List Declaration) :=
  declarationsFrom? 0 (p.walk.flatMap visibleSchemas)

end Package

/-- All declarations of a run: the canonical one of each origin, and the others. -/
structure ImportPlan where
  declarations : List Declaration
  canonical : List (Origin × Declaration)
  aliases : List Declaration

namespace ImportPlan

/-- The declarations of each origin, in their order. Origins are listed in the order in which they are
met. -/
def groups (declarations : List Declaration) : List (Origin × List Declaration) :=
  declarations.foldl (fun groups d =>
    Assoc.alter d.origin (fun group => group.getD [] ++ [d]) groups) []

/-- The best choice among a declaration and the ones after it; of equally good ones the first. -/
def best (d : Declaration) : List Declaration → Declaration
  | [] => d
  | e :: rest => best (if e.isBetter d then e else d) rest

/-- The canonical one among the declarations of an origin. -/
def choose? : List Declaration → Option Declaration
  | [] => none
  | d :: rest => some (best d rest)

/-- The declarations of an origin without the canonical one. Two declarations of a run are the same one
if they have the same position. -/
def others (group : List Declaration) : List Declaration :=
  match choose? group with
  | none => []
  | some canonical => group.filter fun d => d.order != canonical.order

def ofDeclarations (declarations : List Declaration) : ImportPlan where
  declarations := declarations
  canonical := (groups declarations).filterMap fun (origin, group) =>
    (choose? group).map fun d => (origin, d)
  aliases := ((groups declarations).flatMap fun (_, group) => others group).mergeSort
    fun d e => d.order ≤ e.order

/-- The plan for a package and everything below it; none if a schema has no model type
(`plan_imports`). -/
def ofPackage? (root : Package) : Option ImportPlan :=
  root.declarations?.map ofDeclarations

def canonicalOf? (plan : ImportPlan) (origin : Origin) : Option Declaration :=
  Assoc.get? origin plan.canonical

/-- The canonical declaration of the schema that a node declares or refers to (`canonical_for`). -/
def canonicalFor? (plan : ImportPlan) (schema : Schema) : Option Declaration :=
  match schema.modelType with
  | some modelType => plan.canonicalOf? modelType.origin
  | none => none

/-- The declaration stands where the canonical one of its origin stands (`is_canonical`). -/
def isCanonical (plan : ImportPlan) (d : Declaration) : Bool :=
  match plan.canonicalOf? d.origin with
  | some canonical => canonical.sameLocation d
  | none => false

/-- The plan without the canonical declarations of some origins. -/
def without (plan : ImportPlan) (origins : List String) : ImportPlan :=
  { plan with canonical := plan.canonical.filter fun entry => !origins.contains entry.1.text }

end ImportPlan

end SchemaDocs
