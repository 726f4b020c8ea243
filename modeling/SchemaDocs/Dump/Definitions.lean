import SchemaDocs.Dump.Node

/-!
# Definitions of schema dumps

Reading the schemas of a dump. Definitions refer to each other by name, in cycles too. A definition
is entered into a table when its reading begins, and what has been read of it so far is kept there:
a reference to a definition that is still being read gives the part of it that is known by then, so
a cycle ends where it began. What stands next to a reference describes the place that refers.
-/

namespace SchemaDocs.Dump

/-- The schemas of the definitions that have been read, or of which the reading has begun. -/
abbrev Table := List (String × Schema)

/-- The state of the reading of a dump. -/
structure Progress where
  table : Table := []
  /-- The number of nodes that have been made. -/
  count : Nat := 0

abbrev Reading := StateT Progress (Except Error)

/-- The number of a node that is made now. -/
def newNumber : Reading Nat := do
  let count := (← get).count
  modify fun progress => { progress with count := count + 1 }
  return count

/-- What a reader of nodes knows about the definitions. -/
structure Definitions where
  /-- There is a definition of this name. -/
  isDefined : String → Bool
  /-- The schema that a name refers to. -/
  resolve : String → Reading Schema

/-- A raw value together with the readers of the nodes that it may hold; `m` is what a reader may do. -/
structure RawNode (m : Type → Type) where
  value : Value
  /-- Reads the value as a node at a location. -/
  read : String → m Schema
  /-- Reads the entries of a mapping as nodes. -/
  entries : Unit → List (Value × (String → m Schema)) := fun _ => []
  /-- Reads the items of a list as nodes. -/
  items : Unit → List (String → m Schema) := fun _ => []

/-- The raw fields of a node. -/
abbrev RawFields (m : Type → Type) := List (Value × RawNode m)

/-- The required names, each once. -/
def required (location : String) (values : List (Value × Value)) : Except Error (List String) :=
  let fault : Error := .node location .requiredNotNames
  let names := field "required" values
  if !names.isTruthy then .ok []
  else match names.unmarked with
    | .list items => Assoc.distinct <$> items.mapM fun item => match item with
      | .str name => .ok name
      | _ => .error fault
    | _ => .error fault

def enumerated (location : String) (values : List (Value × Value)) :
    Except Error (Option (List Value)) :=
  match Value.lookup "enum" values with
  | none => .ok none
  | some value => match value.unmarked with
    | .list values => .ok (some values)
    | _ => .error (.node location .enumNotList)

def modelTypeField (location : String) (values : List (Value × Value)) :
    Except Error (Option ModelType) :=
  match Value.lookup "x-kcl-type" values with
  | none => .ok none
  | some value => some <$> readModelType location value

/-- What a node states without its parts: its model type, its texts, and its default. -/
def readHead (location : String) (values : List (Value × Value)) : Except Error Schema := do
  let modelType ← modelTypeField location values
  let type ← textField "type" location values
  let description ← textField "description" location values
  return {
    type := type
    description := Text.trimBlanks description
    readOnly := (field "readOnly" values).isTruthy
    default := Value.lookup "default" values
    modelType := modelType }

namespace RawFields

variable {m : Type → Type} [Monad m] [MonadExceptOf Error m]

def values (fields : RawFields m) : List (Value × Value) :=
  fields.map fun entry => (entry.1, entry.2.value)

def find? (name : String) : RawFields m → Option (RawNode m)
  | [] => none
  | (.str k, node) :: rest => if k = name then some node else find? name rest
  | (_, _) :: rest => find? name rest

def node? (name location : String) (fields : RawFields m) : m (Option Schema) :=
  match find? name fields with
  | none => return none
  | some raw => some <$> raw.read location

/-- The nodes that the readers read at the attributes of a node, each under the plain form of its
name. -/
def readAttributes (location : String) :
    List (Value × (String → m Schema)) → m (List (String × Schema))
  | [] => return []
  | (name, read) :: rest => do
    let schema ← read (location ++ "." ++ name.plain)
    let schemas ← readAttributes location rest
    return (name.plain, schema) :: schemas

def properties (location : String) (fields : RawFields m) : m (List (String × Schema)) :=
  match find? "properties" fields with
  | none => return []
  | some raw =>
    if !raw.value.isTruthy then return []
    else match raw.value.unmarked with
      | .map _ => Assoc.ofList <$> readAttributes location (raw.entries ())
      | _ => throw (.node location .propertiesNotMapping)

/-- The values of a map; anything but a node stands for no restriction. -/
def additional (location : String) (fields : RawFields m) : m (Option Schema) :=
  match find? "additionalProperties" fields with
  | none => return none
  | some raw => match raw.value.unmarked with
    | .map _ => some <$> raw.read (location ++ "[value]")
    | _ => return none

/-- The nodes that the readers read at the members of a union, counted from `index`. -/
def readMembers (location : String) : Nat → List (String → m Schema) → m (List Schema)
  | _, [] => return []
  | index, read :: rest => do
    let schema ← read (Location.member location index)
    let schemas ← readMembers location (index + 1) rest
    return schema :: schemas

def members (location : String) (fields : RawFields m) : m (List Schema) :=
  match find? "x-kcl-union-types" fields with
  | none => return []
  | some raw =>
    if !raw.value.isTruthy then return []
    else match raw.value.unmarked with
      | .list _ => readMembers location 0 (raw.items ())
      | _ => throw (.node location .membersNotList)

end RawFields

/-- Reads the fields of a node in their order (`_fill`). After every field that a reference can show,
the part that is known by then is handed to `publish`. -/
def readFields (publish : Schema → Reading Unit) (location : String) (fields : RawFields Reading) :
    Reading Schema := do
  let values := fields.values
  let number ← newNumber
  let head ← readHead location values
  let s : Schema := { head with number := some number }
  publish s
  let properties ← fields.properties location
  let required ← required location values
  let s := { s with properties := properties, required := required }
  publish s
  let items ← fields.node? "items" (location ++ "[items]")
  let s := { s with items := items }
  publish s
  let additional ← fields.additional location
  let enumerated ← enumerated location values
  let s := { s with additional := additional, enum := enumerated }
  publish s
  let keyType ← fields.node? "x-kcl-dict-key-type" (location ++ "[key]")
  let s := { s with keyType := keyType }
  publish s
  let members ← fields.members location
  let decorators ← readDecorators location values
  let examples ← readExamples location values
  let s := { s with members := members, decorators := decorators, examples := examples }
  publish s
  return s

/-- How the name of a definition begins in a reference. -/
def referenceStart : String := "#/definitions/"

def referenceName (isDefined : String → Bool) (location : String) (reference : Value) :
    Except Error String :=
  let unsupported : Error := .node location (.unsupportedReference reference.display)
  match reference with
  | .str s => match Text.after? referenceStart s with
    | some name => if isDefined name then .ok name else .error (.node location (.unknownReference name))
    | none => .error unsupported
  | _ => .error unsupported

/-- Reads what a reference leads to, described by what stands next to it. -/
def readReference (definitions : Definitions) (location : String) (reference : Value)
    (values : List (Value × Value)) : Reading Schema := do
  let name ← referenceName definitions.isDefined location reference
  let s ← definitions.resolve name
  let description ← textField "description" location values
  let decorators ← readDecorators location values
  let number ← newNumber
  return { s with
    number := some number
    description := Text.trimBlanks description
    default := Value.lookup "default" values
    readOnly := (field "readOnly" values).isTruthy
    decorators := decorators
    examples := [] }

/-- Reads a node with the given fields at a location (`parse`). -/
def readNode (definitions : Definitions) (fields : RawFields Reading) (location : String) :
    Reading Schema :=
  match field "$ref" fields.values with
  | .null => readFields (fun _ => return ()) location fields
  | reference => readReference definitions location reference fields.values

section RawNode

variable {m : Type → Type} [MonadExceptOf Error m] (readMapping : RawFields m → String → m Schema)

mutual

/-- A raw value with the readers of its nodes, in which `readMapping` reads a mapping. The readers
are only put together when they are asked for. The value lies below the nodes with the marks
`around`, and its fields also below those with the marks `below`. To read a node again on the way
down to its own parts would go on forever. -/
def rawNodeWithin (around below : List (Nat × Nat)) : Value → RawNode m
  | .map entries =>
    { value := .map entries
      read := fun location => readMapping (rawFields below entries) location
      entries := fun _ => (rawFields around entries).map fun entry => (entry.1, entry.2.read) }
  | .list items =>
    { value := .list items
      read := fun location => throw (.node location .notObject)
      items := fun _ => (rawItems around items).map RawNode.read }
  | .knot mark inner =>
    let node := rawNodeWithin around (mark :: below) inner
    { node with
      value := .knot mark inner
      read := fun location => if around.contains mark then throw .endless else node.read location }
  | value => { value := value, read := fun location => throw (.node location .notObject) }
termination_by structural value => value

/-- The entries of a mapping with the readers of their nodes. -/
def rawFields (around : List (Nat × Nat)) : List (Value × Value) → RawFields m
  | [] => []
  | (key, value) :: rest => (key, rawNodeWithin around around value) :: rawFields around rest
termination_by structural entries => entries

/-- The items of a list with the readers of their nodes. -/
def rawItems (around : List (Nat × Nat)) : List Value → List (RawNode m)
  | [] => []
  | value :: rest => rawNodeWithin around around value :: rawItems around rest
termination_by structural items => items

end

end RawNode

def rawNode (definitions : Definitions) (value : Value) : RawNode Reading :=
  rawNodeWithin (readNode definitions) [] [] value

/-! ## Resolving -/

/-- Keeps what is known of a definition. -/
def enter (key : String) (s : Schema) : Reading Unit :=
  modify fun progress => { progress with table := Assoc.put key s progress.table }

/-- What is known of a definition. -/
def known? (key : String) : Reading (Option Schema) := return Assoc.get? key (← get).table

/-- The schema of a definition (`resolve`). It is read when it is first asked for. Every further
level of references enters one more definition, so no more levels than there are definitions are
needed. -/
def resolveWithin (raw : List (Value × Value)) : Nat → String → Reading Schema
  | 0, key => do
    match ← known? key with
    | some s => return s
    | none => throw (.definitionNotObject key)
  | levels + 1, key => do
    match ← known? key with
    | some s => return s
    | none => match (Value.lookup key raw).map Value.unmarked with
      | some (.map fields) =>
        enter key {}
        let definitions : Definitions := {
          isDefined := fun name => (Value.lookup name raw).isSome
          resolve := resolveWithin raw levels }
        readFields (enter key) key (rawFields (readNode definitions) [] fields)
      | _ => throw (.definitionNotObject key)

def definitionsOf (raw : List (Value × Value)) : Definitions where
  isDefined name := (Value.lookup name raw).isSome
  resolve := resolveWithin raw raw.length

/-- The schema of the definition under any key. Nothing can refer to a key that is no text. -/
def resolveKey (raw : List (Value × Value)) (definition : Value × Value) : Reading Schema :=
  match definition.1, definition.2.unmarked with
  | .str name, _ => (definitionsOf raw).resolve name
  | key, .map fields =>
    readFields (fun _ => return ()) key.plain (rawFields (readNode (definitionsOf raw)) [] fields)
  | key, _ => throw (.definitionNotObject key.plain)

def schemaOf (raw : List (Value × Value)) (node : Value) (location : String) :
    Except Error Schema :=
  ((rawNode (definitionsOf raw) node).read location).run' {}

end SchemaDocs.Dump
