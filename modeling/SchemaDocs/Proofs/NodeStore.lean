import SchemaDocs.Dump.Definitions
import SchemaDocs.Schema.Attribute

/-!
# Nodes in a store

While definitions are read, nodes are made one after another, each at an address of its own, and filled step by step.
They refer to the nodes below them by address, so a node might come to lie below itself; and what reads one node calls
what reads the next one wherever a reference leads, so there might be no end to it. Here the readers are written down as
just that. The only thing that bounds them is how deep their calls may go: beyond that depth there is no result. The
same is done for the functions that describe a node, which follow addresses without end if they lead in a circle. Such a
function comes to an end if its result does not depend on the depth, once that is large enough (`Settles`).

The raw values are those of JSON documents.
-/

namespace SchemaDocs.Dump

/-- However deep calls may go, the result is the same as soon as they may go deep enough. -/
def Settles {α : Type} (f : Nat → Option α) (a : α) : Prop := ∃ enough, ∀ depth, enough ≤ depth → f depth = some a

/-- A node in a store: what it states about itself, and the addresses of the nodes below it. -/
structure Cell extends Facts where
  properties : List (String × Nat) := []
  items : Option Nat := none
  additional : Option Nat := none
  keyType : Option Nat := none
  members : List Nat := []

/-- The nodes that have been made, each at its address, and the addresses of the definitions that have been read or of
which the reading has begun. -/
structure Store where
  cells : List Cell := []
  definitions : List (String × Nat) := []

/-- What changes a store. It may end in an error, and it may have no result at all. -/
abbrev Storing := StateT Store (ExceptT Error Option)

namespace Storing

/-! ## Steps -/

/-- Makes a node, and gives its address. -/
def allocate (cell : Cell) : Storing Nat := do
  let n := (← get).cells.length
  modify fun σ => { σ with cells := σ.cells ++ [cell] }
  return n

def load (n : Nat) : Storing Cell := fun σ => σ.cells[n]?.map fun cell => .ok (cell, σ)

def change (n : Nat) (f : Cell → Cell) : Storing Unit :=
  modify fun σ => { σ with cells := σ.cells.modify n f }

/-- The address of a definition of which the reading has begun. -/
def registered? (key : String) : Storing (Option Nat) := return Assoc.get? key (← get).definitions

/-- Keeps the address of a definition. -/
def register (key : String) (n : Nat) : Storing Unit :=
  modify fun σ => { σ with definitions := Assoc.put key n σ.definitions }

/-- What is called beyond the depth to which calls may go. -/
def tooDeep {α : Type} : Storing α := fun _ => (none : Option (Except Error (α × Store)))

end Storing

open Storing

/-- The readers of nodes that call each other. -/
structure Readers where
  /-- The node of a definition. -/
  resolve : String → Storing Nat
  /-- The node that a raw value at a location is read as. -/
  parse : Value → String → Storing Nat

namespace Readers

/-! ## Reading -/

variable (readers : Readers)

def properties (location : String) (fields : List (Value × Value)) : Storing (List (String × Nat)) :=
  let value := field "properties" fields
  if !value.isTruthy then return []
  else match value with
    | .map attributes => Assoc.ofList <$> attributes.mapM fun entry => do
      let n ← readers.parse entry.2 (location ++ "." ++ entry.1.plain)
      return (entry.1.plain, n)
    | _ => throw (.node location .propertiesNotMapping)

def node? (name location : String) (fields : List (Value × Value)) : Storing (Option Nat) :=
  match Value.lookup name fields with
  | none => return none
  | some value => some <$> readers.parse value location

/-- The node of the values of a map; anything but a node stands for no restriction. -/
def additional (location : String) (fields : List (Value × Value)) : Storing (Option Nat) :=
  match field "additionalProperties" fields with
  | .map entries => some <$> readers.parse (.map entries) (location ++ "[value]")
  | _ => return none

def members (location : String) (fields : List (Value × Value)) : Storing (List Nat) :=
  let value := field "x-kcl-union-types" fields
  if !value.isTruthy then return []
  else match value with
    | .list items => items.zipIdx.mapM fun item => readers.parse item.1 (Location.member location item.2)
    | _ => throw (.node location .membersNotList)

/-- Fills the node at an address with what the fields of a raw node tell. -/
def fill (n : Nat) (location : String) (fields : List (Value × Value)) : Storing Unit := do
  let head ← readHead location fields
  change n fun cell => { cell with
    modelType := head.modelType
    type := head.type
    description := head.description
    readOnly := head.readOnly
    default := head.default }
  let properties ← readers.properties location fields
  let required ← required location fields
  change n fun cell => { cell with properties := properties, required := required }
  let items ← readers.node? "items" (location ++ "[items]") fields
  change n fun cell => { cell with items := items }
  let additional ← readers.additional location fields
  let enumerated ← enumerated location fields
  change n fun cell => { cell with additional := additional, enum := enumerated }
  let keyType ← readers.node? "x-kcl-dict-key-type" (location ++ "[key]") fields
  change n fun cell => { cell with keyType := keyType }
  let members ← readers.members location fields
  let decorators ← readDecorators location fields
  let examples ← readExamples location fields
  change n fun cell => { cell with members := members, decorators := decorators, examples := examples }

/-- The node of a definition. It is registered before it is filled, so that it can refer to itself. -/
def resolveNext (raw : List (Value × Value)) (key : String) : Storing Nat := do
  match ← registered? key with
  | some n => return n
  | none => match Value.lookup key raw with
    | some (.map fields) =>
      let n ← allocate {}
      register key n
      readers.fill n key fields
      return n
    | _ => throw (.definitionNotObject key)

/-- The node that a raw value is read as. One that refers to a definition is a copy of the node of that, as it is by
then. -/
def parseNext (raw : List (Value × Value)) (value : Value) (location : String) : Storing Nat :=
  match value with
  | .map fields => match field "$ref" fields with
    | .null => do
      let n ← allocate {}
      readers.fill n location fields
      return n
    | reference => do
      let name ← referenceName (fun name => (Value.lookup name raw).isSome) location reference
      let cell ← load (← readers.resolve name)
      let description ← textField "description" location fields
      let decorators ← readDecorators location fields
      allocate { cell with
        description := Text.trimBlanks description
        default := Value.lookup "default" fields
        readOnly := (field "readOnly" fields).isTruthy
        decorators := decorators
        examples := [] }
  | _ => throw (.node location .notObject)

end Readers

/-- The readers of a dump, the calls of which may go to a depth. -/
def readersWithin (raw : List (Value × Value)) : Nat → Readers
  | 0 => { resolve := fun _ => tooDeep, parse := fun _ _ => tooDeep }
  | depth + 1 => {
    resolve := (readersWithin raw depth).resolveNext raw
    parse := (readersWithin raw depth).parseNext raw }

/-! ## Describing -/

def Cell.kind (c : Cell) : Kind :=
  c.toFacts.kind c.additional.isSome (!c.properties.isEmpty) (!c.members.isEmpty)

def Cell.parts (c : Cell) : List Nat :=
  c.properties.map (·.2) ++ c.items.toList ++ c.additional.toList ++ c.members ++ c.keyType.toList

namespace Store

/-- The node at the second address is directly below the one at the first. -/
def Below (σ : Store) (m n : Nat) : Prop := ∃ cell, σ.cells[m]? = some cell ∧ n ∈ cell.parts

/-- The result for a part of a node, or `absent` if there is no such part. -/
def ofPart {α : Type} (absent : α) (f : Nat → Option α) : Option Nat → Option α
  | none => some absent
  | some n => f n

/-- The node that the values of a node are built from: the items of an array and the values of a map, as deep as they
are nested. -/
def element (σ : Store) : Nat → Nat → Option Nat
  | 0, _ => none
  | depth + 1, n => do
    let cell ← σ.cells[n]?
    match cell.kind with
    | .array => ofPart n (σ.element depth) cell.items
    | .map => ofPart n (σ.element depth) cell.additional
    | _ => return n

/-- How the type of a node is written. -/
def token (σ : Store) : Nat → Nat → Option String
  | 0, _ => none
  | depth + 1, n => do
    let cell ← σ.cells[n]?
    match cell.kind with
    | .reference => match cell.modelType with
      | some m => return m.name
      | none => return scalarToken cell.type
    | .union => Text.join " | " <$> cell.members.mapM (σ.token depth)
    | .enum => match cell.enum with
      | some (value :: values) => return Text.join " | " ((value :: values).map Value.literal)
      | _ => return scalarToken cell.type
    | .array => do
      let items ← ofPart "any" (σ.token depth) cell.items
      return "[" ++ items ++ "]"
    | .map => do
      let key ← ofPart "str" (σ.token depth) cell.keyType
      let value ← ofPart "any" (σ.token depth) cell.additional
      return "\x7b" ++ key ++ ":" ++ value ++ "\x7d"
    | .object => return "dict"
    | .scalar => return scalarToken cell.type

/-- What is told about the attribute `name` with the node at an address; `link` gives the link to the document of the
schema that the node at an address refers to, and `told` what is told below an inline object. -/
def attributeAt (σ : Store) (link : Nat → Option String) (depth : Nat) (told : Nat → Option (List Attribute))
    (required : List String) (name : String) (n : Nat) : Option Attribute := do
  let cell ← σ.cells[n]?
  let m ← σ.element depth n
  let inner ← σ.cells[m]?
  let children ← (if inner.kind = .object then told m else some [])
  let token ← σ.token depth n
  return {
    name := name
    token := token
    required := required.contains name
    readOnly := cell.readOnly
    deprecated := cell.isDeprecated
    description := Text.trimBlanks cell.description
    default := cell.default.map Value.literal
    link := if inner.kind = .reference then link m else none
    children := children }

/-- What is told about an attribute, unless it is left out. -/
def attribute? (σ : Store) (ignoreDeprecated : Bool) (link : Nat → Option String) (depth : Nat)
    (told : Nat → Option (List Attribute)) (required : List String) (entry : String × Nat) :
    Option (Option Attribute) := do
  let cell ← σ.cells[entry.2]?
  if ignoreDeprecated && cell.isDeprecated then return none
  else some <$> σ.attributeAt link depth told required entry.1 entry.2

/-- The attributes of a node in the order of their names. -/
def attributes (σ : Store) (ignoreDeprecated : Bool) (link : Nat → Option String) : Nat → Nat → Option (List Attribute)
  | 0, _ => none
  | depth + 1, n => do
    let cell ← σ.cells[n]?
    let told ← (Assoc.sortByName (·.1) cell.properties).mapM
      (σ.attribute? ignoreDeprecated link depth (σ.attributes ignoreDeprecated link depth) cell.required)
    return told.filterMap id

end Store

end SchemaDocs.Dump
