import SchemaDocs.Assoc
import SchemaDocs.Dump.Error
import SchemaDocs.Text.Blank
import SchemaDocs.Value.Literal

/-!
# Fields of raw nodes

The parts of a raw node that hold no further nodes: texts, the model type, decorators and examples.
-/

namespace SchemaDocs.Dump

/-- The value of a field, null if it is missing. -/
def field (name : String) (fields : List (Value × Value)) : Value :=
  (Value.lookup name fields).getD .null

/-- The text of a field, empty if it is missing (`_optional_str`). -/
def textField (name location : String) (fields : List (Value × Value)) : Except Error String :=
  match field name fields with
  | .null => .ok ""
  | .str s => .ok s
  | _ => .error (.node location (.notText name))

/-- The plain form of a field, empty if its value is not truthy. -/
def plainField (name : String) (fields : List (Value × Value)) : String :=
  let value := field name fields
  if value.isTruthy then value.plain else ""

/-- The text of an entry of an import, empty if its value is not truthy. -/
def importField (name location : String) (fields : List (Value × Value)) : Except Error String :=
  let value := field name fields
  if value.isTruthy then
    match value with
    | .str s => .ok s
    | _ => .error (.node location .importNotTexts)
  else .ok ""

/-- The model type that a raw value declares (`_parse_model_type`). -/
def readModelType (location : String) (value : Value) : Except Error ModelType :=
  match value.unmarked with
  | .map fields => do
    let name ← match field "type" fields with
      | .str name =>
        if name.isEmpty then .error (.node location .modelTypeWithoutName) else .ok name
      | _ => .error (.node location .modelTypeWithoutName)
    let origin := field "import" fields
    let origin ←
      if origin.isTruthy then
        match origin.unmarked with
        | .map entries => .ok entries
        | _ => .error (.node location .importNotObject)
      else .ok []
    let package ← importField "package" location origin
    let sourceFile ← importField "alias" location origin
    return ⟨name, package, sourceFile⟩
  | _ => .error (.node location .modelTypeNotObject)

/-- The decorator that a raw value describes. -/
def readDecorator (location : String) (value : Value) : Except Error Decorator :=
  match value.unmarked with
  | .map fields =>
    match field "name" fields with
    | .str name => do
      let arguments := field "arguments" fields
      let keywords := field "keywords" fields
      let malformed : Error := .node location (.malformedDecorator name)
      let arguments ←
        if arguments.isTruthy then
          match arguments.unmarked with
          | .list arguments => .ok arguments
          | _ => .error malformed
        else .ok []
      let keywords ←
        if keywords.isTruthy then
          match keywords.unmarked with
          | .map keywords => .ok keywords
          | _ => .error malformed
        else .ok []
      return {
        name := name
        arguments := arguments.map Value.plain
        keywords := Assoc.ofList (keywords.map fun entry => (entry.1.plain, entry.2.plain)) }
    | _ => .error (.node location .decoratorWithoutName)
  | _ => .error (.node location .decoratorWithoutName)

/-- The decorators of a node (`_parse_decorators`). -/
def readDecorators (location : String) (fields : List (Value × Value)) :
    Except Error (List Decorator) :=
  match (field "x-kcl-decorators" fields).unmarked with
  | .null => .ok []
  | .list entries => entries.mapM (readDecorator location)
  | _ => .error (.node location .decoratorsNotList)

/-! ## Examples -/

/-- Two example names have a common order, and the first one is the smaller one. -/
def nameBefore? : Value → Value → Option Bool
  | .str a, .str b => some (a < b)
  | .date a, .date b => some (a.number < b.number)
  | .timestamp a, .timestamp b =>
    if a.offset.isSome == b.offset.isSome then some (a.instant < b.instant) else none
  | .bytes a, .bytes b => some (decide (a < b))
  | .float x, .float y => some (x.isBelow y)
  | .float x, b => b.keyInt?.map fun j => x.isBelowInt j
  | a, .float y => a.keyInt?.map fun i => y.isAboveInt i
  | a, b => match a.keyInt?, b.keyInt? with
    | some i, some j => some (i < j)
    | _, _ => none

/-- An entry is named before another; none if the names have no common order. -/
def isBefore? (a b : Value × Value) : Option Bool := nameBefore? a.1 b.1

/-- The entries at the front of a list that have the order `down` from each neighbour to the next, after
the entry `last`; and the other entries. -/
def runFrom? (down : Bool) (last : Value × Value) :
    List (Value × Value) → Option (List (Value × Value) × List (Value × Value))
  | [] => some ([], [])
  | entry :: rest => do
    if (← isBefore? entry last) == down then
      let (run, others) ← runFrom? down entry rest
      return (entry :: run, others)
    else return ([], entry :: rest)

/-- The longest run at the front of a list, each entry before the next one, and the other entries. A
run in which each entry is after the next one is turned round. -/
def firstRun? : List (Value × Value) → Option (List (Value × Value) × List (Value × Value))
  | first :: second :: rest => do
    let down ← isBefore? second first
    let (run, others) ← runFrom? down second rest
    let run := first :: second :: run
    return (if down then run.reverse else run, others)
  | entries => some (entries, [])

/-- The number of entries of a sorted array, from `low` up to `high`, that an entry comes after. The
middle one decides which half to look into; the fuel bounds the number of halvings. -/
def rank? (entry : Value × Value) (sorted : Array (Value × Value)) :
    Nat → Nat → Nat → Option Nat
  | 0, low, _ => some low
  | fuel + 1, low, high =>
    if low < high then do
      let middle := low + (high - low) / 2
      let other ← sorted[middle]?
      if ← isBefore? entry other then rank? entry sorted fuel low middle
      else rank? entry sorted fuel (middle + 1) high
    else some low

/-- The sorted entries with others put into their places one after another. -/
def insertAll? (sorted : Array (Value × Value)) :
    List (Value × Value) → Option (Array (Value × Value))
  | [] => some sorted
  | entry :: rest => do
    let place ← rank? entry sorted (sorted.size + 1) 0 sorted.size
    insertAll? (sorted.insertIdxIfInBounds place entry) rest

/-- The entries in the order of their names; none if two names are compared that have no common
order. A name that is no number is neither before nor after any other, so with such a name the way
of sorting matters: the first run is taken as it is, and the other entries are put into it. -/
def sortExamples? (entries : List (Value × Value)) : Option (List (Value × Value)) := do
  let (run, others) ← firstRun? entries
  let sorted ← insertAll? run.toArray others
  return sorted.toList

/-- The example that an entry describes. -/
def readExample (location : String) (entry : Value × Value) : Except Error Example :=
  match entry.2.unmarked with
  | .map fields => .ok {
      summary := Text.trimBlanks (plainField "summary" fields)
      description := Text.trimBlanks (plainField "description" fields)
      value := Text.trimLineFeeds (plainField "value" fields) }
  | _ => .error (.node location (.exampleNotObject entry.1.plain))

/-- The examples of a node in the order of their names (`_parse_examples`). -/
def readExamples (location : String) (fields : List (Value × Value)) :
    Except Error (List Example) :=
  match (field "examples" fields).unmarked with
  | .null => .ok []
  | .map entries =>
    match sortExamples? entries with
    | some entries => entries.mapM (readExample location)
    | none => .error .unorderedExamples
  | _ => .error (.node location .examplesNotMapping)

end SchemaDocs.Dump
