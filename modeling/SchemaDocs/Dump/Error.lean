import SchemaDocs.Schema.Check
import SchemaDocs.Text.Basic

/-!
# Errors of schema dumps

Why a schema dump is refused, and the wording of each reason.
-/

namespace SchemaDocs.Dump

/-- What is wrong with a raw node. -/
inductive Fault where
  | notObject
  /-- The reference, in its display form, is no text or leads out of the definitions. -/
  | unsupportedReference (shown : String)
  | unknownReference (name : String)
  | notText (field : String)
  | propertiesNotMapping
  | requiredNotNames
  | enumNotList
  | membersNotList
  | modelTypeNotObject
  | modelTypeWithoutName
  | importNotObject
  | importNotTexts
  | decoratorsNotList
  | decoratorWithoutName
  | malformedDecorator (name : String)
  | examplesNotMapping
  | exampleNotObject (name : String)
deriving DecidableEq

/-- Why a schema dump is refused. -/
inductive Error where
  | unreadable (path : String)
  | notMapping (path : String)
  | notFound (path : String)
  | noDumpIn (directory : String) (names : List String)
  | infoNotMapping
  | definitionsNotMapping
  | definitionNotObject (key : String)
  | node (location : String) (fault : Fault)
  | invalidDefinition (key : String) (problem : Problem)
  | invalidPackagePath (path : String)
  /-- A declaration has no model type, so it is not known where it is declared. -/
  | noOrigin
  /-- A value that is no mapping is taken for a dump. -/
  | notDocument
  /-- A definition is in order, but its key is no text that could be split into package and name. -/
  | keyNotText (key : Value)
  /-- The names of the examples of a node have no common order. -/
  | unorderedExamples
  /-- A node lies in itself, so its parts never end. -/
  | endless

/-- The text in single quotation marks. -/
def inQuotes (s : String) : String := "'" ++ s ++ "'"

/-- The wording of a fault of the node at a location. -/
def Fault.message (location : String) (fault : Fault) : String :=
  inQuotes location ++ " " ++ match fault with
    | .notObject => "must be an object"
    | .unsupportedReference shown => "has unsupported $ref " ++ shown
    | .unknownReference name => "references unknown definition " ++ inQuotes name
    | .notText field => field ++ " must be a string"
    | .propertiesNotMapping => "properties must be a mapping"
    | .requiredNotNames => "required must be a list of names"
    | .enumNotList => "enum must be a list"
    | .membersNotList => "x-kcl-union-types must be a list"
    | .modelTypeNotObject => "x-kcl-type must be an object"
    | .modelTypeWithoutName => "x-kcl-type must define 'type'"
    | .importNotObject => "x-kcl-type import must be an object"
    | .importNotTexts => "x-kcl-type import entries must be strings"
    | .decoratorsNotList => "x-kcl-decorators must be a list"
    | .decoratorWithoutName => "decorator entries must define a name"
    | .malformedDecorator name => "decorator " ++ inQuotes name ++ " is malformed"
    | .examplesNotMapping => "examples must be a mapping"
    | .exampleNotObject name => "example " ++ inQuotes name ++ " must be an object"

/-- The wording of an error. The last ones have none: they end a run without an error line. -/
def Error.message? : Error → Option String
  | .unreadable path => some ("failed to parse schema dump " ++ path)
  | .notMapping path => some ("schema dump " ++ path ++ " must be a mapping")
  | .notFound path => some ("schema dump not found: " ++ path)
  | .noDumpIn directory names => some
      ("no schema dump found in " ++ directory ++ " (expected one of " ++ Text.join ", " names ++ ")")
  | .infoNotMapping => some "schema dump 'info' must be a mapping"
  | .definitionsNotMapping => some "schema dump 'definitions' must be a mapping"
  | .definitionNotObject key => some ("definition " ++ inQuotes key ++ " must be an object")
  | .node location fault => some (fault.message location)
  | .invalidDefinition key problem =>
    some ("definition " ++ inQuotes key ++ ": " ++ problem.message)
  | .invalidPackagePath path => some ("invalid package path " ++ inQuotes path)
  | .noOrigin => some "schema without 'x-kcl-type' has no origin"
  | .notDocument | .keyNotText _ | .unorderedExamples | .endless => none

end SchemaDocs.Dump
