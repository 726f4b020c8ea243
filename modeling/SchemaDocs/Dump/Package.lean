import SchemaDocs.Dump.Definitions
import SchemaDocs.Package.Basic

/-!
# Packages of schema dumps

The package hierarchy that a schema dump describes. The key of a definition is the path of a package
and, after the last dot, the name under which the schema is visible there.
-/

namespace SchemaDocs.Dump

def readInfo (document : List (Value × Value)) : Except Error (List (Value × Value)) :=
  let info := field "info" document
  if !info.isTruthy then .ok []
  else match info.unmarked with
    | .map fields => .ok fields
    | _ => .error .infoNotMapping

def readDefinitions (document : List (Value × Value)) : Except Error (List (Value × Value)) :=
  match (field "definitions" document).unmarked with
  | .null => .ok []
  | .map entries => .ok entries
  | _ => .error .definitionsNotMapping

/-- The package at the root, before any schema is put into it. -/
def emptyRoot (defaultName : String) (info : List (Value × Value)) : Package where
  name := if (field "title" info).isTruthy then (field "title" info).plain else defaultName
  description := Text.trimBlanks (plainField "description" info)

/-- Puts a schema into the package hierarchy under the key of its definition. -/
def place (key : Value) (schema : Schema) (root : Package) : Except Error Package :=
  match key with
  | .str key =>
    let (path, visible) := Text.splitLast '.' key
    let segments := Package.segmentsOf path
    if segments.contains "" then .error (.invalidPackagePath path)
    else .ok (root.insertAt visible schema [] segments)
  | key => .error (.keyNotText key)

/-- Reads definitions one after another and puts each into the package hierarchy. -/
def placeAll (raw : List (Value × Value)) : List (Value × Value) → Package → Reading Package
  | [], root => return root
  | entry :: rest, root => do
    let schema ← resolveKey raw entry
    match schema.problemOfDeclared? with
    | some problem => throw (.invalidDefinition entry.1.plain problem)
    | none => do
      let root ← place entry.1 schema root
      placeAll raw rest root

/-- The package hierarchy that a dump describes (`build_package_tree`). The root is named by the
title of the dump. -/
def packageOf (defaultName : String) (document : List (Value × Value)) : Except Error Package := do
  let info ← readInfo document
  let raw ← readDefinitions document
  (placeAll raw raw (emptyRoot defaultName info)).run' {}

/-- The package hierarchy that a value describes as a dump. -/
def packageOfValue (defaultName : String) (value : Value) : Except Error Package :=
  match value.unmarked with
  | .map document => packageOf defaultName document
  | _ => .error .notDocument

end SchemaDocs.Dump
