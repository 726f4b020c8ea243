import SchemaDocs.Platform
import SchemaDocs.Schema.Attribute

/-!
# Pages

The content of the documents, before it is written in a format: the page of a schema and the index
of a package.
-/

namespace SchemaDocs

structure SchemaPage where
  name : String
  deprecation : Option String
  description : String
  attributes : List Attribute
  examples : List Example
  sourceLabel : String
  sourcePath : String

/-- A schema listed in the index of a package; a re-exported one with its origin. -/
structure IndexEntry where
  name : String
  link : String
  aliasOf : Option String := none
  deprecated : Bool := false
deriving DecidableEq

/-- A sub-package listed in the index of a package. -/
structure PackageLink where
  name : String
  link : String
deriving DecidableEq

/-- What the index of a package tells. -/
structure IndexPage where
  name : String
  description : String
  entries : List IndexEntry
  subpackages : List PackageLink

/-- The deprecation notice of an annotation: since which version, and why, if it says so
(`_deprecation_text`). -/
def Decorator.notice (d : Decorator) : String :=
  let since := (Assoc.get? "version" d.keywords).getD ""
  let reason := (Assoc.get? "reason" d.keywords).getD ""
  "Deprecated" ++ (if since.isEmpty then "" else " since " ++ since) ++
    (if reason.isEmpty then "" else ": " ++ reason)

/-- The segments of the path of a package, none for the empty path. -/
def ModelType.packageSegments (m : ModelType) : List String :=
  if m.package.isEmpty then [] else Text.split '.' m.package

def Schema.page (platform : Platform) (view : View) (modelType : ModelType) (s : Schema) :
    SchemaPage where
  name := modelType.name
  deprecation := s.deprecation?.map Decorator.notice
  description := s.description
  attributes := s.attributes view
  examples := s.examples
  sourceLabel := s.qualifiedName
  sourcePath := platform.joinPath (modelType.packageSegments ++ [modelType.sourceFile])

end SchemaDocs
