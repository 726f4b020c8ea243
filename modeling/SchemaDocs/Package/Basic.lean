import SchemaDocs.Assoc
import SchemaDocs.Schema.Basic
import SchemaDocs.Text.Basic

/-!
# Packages

The hierarchy of packages that is documented. A package holds the schemas that are visible in it,
under their visible names, and its sub-packages.
-/

namespace SchemaDocs

/-- A package with everything below it. -/
structure Package where
  name : String
  path : String := ""
  description : String := ""
  schemas : List (String × Schema) := []
  subpackages : List (String × Package) := []

namespace Package

def segmentsOf (path : String) : List String :=
  if path.isEmpty then [] else Text.split '.' path

/-- The segments of the path of a package. -/
def segments (p : Package) : List String := segmentsOf p.path

mutual

/-- A package and all packages below it: each one before its sub-packages, and these in the order of
their names (`walk`). -/
def walk : Package → List Package
  | ⟨name, path, description, schemas, subpackages⟩ =>
    ⟨name, path, description, schemas, subpackages⟩ ::
      (Assoc.sortByName (·.1) (walkEach subpackages)).flatMap (·.2)
termination_by structural package => package

def walkEach : List (String × Package) → List (String × List Package)
  | [] => []
  | (name, package) :: rest => (name, walk package) :: walkEach rest
termination_by structural packages => packages

end

/-- The package that a list of names leads to from sub-package to sub-package. -/
def find? : List String → Package → Option Package
  | [], p => some p
  | name :: names, p => match Assoc.get? name p.subpackages with
    | some child => find? names child
    | none => none

/-- The package with a schema put under a visible name into the package at a list of segments.
Packages on the way that are missing are made (`_ensure_package`); `above` holds the segments that
lead here. -/
def insertAt (visible : String) (schema : Schema) (above : List String) :
    List String → Package → Package
  | [], p => { p with schemas := Assoc.put visible schema p.schemas }
  | segment :: rest, p =>
    let place := above ++ [segment]
    { p with subpackages := Assoc.alter segment (fun child =>
        insertAt visible schema place rest
          (child.getD { name := segment, path := Text.join "." place })) p.subpackages }

end Package

end SchemaDocs
