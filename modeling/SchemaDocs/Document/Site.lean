import SchemaDocs.Document.Basic
import SchemaDocs.Log
import SchemaDocs.Package.Imports

/-!
# The documents of a run

Every package has an index, and every canonical declaration that is not left out has a document in
the directory of its package. Aliases are listed with a link to the document of the canonical
declaration. What becomes of each declaration is settled first; the documents and the log are read
off from that.
-/

namespace SchemaDocs

/-- Why a run is given up. -/
inductive GenerationFault where
  /-- The plan has no canonical declaration for the schema. -/
  | noCanonical
  | problem (problem : Problem)
deriving DecidableEq

/-- A run that is given up, with the declaration and the path of the package. -/
structure GenerationError where
  fault : GenerationFault
  schema : String
  package : String
deriving DecidableEq

def GenerationFault.message : GenerationFault → String
  | .noCanonical => "no canonical declaration planned"
  | .problem p => p.message

/-- The wording of an error: the package, the declaration, and what is wrong. -/
def GenerationError.message (e : GenerationError) : String :=
  "package '" ++ (if e.package.isEmpty then "<root>" else e.package) ++ "'" ++
    (if e.schema.isEmpty then "" else ", schema '" ++ e.schema ++ "'") ++ ": " ++ e.fault.message

/-- Documents with the segments of their paths, in the order in which they are written. -/
abbrev Documents := List (List String × String)

namespace Declaration

def directory (d : Declaration) : List String := Package.segmentsOf d.path

def documentPath (o : Options) (d : Declaration) : List String :=
  d.directory ++ [o.schemaFile d.name]

end Declaration

namespace ImportPlan

/-- A declaration is left out if the canonical one is deprecated and such schemas are left out. -/
def isIgnored (o : Options) (canonical : Declaration) : Bool :=
  o.ignoreDeprecated && canonical.schema.isDeprecated

/-- The link from a directory to the document of the schema that a node refers to (`_link`). -/
def link (o : Options) (plan : ImportPlan) (directory : List String) (schema : Schema) :
    Option String :=
  match plan.canonicalFor? schema with
  | none => none
  | some canonical =>
    if isIgnored o canonical then none
    else some (o.platform.relativeLink (canonical.documentPath o) directory)

/-- What becomes of a declaration. -/
inductive Outcome where
  | leftOut
  /-- An alias: its entry in the index, and the canonical declaration. -/
  | listed (entry : IndexEntry) (canonical : Declaration)
  /-- A canonical declaration: its entry in the index, and the text of its document. -/
  | documented (entry : IndexEntry) (text : String)

/-- Settles what becomes of a declaration (`_render_declaration`). -/
def outcome (o : Options) (plan : ImportPlan) (d : Declaration) :
    Except GenerationError Outcome :=
  match plan.canonicalOf? d.origin with
  | none => .error ⟨.noCanonical, d.identifier, d.path⟩
  | some canonical =>
    if isIgnored o canonical then .ok .leftOut
    else if !plan.isCanonical d then
      .ok (.listed {
        name := d.name
        link := o.platform.relativeLink (canonical.documentPath o) d.directory
        aliasOf := some canonical.origin.text
        deprecated := canonical.schema.isDeprecated } canonical)
    else match o.document (plan.link o d.directory) d.schema with
      | .error e => .error ⟨.problem e.problem, d.identifier, d.path⟩
      | .ok text => .ok (.documented {
          name := d.name
          link := o.schemaFile d.name
          deprecated := d.schema.isDeprecated } text)

/-- A package with its declarations and what becomes of them. -/
structure PackageOutcome where
  package : Package
  outcomes : List (Declaration × Except GenerationError Outcome)

/-- What becomes of the declarations of a package. -/
def packageOutcome (o : Options) (plan : ImportPlan) (p : Package) : PackageOutcome where
  package := p
  outcomes := (plan.declarations.filter fun d => d.path = p.path).map fun d =>
    (d, plan.outcome o d)

def packageOutcomes (o : Options) (plan : ImportPlan) (root : Package) : List PackageOutcome :=
  root.walk.map (plan.packageOutcome o)

end ImportPlan

namespace ImportPlan.PackageOutcome

open ImportPlan (Outcome PackageOutcome)

/-- The entry of a declaration in the index of its package. -/
def entryOf : Outcome → Option IndexEntry
  | .leftOut => none
  | .listed entry _ => some entry
  | .documented entry _ => some entry

/-- The index of a package with the given entries (`_render_index`). -/
def index (o : Options) (p : Package) (entries : List IndexEntry) : IndexPage where
  name := if p.path.isEmpty then p.name else p.path
  description := p.description
  entries := entries
  subpackages := (Assoc.sortByName id (p.subpackages.map (·.1))).map fun name =>
    ⟨name, o.platform.joinPath [name, o.indexFile]⟩

/-- Adds the document of a declaration, if it has one. -/
def addDocument (o : Options) (d : Declaration) (documents : Documents) : Outcome → Documents
  | .documented _ text => Assoc.put (d.documentPath o) text documents
  | _ => documents

/-- Adds the documents of declarations and gathers their entries in the index, up to the first
declaration that cannot be documented. -/
def addDeclarations (o : Options) :
    List (Declaration × Except GenerationError Outcome) → Documents →
      Except GenerationError (Documents × List IndexEntry)
  | [], documents => .ok (documents, [])
  | (_, .error e) :: _, _ => .error e
  | (d, .ok outcome) :: rest, documents => do
    let (documents, entries) ← addDeclarations o rest (addDocument o d documents outcome)
    return (documents, (entryOf outcome).toList ++ entries)

/-- Adds the documents of a package, its index last. -/
def addPackage (o : Options) (p : PackageOutcome) (documents : Documents) :
    Except GenerationError Documents := do
  let (documents, entries) ← addDeclarations o p.outcomes documents
  return Assoc.put (p.package.segments ++ [o.indexFile])
    (o.indexDocument (index o p.package entries)) documents

def addPackages (o : Options) : List PackageOutcome → Documents → Except GenerationError Documents
  | [], documents => .ok documents
  | p :: rest, documents => do
    let documents ← addPackage o p documents
    addPackages o rest documents

/-! ## Values without a literal -/

/-- Why the documents of a run cannot be written. -/
inductive Flaw where
  | generation (e : GenerationError)
  /-- A value that a document shows has no literal. -/
  | literal (fault : Value.LiteralFault)

/-- Why a declaration cannot be documented. -/
def flawOf? (o : Options) (d : Declaration) : Except GenerationError Outcome → Option Flaw
  | .error e => some (.generation e)
  | .ok (.documented _ _) => (o.literalFault? d.schema).map .literal
  | .ok _ => none

/-- Why the documents of packages cannot be written: the first declaration that cannot be documented
decides. -/
def flaw? (o : Options) (outcomes : List PackageOutcome) : Option Flaw :=
  outcomes.findSome? fun p => p.outcomes.findSome? fun entry => flawOf? o entry.1 entry.2

/-- The documents of packages as they are written. -/
def written (o : Options) (outcomes : List PackageOutcome) : Except Flaw Documents :=
  match flaw? o outcomes with
  | some flaw => .error flaw
  | none => (addPackages o outcomes []).mapError .generation

/-! ## Log -/

/-- What the log tells about a declaration. -/
def declarationLine (d : Declaration) : Outcome → List LogLine
  | .leftOut => [.ofGeneration .debug ("skipping deprecated schema '" ++ d.identifier ++ "'")]
  | .listed _ canonical => [.ofGeneration .debug
      ("'" ++ d.identifier ++ "' re-exports '" ++ canonical.identifier ++
        "', linking instead of rendering")]
  | .documented _ _ => []

/-- What the log tells about declarations, and whether all of them could be documented. -/
def declarationLines (o : Options) :
    List (Declaration × Except GenerationError Outcome) → List LogLine × Bool
  | [] => ([], true)
  | (d, outcome) :: rest => match outcome, flawOf? o d outcome with
    | .ok outcome, none =>
      let (lines, complete) := declarationLines o rest
      (declarationLine d outcome ++ lines, complete)
    | _, _ => ([], false)

/-- What the log tells about packages, up to the first declaration that cannot be documented. -/
def logLines (o : Options) : List PackageOutcome → List LogLine
  | [] => []
  | p :: rest =>
    let name := if p.package.path.isEmpty then p.package.name else p.package.path
    let (lines, complete) := declarationLines o p.outcomes
    .ofGeneration .info ("rendering package '" ++ name ++ "'") :: lines ++
      (if complete then logLines o rest else [])

end ImportPlan.PackageOutcome

/-- The documents of a plan for a package and everything below it, if the values that they show have
literals. -/
def ImportPlan.documents (o : Options) (plan : ImportPlan) (root : Package) :
    Except GenerationError Documents :=
  PackageOutcome.addPackages o (plan.packageOutcomes o root) []

/-- The documents of a plan as they are written (`plan`). -/
def ImportPlan.written (o : Options) (plan : ImportPlan) (root : Package) :
    Except PackageOutcome.Flaw Documents :=
  PackageOutcome.written o (plan.packageOutcomes o root)

end SchemaDocs
