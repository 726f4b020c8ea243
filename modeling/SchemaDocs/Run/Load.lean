import SchemaDocs.Dump.Package
import SchemaDocs.Run.Basic
import SchemaDocs.Yaml.Reader

/-!
# Loading

The reading of schema dumps and configuration files. A dump is named by its file or by the directory
of a package, which holds it under one of a few names.
-/

namespace SchemaDocs.Run

open Files (Path Kind)

variable {m : Type → Type} [Monad m] [Files.Disk m]

/-! ## Dumps -/

/-- The names that the file of a dump has in the directory of a package, the first ones first. -/
def dumpNames : List String := ["swagger.json", "swagger.yaml", "swagger.yml"]

def firstFile? : List Path → Run m (Option Path)
  | [] => return none
  | p :: rest => do
    match ← kind? p with
    | some .file => return some p
    | _ => firstFile? rest

/-- The file of the dump at a path (`_resolve_schema_file`). -/
def findDump (p : Path) : Run m Path := do
  match ← kind? p with
  | some .file => return p
  | some .directory =>
    match ← firstFile? (dumpNames.map fun name => p.join (.ofText name)) with
    | some file => return file
    | none => throw (.dump (.noDumpIn p.text dumpNames))
  | none => throw (.dump (.notFound p.text))

/-- The value that the text of a dump stands for; the suffix of the path tells JSON from YAML. -/
def parseDump (p : Path) (text : String) : Except RunError Value :=
  if p.suffix = ".json" then
    match Json.read text with
    | .ok value => .ok value
    | .error .malformed => .error (.dump (.unreadable p.text))
    | .error fault => .error (.json fault)
  else
    match Yaml.read text with
    | .ok value => .ok value
    | .error .malformed => .error (.dump (.unreadable p.text))
    | .error fault => .error (.yaml fault)

def entriesOfDump (p : Path) (text : String) : Except RunError (List (Value × Value)) := do
  let value ← parseDump p text
  match value.unmarked with
  | .map entries => return entries
  | _ => throw (.dump (.notMapping p.text))

def readDump (file : Path) : Run m (List (Value × Value)) := do
  let chars ← readText .files file
  if ← liftM (Files.Disk.follows chars : m Bool) then
    ofExcept id (entriesOfDump file (String.ofList (Text.readLineEndsList chars)))
  else throw .tooDeep

/-- The entries of the dump at a path (`load_schema`). -/
def loadDump (p : Path) : Run m (List (Value × Value)) := do
  let file ← findDump p
  readDump file

/-- The name of a package whose dump has no title: the name of its directory. -/
def defaultName (p : Path) : Run m String := do
  let kind ← kind? p
  let place := p.absolute (← liftM (Files.Disk.workPlace : m _))
  return if kind = some .directory then place.name else place.parent.name

/-- The package that the dump at a path describes (`load_package_tree`). -/
def loadPackage (p : Path) : Run m Package := do
  let document ← loadDump p
  let name ← defaultName p
  ofExcept .dump (Dump.packageOf name document)

/-! ## Configurations -/

/-- The error that a failure to read a configuration means. -/
def configurationFault (p : Path) : Files.Fault → RunError
  | .failed .notFound _ => .configuration (.notFound p.text)
  | fault => .files fault

/-- The configuration in the file at a path (`load_config`). -/
def loadConfiguration (p : Path) : Run m Configuration := do
  let chars ← readText (configurationFault p) p
  match Toml.read? (String.ofList chars) with
  | none => throw (.configuration (.unreadable p.text))
  | some table =>
    let base := (p.absolute (← liftM (Files.Disk.workPlace : m _))).parent
    ofExcept .configuration (Configuration.ofFile base table)

end SchemaDocs.Run
