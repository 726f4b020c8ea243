import SchemaDocs.Run.Basic

/-!
# Generation

The writing of the documents of a package into a target directory. All documents are made before
anything is written, so an error in one of them leaves the target as it was. A directory is emptied
first, if it is marked as the output of an earlier run; otherwise it has to be empty.
-/

namespace SchemaDocs

/-- What a run works on. -/
structure Settings where
  packagePath : Files.Path
  target : Files.Path
  options : Options := {}

namespace Run

open Files (Path)

variable {m : Type → Type} [Monad m] [Files.Disk m]

/-- The name of the file that marks the output of a run. -/
def markerName : String := ".kcl-docgen"

def markerText : String := "generated by kcl-docgen\n"

def marker (target : Path) : Path := target.join (.ofText markerName)

/-- Removes what is in a directory under the given names, one after another. -/
def discard (wrap : Files.Fault → RunError) (p : Path) : List String → Run m Unit
  | [] => return ()
  | name :: rest => do
    onDisk wrap (Files.Disk.discard p name)
    discard wrap p rest

/-- The error that a fault means while the target is prepared. -/
def cannotPrepare (target : Path) (fault : Files.Fault) : RunError :=
  .output (.cannotPrepare target fault)

/-- Removes what is in a directory, which has to be marked as the output of an earlier run. -/
def discardEarlier (target : Path) : Run m Unit := do
  match ← onDisk (cannotPrepare target) (Files.Disk.kind? (marker target)) with
  | some .file =>
    log [.ofGeneration .info ("removing output of a previous run in " ++ target.text)]
    let names ← onDisk (cannotPrepare target) (Files.Disk.names target)
    discard (cannotPrepare target) target names
  | _ => throw (.output (.foreign target))

/-- Empties a directory that is marked as the output of an earlier run; one that is not has to be
empty. -/
def emptyTarget (target : Path) : Run m Unit := do
  let names ← onDisk (cannotPrepare target) (Files.Disk.names target)
  if !names.isEmpty then discardEarlier target

/-- Makes the target, unless it is there, and marks it. -/
def startOutput (target : Path) : Run m Unit := do
  onDisk (cannotPrepare target) (Files.Disk.makeDirectories target)
  onDisk (cannotPrepare target) (Files.Disk.write (marker target) (Text.Utf8.encode markerText))

/-- Makes the target an empty directory with the mark of a run (`prepare_target`). -/
def prepareTarget (target : Path) : Run m Unit := do
  match ← kind? target with
  | some .file => throw (.output (.notDirectory target))
  | some .directory => emptyTarget target
  | none => pure ()
  startOutput target

/-- Writes a document, and the directories above it that are missing. -/
def writeDocument (path : Path) (text : String) : Run m Unit := do
  let cannotWrite (fault : Files.Fault) : RunError := .output (.cannotWrite path fault)
  onDisk cannotWrite (Files.Disk.makeDirectories path.parent)
  onDisk cannotWrite (Files.Disk.write path (Text.Utf8.encode text))

/-- Writes documents one after another; gives their paths. -/
def writeDocuments (target : Path) : Documents → Run m (List Path)
  | [] => return []
  | (segments, text) :: rest => do
    let path := target.joinAll segments
    writeDocument path text
    let paths ← writeDocuments target rest
    return path :: paths

/-- The number in decimal digits. -/
def count (n : Nat) : String := String.ofList (Numeral.decimal n)

/-- The error that a flaw in the documents means. -/
def flawed : ImportPlan.PackageOutcome.Flaw → RunError
  | .generation e => .generation e
  | .literal fault => .literal fault

/-- Makes the documents of a package; nothing is written but the log. -/
def makeDocuments (s : Settings) (root : Package) : Run m Documents := do
  match ImportPlan.ofPackage? root with
  | none => throw (.dump .noOrigin)
  | some plan =>
    log [.ofGeneration .info ("documenting " ++ count plan.canonical.length ++ " schemas (" ++
      count plan.aliases.length ++ " re-exports) from " ++ s.packagePath.text)]
    let outcomes := plan.packageOutcomes s.options root
    log (ImportPlan.PackageOutcome.logLines s.options outcomes)
    ofExcept flawed (ImportPlan.PackageOutcome.written s.options outcomes)

/-- Writes the documents of a package into the target; gives their paths (`gen_doc`). -/
def generate (s : Settings) (root : Package) : Run m (List Path) := do
  let documents ← makeDocuments s root
  prepareTarget s.target
  let paths ← writeDocuments s.target documents
  log [.ofGeneration .info ("wrote " ++ count paths.length ++ " files to " ++ s.target.text)]
  return paths

end Run

end SchemaDocs
