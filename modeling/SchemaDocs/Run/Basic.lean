import SchemaDocs.Configuration
import SchemaDocs.Document.Site
import SchemaDocs.Dump.Error
import SchemaDocs.Files.Disk
import SchemaDocs.Json.Reader
import SchemaDocs.Yaml.Fault

/-!
# Runs

A run works on files, writes a log, and can end with an error. The log that has been written before
an error is kept.
-/

namespace SchemaDocs

/-- Why the output of a run cannot be written. -/
inductive OutputError where
  | notDirectory (target : Files.Path)
  /-- The target holds files that no earlier run has made. -/
  | foreign (target : Files.Path)
  | cannotPrepare (target : Files.Path) (fault : Files.Fault)
  | cannotWrite (path : Files.Path) (fault : Files.Fault)
deriving DecidableEq

def OutputError.message : OutputError → String
  | .notDirectory target => "target " ++ target.text ++ " exists and is not a directory"
  | .foreign target =>
    "target directory " ++ target.text ++ " is not empty and was not created by kcl-docgen"
  | .cannotPrepare target fault =>
    "cannot prepare target directory " ++ target.text ++ ": " ++ fault.message
  | .cannotWrite path fault => "cannot write " ++ path.text ++ ": " ++ fault.message

/-- Why a run ends. -/
inductive RunError where
  | dump (e : Dump.Error)
  | generation (e : GenerationError)
  | render (e : RenderError)
  | output (e : OutputError)
  | configuration (e : ConfigurationError)
  | unknownPackage (path : String)
  | unknownSchema (key : String)
  /-- A configuration is asked for without a name. -/
  | noConfigurationName
  /-- A schema is asked for without a key. -/
  | noSchemaKey
  | files (fault : Files.Fault)
  | encoding (fault : Text.Utf8.Fault)
  | json (fault : Json.Fault)
  | yaml (fault : Yaml.Fault)
  /-- A value that a document shows has no literal. -/
  | literal (fault : Value.LiteralFault)
  /-- The text of a dump is nested too deep for the stack. -/
  | tooDeep

/-- The end of what is said about integers with too many digits. -/
def RunError.raisedLimit : String :=
  "use sys.set_int_max_str_digits() to increase the limit"

/-- The start of what is said about integers with too many digits. -/
def RunError.limitExceeded : String :=
  "Exceeds the limit (" ++ String.ofList (Numeral.decimal Numeral.mostDigits) ++
    " digits) for integer string conversion"

/-- What is said about an integer that has too many digits to be read. -/
def RunError.longNumeral (digits : Nat) : String :=
  limitExceeded ++ ": value has " ++ String.ofList (Numeral.decimal digits) ++ " digits; " ++ raisedLimit

/-- What the error line says about an error; some errors end a run without one. -/
def RunError.message? : RunError → Option String
  | .dump e => e.message?
  | .generation e => some e.message
  | .render e => some e.message
  | .output e => some e.message
  | .configuration e => some e.message
  | .unknownPackage path => some ("unknown package '" ++ path ++ "'")
  | .unknownSchema key => some ("unknown schema '" ++ key ++ "'")
  | .noConfigurationName | .noSchemaKey => none
  | .files .zeroInPath => some Files.Fault.zeroInPath.message
  | .files (.failed _ _) => none
  | .encoding fault => some fault.message
  | .json (.longNumeral digits) => some (longNumeral digits)
  | .json _ => none
  | .yaml (.badScalar message) => some message
  | .yaml (.longNumeral digits) => some (longNumeral digits)
  | .yaml _ => none
  | .literal .longInteger => some (limitExceeded ++ "; " ++ raisedLimit)
  | .literal .endless => none
  | .tooDeep => none

abbrev Run (m : Type → Type) := ExceptT RunError (StateT (List LogLine) m)

namespace Run

variable {m : Type → Type} [Monad m] {α : Type}

def log (lines : List LogLine) : Run m Unit := modify (· ++ lines)

/-- Does an operation on the disk. The error that a failure means is made by `wrap`, but for a path
that no file can have. -/
def onDisk (wrap : Files.Fault → RunError) (operation : m (Except Files.Fault α)) : Run m α := do
  match ← (liftM operation : StateT (List LogLine) m _) with
  | .ok a => return a
  | .error .zeroInPath => throw (.files .zeroInPath)
  | .error (.failed cause path) => throw (wrap (.failed cause path))

def kind? [Files.Disk m] (p : Files.Path) : Run m (Option Files.Kind) :=
  onDisk .files (Files.Disk.kind? p)

/-- The result, or the error that ends the run. -/
def ofExcept {ε : Type} (wrap : ε → RunError) : Except ε α → Run m α
  | .ok a => pure a
  | .error e => throw (wrap e)

def readText [Files.Disk m] (wrap : Files.Fault → RunError) (p : Files.Path) :
    Run m (List Char) := do
  let data ← onDisk wrap (Files.Disk.read p)
  ofExcept .encoding (Text.Utf8.decode data)

/-- What a run comes to, with its log. -/
def outcome (run : Run m α) : m (Except RunError α × List LogLine) := run.run.run []

end Run

end SchemaDocs
