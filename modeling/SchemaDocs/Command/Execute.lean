import SchemaDocs.Command.Request
import SchemaDocs.Run.Generate
import SchemaDocs.Run.Load

/-!
# Execution

What comes of a command line: the files that it leaves, what it shows, and its exit code. The output
of a run that could not be written in full is removed.
-/

namespace SchemaDocs.Command

open Files (Path)

variable {m : Type → Type} [Monad m] [Files.Disk m]

/-- The configuration that a request names, or the one in the working directory if there is one
(`_build_context`). -/
def configurationOf (r : Request) : Run m Configuration := do
  match r.configuration with
  | some (some path) => Run.loadConfiguration (.ofText path)
  | some none => throw .noConfigurationName
  | none =>
    let path := Path.ofText Configuration.defaultFile
    match ← Run.kind? path with
    | some .file => Run.loadConfiguration path
    | _ => return {}

def Action.target? : Action → Option String
  | .generate target => target
  | .render _ => none

/-- The settings of a request: its own ones before those of the configuration. -/
def Request.settings (r : Request) (c : Configuration) : Settings where
  packagePath := ((r.packagePath.map Path.ofText).or c.packagePath).getD .here
  target := ((r.action.target?.map Path.ofText).or c.target).getD (.ofText "docs")
  options := {
    format := r.format.getD c.format
    platform := (r.platform.or c.platform).getD .host
    ignoreDeprecated := r.ignoreDeprecated || c.ignoreDeprecated
    escapeHtml := r.escapeHtml || c.escapeHtml }

/-! ## Documents of a package -/

/-- Removes the target if it is marked as the output of a run. -/
def removeOutput (target : Path) : Run m Unit := do
  match ← Run.kind? (Run.marker target) with
  | some .file => liftM (Files.Disk.remove target : m _)
  | _ => return ()

/-- Writes the documents of a package; nothing of them is left if that fails on the way
(`_handle_gen_docs`). -/
def generate (s : Settings) : Run m String := do
  let root ← Run.loadPackage s.packagePath
  let paths ← tryCatch (Run.generate s root) fun e => do
    match e with
    | .output e =>
      removeOutput s.target
      throw (.output e)
    | e => throw e
  return Run.count paths.length ++ " files written to " ++ s.target.text ++ "\n"

/-! ## Document of a schema -/

/-- The schema under the key of a definition. -/
def findSchema (root : Package) (key : String) : Except RunError Schema :=
  let (path, name) := Text.splitLast '.' key
  match root.find? (Package.segmentsOf path) with
  | none => .error (.unknownPackage path)
  | some package => match Assoc.get? name package.schemas with
    | none => .error (.unknownSchema key)
    | some schema => .ok schema

def faulty : Options.DocumentFault → RunError
  | .render e => .render e
  | .literal fault => .literal fault

/-- Shows the document of a schema, without links (`_handle_render`). -/
def render (s : Settings) (key : Option String) : Run m String := do
  let root ← Run.loadPackage s.packagePath
  let key ← match key with
    | some key => pure key
    | none => throw .noSchemaKey
  let schema ← Run.ofExcept id (findSchema root key)
  match ← Run.ofExcept faulty (s.options.written (fun _ => none) schema) with
  | some text => return text
  | none =>
    Run.log [.ofCommand .warning
      ("schema '" ++ key ++ "' is deprecated and deprecated schemas are ignored")]
    return ""

/-! ## Command lines -/

def carryOut (r : Request) : Run m String := do
  let configuration ← configurationOf r
  let settings := r.settings configuration
  match r.action with
  | .generate _ => generate settings
  | .render key => render settings key

/-- What a run shows, and its exit code. -/
structure Report where
  exit : UInt32
  output : String
  errors : String
deriving DecidableEq

/-- What comes of a command line. -/
inductive Result where
  | stopped (stop : Stop)
  | finished (report : Report)
  /-- The run ends with an error for which there is no error line. -/
  | failed (e : RunError)

/-- Carries out a command line (`main`). -/
def execute (dashes : Dashes) (arguments : List String) : m Result := do
  match Request.ofArguments dashes arguments with
  | .error stop => return .stopped stop
  | .ok request =>
    let (result, log) ← (carryOut request : Run m String).outcome
    let shownLog := LogLine.writeAll (.ofVerbosity request.verbosity) log
    match result with
    | .ok output => return .finished ⟨0, output, shownLog⟩
    | .error e => match e.message? with
      | some message => return .finished ⟨1, "", shownLog ++ "error: " ++ message ++ "\n"⟩
      | none => return .failed e

end SchemaDocs.Command
