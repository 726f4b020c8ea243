import SchemaDocs.Files.Path
import SchemaDocs.Format
import SchemaDocs.Platform
import SchemaDocs.Toml.Reader

/-!
# Configuration files

The settings that a configuration file can make, in its table `docgen`. A key that is not known and a
value of the wrong kind are refused, whatever else is in the table.
-/

namespace SchemaDocs

/-- Why a configuration is refused. -/
inductive ConfigurationError where
  | notFound (path : String)
  | unreadable (path : String)
  | notTable
  | unknownKeys (keys : List String)
  | notFilledText (key : String)
  | notBoolean (key : String)
  | notText (key : String)
  | unknownFormat (name : String)
  | unknownPlatform (name : String)
deriving DecidableEq

def ConfigurationError.message : ConfigurationError → String
  | .notFound path => "config file not found: " ++ path
  | .unreadable path => "failed to parse config file " ++ path
  | .notTable => "config 'docgen' must be a table"
  | .unknownKeys keys => "unknown config keys in 'docgen': " ++ Text.join ", " keys
  | .notFilledText key => "config " ++ key ++ " must be a non-empty string"
  | .notBoolean key => "config " ++ key ++ " must be a boolean"
  | .notText key => "config " ++ key ++ " must be a string"
  | .unknownFormat name => "config format: " ++ Format.unknownMessage name
  | .unknownPlatform name => "config platform: " ++ Platform.unknownMessage name

/-- The settings of a configuration file. -/
structure Configuration where
  packagePath : Option Files.Path := none
  target : Option Files.Path := none
  format : Format := .markdown
  ignoreDeprecated : Bool := false
  escapeHtml : Bool := false
  platform : Option Platform := none

namespace Configuration

/-- The name of the file that is read if no other one is named. -/
def defaultFile : String := "kcl-docgen.toml"

def knownKeys : List String :=
  ["package_path", "target", "format", "ignore_deprecated", "escape_html", "platform"]

/-- The path under a key, which is taken from the directory `base` on (`_optional_path`). -/
def readPath (base : Files.Path) (key : String) (table : Toml.Table) :
    Except ConfigurationError (Option Files.Path) :=
  match Assoc.get? key table with
  | none => .ok none
  | some (.string s) =>
    if (Text.trimBlanks s).isEmpty then .error (.notFilledText key)
    else .ok (some (base.join (.ofText s)))
  | some _ => .error (.notFilledText key)

/-- The truth value under a key, false if there is none (`_optional_bool`). -/
def readBoolean (key : String) (table : Toml.Table) : Except ConfigurationError Bool :=
  match Assoc.get? key table with
  | none => .ok false
  | some (.boolean b) => .ok b
  | some _ => .error (.notBoolean key)

/-- The choice that is named under a key (`_parse_choice`). -/
def readChoice {α : Type} (key : String) (choose : String → Option α)
    (unknown : String → ConfigurationError) (table : Toml.Table) :
    Except ConfigurationError (Option α) :=
  match Assoc.get? key table with
  | none => .ok none
  | some (.string name) => match choose name with
    | some choice => .ok (some choice)
    | none => .error (unknown name)
  | some _ => .error (.notText key)

def ofTable (base : Files.Path) (table : Toml.Table) : Except ConfigurationError Configuration := do
  let unknown := (table.map (·.1)).filter fun key => !knownKeys.contains key
  if !unknown.isEmpty then throw (.unknownKeys (Assoc.sortByName id unknown))
  let packagePath ← readPath base "package_path" table
  let target ← readPath base "target" table
  let ignoreDeprecated ← readBoolean "ignore_deprecated" table
  let escapeHtml ← readBoolean "escape_html" table
  let format ← readChoice "format" Format.ofName? .unknownFormat table
  let platform ← readChoice "platform" Platform.ofName? .unknownPlatform table
  return {
    packagePath := packagePath
    target := target
    format := format.getD .markdown
    ignoreDeprecated := ignoreDeprecated
    escapeHtml := escapeHtml
    platform := platform }

/-- The configuration that a file stands for; without a table `docgen` nothing is set. -/
def ofFile (base : Files.Path) (file : Toml.Table) : Except ConfigurationError Configuration :=
  match Assoc.get? "docgen" file with
  | none => ofTable base []
  | some (.table table) => ofTable base table
  | some _ => .error .notTable

end Configuration

end SchemaDocs
