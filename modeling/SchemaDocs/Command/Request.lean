import SchemaDocs.Command.Words
import SchemaDocs.Format
import SchemaDocs.Platform

/-!
# Requests

What a command line asks for: the documents of a package, or the document of one schema.
-/

namespace SchemaDocs.Command

/-- What is to be done. The key of a schema is missing if it has been given as two dashes that were
taken away. -/
inductive Action where
  | generate (target : Option String)
  | render (schema : Option String)
deriving DecidableEq

/-- What a command line asks for. Settings that it leaves open are those of the configuration, which
can be asked for without a name as well. -/
structure Request where
  action : Action
  verbosity : Nat := 0
  packagePath : Option String := none
  configuration : Option (Option String) := none
  format : Option Format := none
  platform : Option Platform := none
  ignoreDeprecated : Bool := false
  escapeHtml : Bool := false
deriving DecidableEq

/-! ## Options -/

def helpForm : OptionForm := ⟨["--help", "-h"], .help⟩

def globalForms : List OptionForm := [helpForm, ⟨["--verbose", "-v"], .flag⟩]

def commonForms : List OptionForm := [
  helpForm,
  ⟨["--package-path"], .text⟩,
  ⟨["--config"], .text⟩,
  ⟨["--format"], .choice ["md", "markdown", "html"]⟩,
  ⟨["--platform"], .choice ["host", "unix", "windows"]⟩,
  ⟨["--ignore-deprecated"], .flag⟩,
  ⟨["--escape-html"], .flag⟩]

def generateForms : List OptionForm := commonForms ++ [⟨["--target"], .text⟩]

def renderForms : List OptionForm := commonForms ++ [⟨["--schema"], .text⟩]

/-! ## Reading -/

def Request.ofOptions (verbosity : Nat) (action : Action) (options : Options) : Request where
  action := action
  verbosity := verbosity
  packagePath := options.text? "--package-path"
  configuration := options.last? "--config"
  format := (options.text? "--format").bind Format.ofName?
  platform := (options.text? "--platform").bind Platform.ofName?
  ignoreDeprecated := options.has "--ignore-deprecated"
  escapeHtml := options.has "--escape-html"

/-- What the words after the name of a command ask for. -/
def Action.ofOptions (command : String) (options : Options) : Except Stop Action :=
  if command = "gen-docs" then .ok (.generate (options.text? "--target"))
  else match options.last? "--schema" with
    | some schema => .ok (.render schema)
    | none => .error .misuse

def formsOf? (command : String) : Option (List OptionForm) :=
  if command = "gen-docs" then some generateForms
  else if command = "render" then some renderForms
  else none

def Word.isOption : Word → Bool
  | .option _ _ _ | .unknownOption => true
  | .plain _ | .dashes => false

/-- What a command line asks for. A word too many is only found out when all others have been read. -/
def Request.ofArguments (dashes : Dashes) (arguments : List String) : Except Stop Request := do
  let words ← Word.ofTexts globalForms arguments
  let globalWords := words.takeWhile Word.isOption
  let globalOptions ← Options.ofWords dashes globalForms globalWords
  match arguments.drop globalWords.length with
  | [] => throw .misuse
  | command :: rest =>
    match formsOf? command with
    | none => throw .misuse
    | some forms =>
      let words ← Word.ofTexts forms rest
      let options ← Options.ofWords dashes forms words
      let action ← Action.ofOptions command options
      if globalOptions.hasRest || options.hasRest then throw .misuse
      return .ofOptions (globalOptions.count "--verbose") action options

end SchemaDocs.Command
