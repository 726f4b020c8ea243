import SchemaDocs.Text.Basic
import SchemaDocs.Text.Digit

/-!
# Words of command lines

What the words of a command line are, given the options that are known: options, with what is
attached to them, and plain words. A long option can be cut short as long as it is told apart from
the others, and options of one letter that take no text can be written behind one dash.
-/

namespace SchemaDocs.Command

inductive OptionKind where
  /-- Nothing; the command line is answered by a help text. -/
  | help
  /-- Nothing. -/
  | flag
  /-- Any text. -/
  | text
  /-- One of these words. -/
  | choice (words : List String)
deriving DecidableEq

/-- An option with its names, the one under which it is asked for first. -/
structure OptionForm where
  names : List String
  kind : OptionKind
deriving DecidableEq

/-- Why a command line is not carried out. -/
inductive Stop where
  | help
  | misuse
deriving DecidableEq

inductive Word where
  | plain (text : String)
  /-- Two dashes, after which all words are plain. -/
  | dashes
  /-- An option, one of a single letter or not, with the text that is attached to it. -/
  | option (form : OptionForm) (oneLetter : Bool) (attached : Option (List Char))
  | unknownOption
deriving DecidableEq

def named? (forms : List OptionForm) (name : List Char) : Option OptionForm :=
  forms.find? fun form => form.names.contains (String.ofList name)

/-- The characters are decimal digits, of which there is at least one. -/
def areDigits (cs : List Char) : Bool := !cs.isEmpty && cs.all Text.isDecimal

/-- The characters are a dash and a number; a line feed at the end does not matter. -/
def isNegativeNumber : List Char → Bool
  | '-' :: cs =>
    let cs := if cs.getLast? = some '\n' then cs.dropLast else cs
    let rest := cs.dropWhile Text.isDecimal
    areDigits cs || match rest with
      | '.' :: digits => areDigits digits
      | _ => false
  | _ => false

/-- What stands before the first equals sign and after it, if there is one. -/
def splitAssigned (cs : List Char) : List Char × Option (List Char) :=
  match cs.dropWhile (· != '=') with
  | _ :: text => (cs.takeWhile (· != '='), some text)
  | [] => (cs, none)

/-- What a word that begins with two dashes can be, once for each name that begins as it does. -/
def longOptions (forms : List OptionForm) (cs : List Char) : List Word :=
  let (start, attached) := splitAssigned cs
  forms.flatMap fun form => (form.names.filter fun name => start.isPrefixOf name.toList).map
    fun name => .option form (name.length == 2) attached

/-- What a word that begins with one dash can be: an option of one letter with a text right behind
it. -/
def shortOptions (forms : List OptionForm) (cs : List Char) : List Word :=
  ((named? forms (cs.take 2)).map fun form => .option form true (some (cs.drop 2))).toList

/-- The word that is a known option by its name, or by what stands before an equals sign. -/
def knownOption? (forms : List OptionForm) (cs : List Char) : Option Word :=
  match named? forms cs with
  | some form => some (.option form (cs.length == 2) none)
  | none => match splitAssigned cs with
    | (name, some text) => (named? forms name).map fun form =>
      .option form (name.length == 2) (some text)
    | (_, none) => none

/-- What a word before two dashes is. -/
def Word.ofText (forms : List OptionForm) (s : String) : Except Stop Word :=
  let cs := s.toList
  match cs with
  | '-' :: second :: _ =>
    match knownOption? forms cs with
    | some word => .ok word
    | none =>
      match if second = '-' then longOptions forms cs else shortOptions forms cs with
      | [word] => .ok word
      | _ :: _ :: _ => .error .misuse
      | [] => .ok (if isNegativeNumber cs || cs.contains ' ' then .plain s else .unknownOption)
  | _ => .ok (.plain s)

def Word.ofTexts (forms : List OptionForm) : List String → Except Stop (List Word)
  | [] => .ok []
  | "--" :: rest => .ok (.dashes :: rest.map .plain)
  | s :: rest => do
    let word ← Word.ofText forms s
    let words ← Word.ofTexts forms rest
    return word :: words

/-! ## Options given -/

/-- What becomes of two dashes behind an equals sign. Readers of command lines differ in that. -/
inductive Dashes where
  /-- They are the text of the option. -/
  | kept
  /-- They are taken away, and the option is given without a text. -/
  | dropped
deriving DecidableEq

/-- An option that is given, by its first name, with its text. -/
structure Given where
  name : String
  text : Option String := none
deriving DecidableEq

/-- The options of a command line in order. -/
structure Options where
  given : List Given := []
  /-- There is a word that belongs to no option. -/
  hasRest : Bool := false

def OptionForm.give (form : OptionForm) : Except Stop Given :=
  match form.kind with
  | .help => .error .help
  | _ => .ok { name := form.names.headD "" }

def OptionForm.isBare (form : OptionForm) : Bool := form.kind = .help || form.kind = .flag

/-- An option with its text, which has to be one of the words of a choice. -/
def OptionForm.giveText (dashes : Dashes) (form : OptionForm) (text : String) :
    Except Stop Given :=
  let given : Given := {
    name := form.names.headD ""
    text := if dashes = .dropped && text = "--" then none else some text }
  match form.kind, given.text with
  | .choice words, some text => if words.contains text then .ok given else .error .misuse
  | _, _ => .ok given

/-- The options without a text that are written in one word: one of a single letter, and others behind
it. -/
def bundle (forms : List OptionForm) (form : OptionForm) : List Char → Except Stop (List OptionForm)
  | [] => .ok [form]
  | c :: rest =>
    match named? forms ['-', c] with
    | some next => do
      let others ← bundle forms next rest
      return form :: others
    | none => .error .misuse

/-- The options of a word that begins with an option that takes no text. Nothing may be attached to it
but further letters, and those only to an option of one letter. -/
def bareOptions (forms : List OptionForm) (form : OptionForm) (oneLetter : Bool) :
    Option (List Char) → Except Stop (List OptionForm)
  | none => .ok [form]
  | some text => if oneLetter && !text.isEmpty then bundle forms form text else .error .misuse

/-- The options that a list of words gives, one after another. -/
def Options.ofWords (dashes : Dashes) (forms : List OptionForm) : List Word → Except Stop Options
  | [] => .ok {}
  | .plain _ :: rest | .dashes :: rest | .unknownOption :: rest => do
    let options ← ofWords dashes forms rest
    return { options with hasRest := true }
  | .option form oneLetter attached :: rest =>
    if form.isBare then do
      let bare ← bareOptions forms form oneLetter attached
      let given ← bare.mapM OptionForm.give
      let options ← ofWords dashes forms rest
      return { options with given := given ++ options.given }
    else
      match attached, rest with
      | some text, rest => do
        let given ← form.giveText dashes (String.ofList text)
        let options ← ofWords dashes forms rest
        return { options with given := given :: options.given }
      | none, .plain text :: rest => do
        let given ← form.giveText dashes text
        let options ← ofWords dashes forms rest
        return { options with given := given :: options.given }
      | none, _ => .error .misuse

namespace Options

/-- What is given last for an option: its text, or no text. -/
def last? (options : Options) (name : String) : Option (Option String) :=
  (options.given.reverse.find? fun given => given.name = name).map (·.text)

def text? (options : Options) (name : String) : Option String := (options.last? name).join

/-- The number of times that an option is given. -/
def count (options : Options) (name : String) : Nat :=
  (options.given.filter fun given => given.name = name).length

def has (options : Options) (name : String) : Bool := 0 < options.count name

end Options

end SchemaDocs.Command
