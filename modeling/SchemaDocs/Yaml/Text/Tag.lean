import SchemaDocs.Numeral
import SchemaDocs.Text.Utf8
import SchemaDocs.Yaml.Cursor

/-!
# Names in YAML texts

Anchors, tags and directives.
-/

namespace SchemaDocs.Yaml.Scan

/-- Reads the name of an anchor or an alias, and the mark before it. -/
def anchorName : Scan String := do
  skip 1
  let name ← takeWhile isWordChar
  require (!name.isEmpty)
  let c ← peek
  require (endsToken c || match c with
    | some c => ['?', ':', ',', ']', '\x7d', '%', '@', '\x60'].contains c
    | none => false)
  return String.ofList name

/-! ## Tags -/

def isTagChar (c : Char) : Bool :=
  isWordChar c || [';', '/', '?', ':', '@', '&', '=', '+', '$', ',', '.', '!', '~', '*', '\'', '(',
    ')', '[', ']'].contains c

/-- Reads bytes in hexadecimal digits, each after a per cent sign. -/
def numberedBytes : Nat → Scan (List UInt8)
  | 0 => return []
  | fuel + 1 => do
    match (← get).rest with
    | '%' :: a :: b :: _ =>
      require ([a, b].all (Numeral.isDigitOf 16))
      skip 3
      let bytes ← numberedBytes fuel
      return UInt8.ofNat (Numeral.valueOf 16 [a, b]) :: bytes
    | '%' :: _ => malformed
    | _ => return []

def tagChars : Nat → Scan (List Char)
  | 0 => return []
  | fuel + 1 => do
    let run ← takeWhile isTagChar
    if (← peek) == some '%' then
      let bytes ← numberedBytes (← bound)
      match Text.Utf8.decode bytes with
      | .ok chars =>
        let rest ← tagChars fuel
        return run ++ chars ++ rest
      | .error _ => malformed
    else return run

/-- Reads a tag without its handle; it may not be empty. -/
def tagSuffix : Scan String := do
  let chars ← tagChars (← bound)
  require (!chars.isEmpty)
  return String.ofList chars

/-- Reads a handle: an exclamation mark, or a word between two of them. -/
def tagHandle : Scan String := do
  require ((← peek) == some '!')
  if (← get).peekAt 1 == some ' ' then
    skip 1
    return "!"
  skip 1
  let name ← takeWhile isWordChar
  require ((← peek) == some '!')
  skip 1
  return "!" ++ String.ofList name ++ "!"

/-- Reads a tag: its handle, if it has one, and the rest of it. -/
def tag : Scan (Option String × String) := do
  let c ← get
  let tag ←
    if c.peekAt 1 == some '<' then do
      skip 2
      let suffix ← tagSuffix
      require ((← peek) == some '>')
      skip 1
      pure (none, suffix)
    else if endsToken (c.peekAt 1) then do
      skip 1
      pure (none, "!")
    else do
      let word := (c.rest.drop 1).takeWhile fun c => !endsWord (some c)
      let handle ← if word.contains '!' then tagHandle else do
        skip 1
        pure "!"
      let suffix ← tagSuffix
      pure (some handle, suffix)
  require (endsWord (← peek))
  return tag

/-! ## Directives -/

/-- A line about the document as a whole. -/
inductive Directive where
  | version (major minor : Nat)
  | tag (handle start : String)
  | other
deriving DecidableEq

def versionNumber : Scan Nat := do
  let digits ← takeWhile fun c => '0' ≤ c && c ≤ '9'
  require (!digits.isEmpty)
  return Numeral.valueOf 10 digits

/-- Reads a directive with the rest of its line. -/
def directive : Scan Directive := do
  skip 1
  let name ← takeWhile isWordChar
  require (!name.isEmpty)
  require (endsWord (← peek))
  let directive ← match String.ofList name with
    | "YAML" => do
      skipSpaces
      let major ← versionNumber
      require ((← peek) == some '.')
      skip 1
      let minor ← versionNumber
      require (endsWord (← peek))
      pure (Directive.version major minor)
    | "TAG" => do
      skipSpaces
      let handle ← tagHandle
      require ((← peek) == some ' ')
      skipSpaces
      let start ← tagSuffix
      require (endsWord (← peek))
      pure (Directive.tag handle start)
    | _ => do
      skipLine
      pure Directive.other
  endOfLine
  return directive

end SchemaDocs.Yaml.Scan
