import SchemaDocs.Yaml.Fault

/-!
# Reading positions in YAML texts

What is left of a text, with the place where it begins. Line ends are line feeds, next lines, and
line and paragraph separators; a byte order mark takes no column.
-/

namespace SchemaDocs.Yaml

def isBreak (c : Char) : Bool := c == '\n' || c == '\x85' || c == '\u2028' || c == '\u2029'

/-- The text or the line is at its end. -/
def endsLine : Option Char → Bool
  | none => true
  | some c => isBreak c

/-- The text or the line is at its end, or a space follows. -/
def endsWord : Option Char → Bool
  | none => true
  | some c => c == ' ' || isBreak c

/-- The text or the line is at its end, or a space or a tabulator follows. -/
def endsToken : Option Char → Bool
  | none => true
  | some c => c == ' ' || c == '\t' || isBreak c

/-- The characters of words in directives, handles and anchors. -/
def isWordChar (c : Char) : Bool :=
  ('0' ≤ c && c ≤ '9') || ('A' ≤ c && c ≤ 'Z') || ('a' ≤ c && c ≤ 'z') || c == '-' || c == '_'

/-- What is left of a text, and where it begins. -/
structure Cursor where
  rest : List Char
  index : Nat := 0
  line : Nat := 0
  column : Nat := 0
  /-- A surrogate has been asked for. -/
  surrogate : Bool := false

namespace Cursor

/-- The position after one character. -/
def next (c : Cursor) : Cursor :=
  match c.rest with
  | [] => c
  | char :: rest =>
    let c := { c with rest := rest, index := c.index + 1 }
    if isBreak char then { c with line := c.line + 1, column := 0 }
    else if char = '\ufeff' then c
    else { c with column := c.column + 1 }

/-- The position after a number of characters. -/
def skip : Nat → Cursor → Cursor
  | 0, c => c
  | n + 1, c => skip n c.next

def peekAt (c : Cursor) (distance : Nat) : Option Char := c.rest[distance]?

/-- Three equal marks stand here, followed by the end of a token. -/
def isAtMarks (c : Cursor) (mark : Char) : Bool :=
  c.rest.take 3 == [mark, mark, mark] && endsToken (c.peekAt 3)

/-- The start or the end of a document is marked here. -/
def isAtDocumentMark (c : Cursor) : Bool := c.isAtMarks '-' || c.isAtMarks '.'

end Cursor

/-- Reading from a position on. -/
abbrev Scan := StateT Cursor (Except Fault)

namespace Scan

def peek : Scan (Option Char) := return (← get).peekAt 0

/-- Passes over a number of characters. -/
def skip (n : Nat) : Scan Unit := modify (Cursor.skip n)

/-- Reads the characters up to the first one that does not satisfy `p`. -/
def takeWhile (p : Char → Bool) : Scan (List Char) := do
  let run := (← get).rest.takeWhile p
  skip run.length
  return run

def skipSpaces : Scan Unit := discard (takeWhile (· == ' '))

/-- Passes over the rest of the line. -/
def skipLine : Scan Unit := discard (takeWhile fun c => !isBreak c)

def malformed {α : Type} : Scan α := throw .malformed

/-- Refuses the text unless the condition holds. -/
def require (condition : Bool) : Scan Unit := if condition then return () else malformed

/-- Reads the end of a line, if the line ends here; a next line counts as a line feed. -/
def lineBreak : Scan (List Char) := do
  match ← peek with
  | some c =>
    if isBreak c then
      skip 1
      return [if c = '\x85' then '\n' else c]
    else return []
  | none => return []

/-- Reads the rest of a line that may hold a comment but nothing else. -/
def endOfLine : Scan Unit := do
  skipSpaces
  if (← peek) == some '#' then skipLine
  require (endsLine (← peek))
  discard lineBreak

/-- A bound on the number of characters that are left. -/
def bound : Scan Nat := return (← get).rest.length + 1

end Scan

end SchemaDocs.Yaml
