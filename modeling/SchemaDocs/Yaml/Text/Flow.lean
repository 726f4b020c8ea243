import SchemaDocs.Numeral
import SchemaDocs.Yaml.Cursor

/-!
# Quoted and plain scalars

Texts between quotation marks, and plain texts, which may go on over several lines: a single line
end counts as a space, and of several ones the first is dropped.
-/

namespace SchemaDocs.Yaml.Scan

/-! ## Quoted scalars -/

/-- The character that a letter after a backslash stands for. -/
def escapes : List (Char × Char) :=
  [('0', '\x00'), ('a', '\x07'), ('b', '\x08'), ('t', '\t'), ('\t', '\t'), ('n', '\n'),
    ('v', '\x0b'), ('f', '\x0c'), ('r', '\r'), ('e', '\x1b'), (' ', ' '), ('"', '"'), ('\\', '\\'),
    ('/', '/'), ('N', '\x85'), ('_', '\xa0'), ('L', '\u2028'), ('P', '\u2029')]

/-- The number of hexadecimal digits behind a letter after a backslash. -/
def escapeWidths : List (Char × Nat) := [('x', 2), ('u', 4), ('U', 8)]

/-- The greatest number that a character can be asked for by; most of them have no character. -/
def greatestNumber : Nat := 0x7fffffff

/-- Reads the number of a character in hexadecimal digits. For a surrogate, which is no character,
another one stands. -/
def numberedChar (width : Nat) : Scan Char := do
  let digits := (← get).rest.take width
  require (digits.length == width && digits.all (Numeral.isDigitOf 16))
  let number := Numeral.valueOf 16 digits
  if greatestNumber < number then throw .tooLarge
  if 0x10ffff < number then throw (.badScalar "chr() arg not in range(0x110000)")
  skip width
  if number.isValidChar then return Char.ofNat number
  modify fun cursor => { cursor with surrogate := true }
  return '\ufffd'

/-- Reads empty lines inside a quoted scalar; gives the line ends. A mark of a document may not stand
at the start of a line. -/
def quotedLines : Nat → Scan (List Char)
  | 0 => return []
  | fuel + 1 => do
    require (!(← get).isAtDocumentMark)
    discard (takeWhile fun c => c == ' ' || c == '\t')
    match ← peek with
    | some c =>
      if isBreak c then
        let lineEnd ← lineBreak
        let lineEnds ← quotedLines fuel
        return lineEnd ++ lineEnds
      else return []
    | none => return []

/-- What the end of a line and the empty lines after it stand for. -/
def foldedBreak (lineEnd lineEnds : List Char) : List Char :=
  if lineEnd != ['\n'] then lineEnd ++ lineEnds
  else if lineEnds.isEmpty then [' ']
  else lineEnds

/-- Reads the blanks and line ends between two words of a quoted scalar. -/
def quotedSpaces : Scan (List Char) := do
  let blanks ← takeWhile fun c => c == ' ' || c == '\t'
  match ← peek with
  | none => malformed
  | some c =>
    if isBreak c then
      let lineEnd ← lineBreak
      let lineEnds ← quotedLines (← bound)
      return foldedBreak lineEnd lineEnds
    else return blanks

/-- Reads what a backslash stands for. -/
def escape : Scan (List Char) := do
  skip 1
  match ← peek with
  | none => malformed
  | some c =>
    match escapes.find? fun entry => entry.1 = c with
    | some entry => skip 1; return [entry.2]
    | none => match escapeWidths.find? fun entry => entry.1 = c with
      | some entry =>
        skip 1
        let char ← numberedChar entry.2
        return [char]
      | none =>
        if isBreak c then
          discard lineBreak
          quotedLines (← bound)
        else malformed

/-- Reads a quoted scalar up to its closing mark. -/
def quotedRest (double : Bool) : Nat → Scan (List Char)
  | 0 => malformed
  | fuel + 1 => do
    let run ← takeWhile fun c =>
      !(c == '\'' || c == '"' || c == '\\' || c == ' ' || c == '\t' || isBreak c)
    let c ← peek
    let part ←
      if c == some '\'' && !double then
        if (← get).peekAt 1 == some '\'' then
          skip 2
          pure (some ['\''])
        else pure none
      else if c == some '"' && double then pure none
      else if c == some '\\' && double then some <$> escape
      else match c with
        | some c =>
          if c == '\'' || c == '"' || c == '\\' then
            skip 1
            pure (some [c])
          else some <$> quotedSpaces
        | none => malformed
    match part with
    | none =>
      skip 1
      return run
    | some part =>
      let rest ← quotedRest double fuel
      return run ++ part ++ rest

def quotedScalar (double : Bool) : Scan String := do
  skip 1
  let text ← quotedRest double (← bound)
  return String.ofList text

/-! ## Plain scalars -/

/-- The number of characters up to the end of a word of a plain scalar. -/
def plainRun (flow : Bool) : List Char → Nat
  | [] => 0
  | c :: rest =>
    if endsToken (some c) then 0
    else if c == ':' && (endsToken rest.head? ||
        (flow && match rest.head? with
          | some d => d == ',' || d == '[' || d == ']' || d == '\x7b' || d == '\x7d'
          | none => false)) then 0
    else if flow && (c == ',' || c == '?' || c == '[' || c == ']' || c == '\x7b' || c == '\x7d') then 0
    else plainRun flow rest + 1

/-- Reads empty lines inside a plain scalar and the spaces before its next word; gives the line
ends, and none where a mark of a document stands at the start of a line. -/
def plainLines : Nat → Scan (Option (List Char))
  | 0 => return some []
  | fuel + 1 => do
    match ← peek with
    | some ' ' => skip 1; plainLines fuel
    | some c =>
      if isBreak c then
        let lineEnd ← lineBreak
        if (← get).isAtDocumentMark then return none
        match ← plainLines fuel with
        | some lineEnds => return some (lineEnd ++ lineEnds)
        | none => return none
      else return some []
    | none => return some []

/-- Reads what stands between two words of a plain scalar, and whether a line ends there. Nothing is
given where the scalar ends. -/
def plainSpaces : Scan (List Char × Bool) := do
  let blanks ← takeWhile (· == ' ')
  match ← peek with
  | none => return (blanks, false)
  | some c =>
    if isBreak c then
      let lineEnd ← lineBreak
      if (← get).isAtDocumentMark then return ([], true)
      match ← plainLines (← bound) with
      | some lineEnds => return (foldedBreak lineEnd lineEnds, true)
      | none => return ([], true)
    else return (blanks, false)

/-- Reads the words of a plain scalar after the text `before`; gives the text, and whether a line
ends after the last word. -/
def plainWords (flow : Bool) (indent : Nat) : Nat → List Char → Bool → Scan (List Char × Bool)
  | 0, _, ended => return ([], ended)
  | fuel + 1, before, ended => do
    let c ← get
    let length := if c.peekAt 0 == some '#' then 0 else plainRun flow c.rest
    if length = 0 then return ([], ended)
    let word := c.rest.take length
    skip length
    let (spaces, lineEnded) ← plainSpaces
    let c ← get
    if spaces.isEmpty || c.peekAt 0 == some '#' || (!flow && c.column < indent) then
      return (before ++ word, lineEnded)
    let (text, ended) ← plainWords flow indent fuel spaces lineEnded
    return (before ++ word ++ text, ended)

/-- Reads a plain scalar below a node with the given indentation; gives the text, and whether a line
ends after it. -/
def plainScalar (flow : Bool) (outer : Int) : Scan (String × Bool) := do
  let (text, ended) ← plainWords flow (outer + 1).toNat (← bound) [] false
  return (String.ofList text, ended)

end SchemaDocs.Yaml.Scan
