import SchemaDocs.Numeral
import SchemaDocs.Text.Basic

/-!
# Strings and keys of TOML texts

Strings stand between quotation marks, in which backslashes escape, or between apostrophes, in which
nothing does; three marks in a row enclose a string of several lines.
-/

namespace SchemaDocs.Toml

/-- The blanks inside a line. -/
def isBlank (c : Char) : Bool := c == ' ' || c == '\t'

/-- The blanks and line feeds. -/
def isSpace (c : Char) : Bool := isBlank c || c == '\n'

def skipBlanks (cs : List Char) : List Char := cs.dropWhile isBlank

/-- The character may stand in a comment or a string of one line: it is no control character but the
tabulator. -/
def isLineChar (c : Char) : Bool := c == '\t' || (0x20 ≤ c.toNat && c.toNat != 0x7f)

/-- The character may stand in a string; one of several lines may hold line feeds. -/
def isStringChar (multiline : Bool) (c : Char) : Bool := isLineChar c || (multiline && c == '\n')

/-! ## Escapes -/

/-- The character that a letter after a backslash stands for. -/
def escaped? (c : Char) : Option Char :=
  match c with
  | 'b' => some '\x08'
  | 't' => some '\t'
  | 'n' => some '\n'
  | 'f' => some '\x0c'
  | 'r' => some '\r'
  | '"' => some '"'
  | '\\' => some '\\'
  | _ => none

/-- The character with a number of `width` hexadecimal digits, and the text after it. -/
def numberedChar? (width : Nat) (cs : List Char) : Option (Char × List Char) :=
  let digits := cs.take width
  let number := Numeral.valueOf 16 digits
  if digits.length == width && digits.all (Numeral.isDigitOf 16) && decide number.isValidChar then
    some (Char.ofNat number, cs.drop width)
  else none

/-- What a backslash stands for, and the text after it. At the end of a line of a string of several
lines it stands for nothing, and the blanks and line feeds after it are passed over. -/
def escape? (multiline : Bool) (cs : List Char) : Option (List Char × List Char) :=
  match cs with
  | [] => none
  | 'u' :: rest => (numberedChar? 4 rest).map fun (c, rest) => ([c], rest)
  | 'U' :: rest => (numberedChar? 8 rest).map fun (c, rest) => ([c], rest)
  | c :: rest =>
    if multiline && isSpace c then
      match skipBlanks (c :: rest) with
      | [] => some ([], [])
      | '\n' :: rest => some ([], rest.dropWhile isSpace)
      | _ => none
    else (escaped? c).map fun c => ([c], rest)

/-! ## Strings -/

/-- The text of a string up to its closing quotation marks, and the text after them. The fuel bounds
the number of characters. -/
def basicRest? (multiline : Bool) : Nat → List Char → Option (List Char × List Char)
  | 0, _ => none
  | _ + 1, [] => none
  | fuel + 1, '"' :: rest =>
    if !multiline then some ([], rest)
    else match rest with
      | '"' :: '"' :: rest => some ([], rest)
      | rest => do
        let (text, rest) ← basicRest? multiline fuel rest
        return ('"' :: text, rest)
  | fuel + 1, '\\' :: rest => do
    let (part, rest) ← escape? multiline rest
    let (text, rest) ← basicRest? multiline fuel rest
    return (part ++ text, rest)
  | fuel + 1, c :: rest =>
    if isStringChar multiline c then do
      let (text, rest) ← basicRest? multiline fuel rest
      return (c :: text, rest)
    else none

/-- The text of a string up to its closing apostrophes, and the text after them. -/
def literalRest? (multiline : Bool) : List Char → Option (List Char × List Char)
  | [] => none
  | '\'' :: rest =>
    if !multiline then some ([], rest)
    else match rest with
      | '\'' :: '\'' :: rest => some ([], rest)
      | rest => do
        let (text, rest) ← literalRest? multiline rest
        return ('\'' :: text, rest)
  | c :: rest =>
    if isStringChar multiline c then do
      let (text, rest) ← literalRest? multiline rest
      return (c :: text, rest)
    else none

/-- The text with the marks at its end that stand right before the three closing ones, up to two. -/
def withLastMarks (mark : Char) (text rest : List Char) : List Char × List Char :=
  let marks := (rest.take 2).takeWhile (· == mark)
  (text ++ marks, rest.drop marks.length)

/-- The string whose three opening marks have been read, and the text after it. A line feed right
after the marks is passed over. -/
def multilineString? (mark : Char) (cs : List Char) : Option (String × List Char) := do
  let cs := match cs with
    | '\n' :: rest => rest
    | cs => cs
  let (text, rest) ←
    if mark = '"' then basicRest? true (cs.length + 1) cs else literalRest? true cs
  let (text, rest) := withLastMarks mark text rest
  return (String.ofList text, rest)

/-- The string of one line whose opening mark has been read, and the text after it. -/
def lineString? (mark : Char) (cs : List Char) : Option (String × List Char) := do
  let (text, rest) ←
    if mark = '"' then basicRest? false (cs.length + 1) cs else literalRest? false cs
  return (String.ofList text, rest)

/-! ## Keys -/

/-- The characters of keys without quotation marks. -/
def isKeyChar (c : Char) : Bool :=
  ('0' ≤ c && c ≤ '9') || ('A' ≤ c && c ≤ 'Z') || ('a' ≤ c && c ≤ 'z') || c == '-' || c == '_'

/-- One name of a key, and the text after it. -/
def keyPart? (cs : List Char) : Option (String × List Char) :=
  match cs with
  | [] => none
  | c :: rest =>
    if isKeyChar c then some (String.ofList (cs.takeWhile isKeyChar), cs.dropWhile isKeyChar)
    else if c = '\'' || c = '"' then lineString? c rest
    else none

/-- The names of a key, which dots part, and the text after it and the blanks behind it. The fuel
bounds the number of characters. -/
def key? : Nat → List Char → Option (List String × List Char)
  | 0, _ => none
  | fuel + 1, cs => do
    let (name, rest) ← keyPart? cs
    match skipBlanks rest with
    | '.' :: rest =>
      let (names, rest) ← key? fuel (skipBlanks rest)
      return (name :: names, rest)
    | rest => return ([name], rest)

/-! ## Comments -/

/-- The text from the end of the comment that begins here, if one does; none if the comment holds
control characters. -/
def skipComment? (cs : List Char) : Option (List Char) :=
  match cs with
  | '#' :: rest =>
    if (rest.takeWhile (· != '\n')).all isLineChar then some (rest.dropWhile (· != '\n')) else none
  | cs => some cs

/-- The text from the first character that belongs neither to a space nor to a comment. The fuel
bounds the number of comments. -/
def skipSpace? : Nat → List Char → Option (List Char)
  | 0, cs => some cs
  | fuel + 1, cs =>
    match cs.dropWhile isSpace with
    | '#' :: rest => do
      let rest ← skipComment? ('#' :: rest)
      skipSpace? fuel rest
    | rest => some rest

end SchemaDocs.Toml
