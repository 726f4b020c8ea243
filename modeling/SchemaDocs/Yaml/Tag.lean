import SchemaDocs.Numeral

/-!
# Tags of YAML nodes

The kinds of values that nodes stand for, and the kind that a plain scalar has by its look.
-/

namespace SchemaDocs.Yaml

/-- The kind of value that a node stands for. -/
inductive Tag where
  | null
  | bool
  | int
  | float
  | binary
  | timestamp
  | omap
  | pairs
  | set
  | str
  | seq
  | map
  | merge
  | value
  | other (name : String)
deriving DecidableEq

namespace Tag

/-- How the names of the tags of the standard begin. -/
def standardStart : String := "tag:yaml.org,2002:"

/-- The tags of the standard by the rest of their names. -/
def standard : List (String × Tag) :=
  [("null", .null), ("bool", .bool), ("int", .int), ("float", .float), ("binary", .binary),
    ("timestamp", .timestamp), ("omap", .omap), ("pairs", .pairs), ("set", .set), ("str", .str),
    ("seq", .seq), ("map", .map), ("merge", .merge), ("value", .value)]

def ofName (name : String) : Tag :=
  match standard.find? fun entry => standardStart ++ entry.1 = name with
  | some entry => entry.2
  | none => .other name

/-! ## The look of plain scalars -/

def isDigit (c : Char) : Bool := '0' ≤ c && c ≤ '9'

/-- The decimal digits and the underscore, which parts them. -/
def isDigitOrMark (c : Char) : Bool := isDigit c || c == '_'

def dropSign : List Char → List Char
  | '-' :: rest => rest
  | '+' :: rest => rest
  | cs => cs

/-- The list is not empty, and all its elements satisfy `p`. -/
def allOf (p : Char → Bool) (cs : List Char) : Bool := !cs.isEmpty && cs.all p

/-- The text is a part of a number in base 60: a number below 60 of one or two digits. -/
def isSixtieth : List Char → Bool
  | [a] => isDigit a
  | [a, b] => '0' ≤ a && a ≤ '5' && isDigit b
  | _ => false

/-- The text consists of parts of a number in base 60, each after a colon. -/
def areSixtieths : List Char → Bool
  | ':' :: rest =>
    let part := rest.takeWhile (· != ':')
    let others := rest.dropWhile (· != ':')
    isSixtieth part && (others.isEmpty || match rest with
      | _ :: ':' :: more => areSixtieths (':' :: more)
      | _ :: _ :: ':' :: more => areSixtieths (':' :: more)
      | _ => false)
  | _ => false

/-- The text looks like an integer. -/
def looksInt (cs : List Char) : Bool :=
  match dropSign cs with
  | [] => false
  | '0' :: rest =>
    rest.isEmpty || allOf (fun c => ('0' ≤ c && c ≤ '7') || c == '_') rest ||
    match rest with
    | 'b' :: rest => allOf (fun c => c == '0' || c == '1' || c == '_') rest
    | 'x' :: rest => allOf (fun c => Numeral.isDigitOf 16 c || c == '_') rest
    | _ => false
  | first :: rest =>
    isDigit first && (rest.all isDigitOrMark || areSixtieths (rest.dropWhile isDigitOrMark))

/-- The text is nothing or the exponent of a number, with a sign. -/
def isExponent : List Char → Bool
  | [] => true
  | e :: sign :: digits =>
    (e == 'e' || e == 'E') && (sign == '-' || sign == '+') && allOf isDigit digits
  | _ => false

/-- The text looks like a floating point number. -/
def looksFloat (cs : List Char) : Bool :=
  let unsigned := dropSign cs
  let words (names : List String) (cs : List Char) : Bool := names.contains (String.ofList cs)
  match unsigned with
  | [] => false
  | '.' :: rest =>
    words ["inf", "Inf", "INF"] rest ||
    (unsigned.length == cs.length &&
      (words ["nan", "NaN", "NAN"] rest ||
      match rest with
      | first :: rest => isDigit first && isExponent (rest.dropWhile isDigitOrMark)
      | [] => false))
  | first :: rest =>
    isDigit first &&
    match rest.dropWhile isDigitOrMark with
    | '.' :: rest => isExponent (rest.dropWhile isDigitOrMark)
    | rest =>
      areSixtieths (rest.takeWhile (· != '.')) &&
      match rest.dropWhile (· != '.') with
      | '.' :: rest => rest.all isDigitOrMark
      | _ => false

/-- Up to two digits at the front of a text, with the rest; at least one is needed. -/
def oneOrTwoDigits? : List Char → Option (List Char × List Char)
  | a :: b :: rest =>
    if isDigit a then if isDigit b then some ([a, b], rest) else some ([a], b :: rest) else none
  | [a] => if isDigit a then some ([a], []) else none
  | [] => none

/-- Two digits at the front of a text, with the rest. -/
def twoDigits? : List Char → Option (List Char × List Char)
  | a :: b :: rest => if isDigit a && isDigit b then some ([a, b], rest) else none
  | _ => none

/-- A character at the front of a text, with the rest. -/
def mark? (mark : Char) : List Char → Option (List Char)
  | c :: rest => if c = mark then some rest else none
  | [] => none

/-- The parts of a time: the day, the time of day with the digits of its fraction, and the offset of
its zone, which is a sign with hours and minutes or nothing for universal time. -/
structure TimeParts where
  year : List Char
  month : List Char
  day : List Char
  clock : Option (List Char × List Char × List Char × List Char) := none
  zone : Option (Option (Char × List Char × List Char)) := none

/-- The offset of a zone that ends a time. -/
def zone? (cs : List Char) : Option (Option (Option (Char × List Char × List Char))) :=
  match cs with
  | [] => some none
  | cs =>
    match cs.dropWhile fun c => c == ' ' || c == '\t' with
    | ['Z'] => some (some none)
    | sign :: rest => do
      if sign != '+' && sign != '-' then none
      let (hours, rest) ← oneOrTwoDigits? rest
      match rest with
      | [] => return some (some (sign, hours, []))
      | rest =>
        let rest ← mark? ':' rest
        let (minutes, rest) ← twoDigits? rest
        if rest.isEmpty then return some (some (sign, hours, minutes)) else none
    | [] => none

/-- The parts of a text that looks like a time. A day alone has two digits for the month and for
the day, with a time of day one digit is enough. -/
def timeParts? (cs : List Char) : Option TimeParts := do
  let (century, rest) ← twoDigits? cs
  let (decade, rest) ← twoDigits? rest
  let rest ← mark? '-' rest
  let (month, rest) ← oneOrTwoDigits? rest
  let rest ← mark? '-' rest
  let (day, rest) ← oneOrTwoDigits? rest
  let parts : TimeParts := { year := century ++ decade, month := month, day := day }
  match rest with
  | [] => return parts
  | c :: after =>
    let rest ←
      if c == 'T' || c == 't' then some after
      else if c == ' ' || c == '\t' then some (after.dropWhile fun c => c == ' ' || c == '\t')
      else none
    let (hour, rest) ← oneOrTwoDigits? rest
    let rest ← mark? ':' rest
    let (minute, rest) ← twoDigits? rest
    let rest ← mark? ':' rest
    let (second, rest) ← twoDigits? rest
    let (fraction, rest) := match rest with
      | '.' :: rest => (rest.takeWhile isDigit, rest.dropWhile isDigit)
      | rest => ([], rest)
    let zone ← zone? rest
    return { parts with clock := some (hour, minute, second, fraction), zone := zone }

def looksTimestamp (cs : List Char) : Bool :=
  match timeParts? cs with
  | some parts => parts.clock.isSome || (parts.month.length == 2 && parts.day.length == 2)
  | none => false

def truthWords : List (String × Bool) :=
  [("yes", true), ("no", false), ("true", true), ("false", false), ("on", true), ("off", false)]

/-- A word in small letters, in capitals, or with a capital at its start. -/
def spellings (word : String) : List String :=
  [word, word.capitalize, word.toUpper]

/-- The text is a word for a truth value in one of its spellings. -/
def looksBool (s : String) : Bool := (truthWords.flatMap fun entry => spellings entry.1).contains s

/-- The marks of nodes, which no value is written with. -/
def nodeMarks : List String := ["!", "&", "*"]

/-- The kind of value that a text stands for. -/
def ofLook (s : String) : Tag :=
  let cs := s.toList
  if looksBool s then .bool
  else if looksFloat cs then .float
  else if looksInt cs then .int
  else if s = "<<" then .merge
  else if s = "" || s = "~" || (spellings "null").contains s then .null
  else if looksTimestamp cs then .timestamp
  else if s = "=" then .value
  else if nodeMarks.contains s then .other (standardStart ++ "yaml")
  else .str

def dropFinalLineFeed (cs : List Char) : List Char :=
  if cs.getLast? = some '\n' then cs.dropLast else cs

/-- The kind of value that a scalar stands for by its look, for which a line feed at the end does not
matter. A line feed alone is a text. -/
def ofPlain (s : String) : Tag :=
  if s = "\n" then .str else ofLook (String.ofList (dropFinalLineFeed s.toList))

end Tag

end SchemaDocs.Yaml
