import SchemaDocs.Numeral
import SchemaDocs.Text.Basic
import SchemaDocs.Toml.Item

/-!
# Numbers and times of TOML texts

The longest number or time at the front of a text. What follows it is left for the reader of the
text to judge.
-/

namespace SchemaDocs.Toml

def isDigit (c : Char) : Bool := '0' ≤ c && c ≤ '9'

/-! ## Numbers -/

/-- Digits after a digit, with underscores between two of them, and the text after them. -/
def moreDigits (p : Char → Bool) : List Char → List Char × List Char
  | [] => ([], [])
  | '_' :: c :: rest =>
    if p c then
      let (digits, after) := moreDigits p rest
      (c :: digits, after)
    else ([], '_' :: c :: rest)
  | c :: rest =>
    if p c then
      let (digits, after) := moreDigits p rest
      (c :: digits, after)
    else ([], c :: rest)

/-- At least one digit, with underscores between two of them, and the text after them. -/
def digits? (p : Char → Bool) : List Char → Option (List Char × List Char)
  | [] => none
  | c :: rest =>
    if p c then
      let (digits, after) := moreDigits p rest
      some (c :: digits, after)
    else none

/-- The whole part of a number, which has no leading zero, and the text after it. -/
def wholePart? : List Char → Option (List Char × List Char)
  | '0' :: rest => some (['0'], rest)
  | cs => digits? isDigit cs

/-- The sign at the front of a text, and the text after it. -/
def sign : List Char → Bool × List Char
  | '-' :: rest => (true, rest)
  | '+' :: rest => (false, rest)
  | cs => (false, cs)

/-- The digits of a fraction, if there is one, and the text after them. -/
def fraction? : List Char → Option (List Char × List Char)
  | '.' :: rest => digits? isDigit rest
  | _ => none

/-- The exponent, if there is one, and the text after it. -/
def exponent? : List Char → Option (Int × List Char)
  | [] => none
  | e :: rest => do
    if e != 'e' && e != 'E' then none
    let (negative, rest) := sign rest
    let (digits, rest) ← digits? isDigit rest
    let size : Int := Numeral.valueOf 10 digits
    return (if negative then -size else size, rest)

/-- A decimal number, and the text after it. It is an integer if it has neither a fraction nor an
exponent. -/
def decimal? (cs : List Char) : Option (Item × List Char) := do
  let (negative, rest) := sign cs
  let (whole, afterWhole) ← wholePart? rest
  let fraction := fraction? afterWhole
  let (fractionDigits, afterFraction) := fraction.getD ([], afterWhole)
  let exponent := exponent? afterFraction
  let (power, rest) := exponent.getD (0, afterFraction)
  if fraction.isSome || exponent.isSome then
    return (.float (.ofDecimal negative (Numeral.valueOf 10 (whole ++ fractionDigits))
      (power - fractionDigits.length)), rest)
  else
    let size : Int := Numeral.valueOf 10 whole
    return (.integer (if negative then -size else size), rest)

/-- An integer in a base with a mark of its own, and the text after it. -/
def marked? (base : Nat) (cs : List Char) : Option (Item × List Char) :=
  (digits? (Numeral.isDigitOf base) cs).map fun (digits, rest) =>
    (.integer (Numeral.valueOf base digits), rest)

def number? (cs : List Char) : Option (Item × List Char) :=
  let inBase := match cs with
    | '0' :: 'x' :: rest => marked? 16 rest
    | '0' :: 'b' :: rest => marked? 2 rest
    | '0' :: 'o' :: rest => marked? 8 rest
    | _ => none
  inBase.or (decimal? cs)

/-- The word for a number that has no digits, and the text after it. -/
def wordNumber? (cs : List Char) : Option (Item × List Char) :=
  let (negative, rest) := sign cs
  match rest with
  | 'i' :: 'n' :: 'f' :: rest => some (.float (.infinite negative), rest)
  | 'n' :: 'a' :: 'n' :: rest => some (.float .nan, rest)
  | _ => none

/-! ## Times -/

/-- A number of `width` digits between two bounds, and the text after it. -/
def bounded? (width least most : Nat) (cs : List Char) : Option (Nat × List Char) :=
  let digits := cs.take width
  let number := Numeral.valueOf 10 digits
  if digits.length == width && digits.all isDigit && least ≤ number && number ≤ most then
    some (number, cs.drop width)
  else none

/-- A character that has to stand at the front of a text. -/
def mark? (mark : Char) : List Char → Option (List Char)
  | c :: rest => if c = mark then some rest else none
  | [] => none

/-- The microseconds of a fraction of a second, if there is one, and the text after it. -/
def microseconds (cs : List Char) : Nat × List Char :=
  match cs with
  | '.' :: rest =>
    let digits := rest.takeWhile isDigit
    if digits.isEmpty then (0, cs)
    else (Numeral.valueOf 10 (digits.take 6 ++ List.replicate (6 - digits.length) '0'),
      rest.dropWhile isDigit)
  | cs => (0, cs)

/-- The hour, the minute, the second and the microsecond of a time of day, and the text after it. -/
def clock? (cs : List Char) : Option ((Nat × Nat × Nat × Nat) × List Char) := do
  let (hour, rest) ← bounded? 2 0 23 cs
  let rest ← mark? ':' rest
  let (minute, rest) ← bounded? 2 0 59 rest
  let rest ← mark? ':' rest
  let (second, rest) ← bounded? 2 0 59 rest
  let (microsecond, rest) := microseconds rest
  return ((hour, minute, second, microsecond), rest)

/-- The offset of a zone in minutes, and the text after it. -/
def offset? (cs : List Char) : Option (Int × List Char) :=
  match cs with
  | [] => none
  | c :: rest =>
    if c == 'Z' || c == 'z' then some (0, rest)
    else if c == '+' || c == '-' then do
      let (hours, rest) ← bounded? 2 0 23 rest
      let rest ← mark? ':' rest
      let (minutes, rest) ← bounded? 2 0 59 rest
      let size : Int := hours * 60 + minutes
      return (if c = '-' then -size else size, rest)
    else none

/-- A day, and the text after it. The day need not exist in its month. -/
def date? (cs : List Char) : Option (Date × List Char) := do
  let (year, rest) ← bounded? 4 0 9999 cs
  let rest ← mark? '-' rest
  let (month, rest) ← bounded? 2 1 12 rest
  let rest ← mark? '-' rest
  let (day, rest) ← bounded? 2 1 31 rest
  return (⟨year, month, day⟩, rest)

/-- The time of day that may follow a day after a blank or the letter T, and the text after it. -/
def clockAfterDate? (cs : List Char) : Option ((Nat × Nat × Nat × Nat) × List Char) :=
  match cs with
  | c :: rest => if c == 'T' || c == 't' || c == ' ' then clock? rest else none
  | [] => none

/-- A day or a point in time, and the text after it. -/
def timestamp? (cs : List Char) : Option (Item × Date × List Char) := do
  let (date, rest) ← date? cs
  match clockAfterDate? rest with
  | none => return (.date date, date, rest)
  | some ((hour, minute, second, microsecond), rest) =>
    let offset := offset? rest
    let time : Timestamp := ⟨date, hour, minute, second, microsecond, offset.map (·.1)⟩
    return (.timestamp time, date, (offset.map (·.2)).getD rest)

/-- A number or a time, and the text after it. A day that does not exist is refused. -/
def numeral? (cs : List Char) : Option (Item × List Char) :=
  match timestamp? cs with
  | some (item, date, rest) => if date.isValid then some (item, rest) else none
  | none => match clock? cs with
    | some ((hour, minute, second, microsecond), rest) =>
      some (.clock hour minute second microsecond, rest)
    | none => (number? cs).or (wordNumber? cs)

end SchemaDocs.Toml
