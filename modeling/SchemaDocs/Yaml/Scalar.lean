import SchemaDocs.Text.Blank
import SchemaDocs.Text.Digit
import SchemaDocs.Text.Lower
import SchemaDocs.Value.Literal
import SchemaDocs.Yaml.Fault
import SchemaDocs.Yaml.Tag

/-!
# Values of YAML scalars

The values of scalars of each kind. A kind can be asked for whatever the look of the scalar, so each
reader refuses what is none of its values.
-/

namespace SchemaDocs.Yaml.Scalar

/-! ## Numbers -/

/-- The text without underscores. -/
def dropMarks (cs : List Char) : List Char := cs.filter (· != '_')

/-- The text after its sign, and whether that was a minus. -/
def splitSign : List Char → Bool × List Char
  | '-' :: rest => (true, rest)
  | '+' :: rest => (false, rest)
  | cs => (false, cs)

/-- A character of a numeral in ASCII: a decimal digit of any script as the digit, a blank as a
space, and anything else beyond ASCII as a mark that no numeral has. -/
def asciiChar (c : Char) : Char :=
  if c.toNat < 0x7f then c
  else if Text.isBlank c then ' '
  else match Text.decimalValue? c with
    | some value => Numeral.digit value
    | none => '?'

/-- The white space of ASCII. -/
def isSpace (c : Char) : Bool := c == ' ' || ('\t' ≤ c && c ≤ '\r')

/-- A numeral in ASCII without the white space around it. -/
def plainNumeral (cs : List Char) : List Char :=
  Text.trimList isSpace (if cs.all (·.toNat < 0x80) then cs else cs.map asciiChar)

/-- The marks that may stand before the digits of a base. -/
def baseMarks (base : Nat) : List Char :=
  if base = 2 then ['b', 'B'] else if base = 8 then ['o', 'O']
  else if base = 16 then ['x', 'X'] else []

def dropBaseMark (base : Nat) (cs : List Char) : List Char :=
  match cs with
  | '0' :: c :: rest => if (baseMarks base).contains c then rest else cs
  | cs => cs

/-- The length to which a text is shown that is no integer. -/
def shownLength : Nat := 200

/-- The integer that a text stands for in a base; white space around it does not matter. Only the
number of decimal digits is limited. -/
def readInt (base : Nat) (cs : List Char) : Except Fault Int :=
  let (negative, digits) := splitSign (plainNumeral cs)
  let digits := dropBaseMark base digits
  let length := (digits.takeWhile (Numeral.isDigitOf base)).length
  if base = 10 && decide (Numeral.mostDigits < length) then .error (.longNumeral length)
  else if !digits.isEmpty && digits.all (Numeral.isDigitOf base) then
    let size : Int := Numeral.valueOf base digits
    .ok (if negative then -size else size)
  else
    let shown := (Text.display (String.ofList cs)).toList.take shownLength
    .error (.badScalar ("invalid literal for int() with base " ++
      String.ofList (Numeral.decimal base) ++ ": " ++ String.ofList shown))

/-- The integer that an unsigned text stands for: binary, hexadecimal, octal, in base 60, or
decimal, by how it begins. -/
def unsignedInt (cs : List Char) : Except Fault Int :=
  match cs with
  | [] => .error .emptyNumber
  | ['0'] => .ok 0
  | '0' :: 'b' :: rest => readInt 2 rest
  | '0' :: 'x' :: rest => readInt 16 rest
  | '0' :: _ => readInt 8 cs
  | cs =>
    if cs.contains ':' then do
      let parts ← (Text.splitList ':' cs).mapM (readInt 10)
      return parts.foldl (fun sum part => sum * 60 + part) 0
    else readInt 10 cs

def int (s : String) : Except Fault Value :=
  let cs := dropMarks s.toList
  if cs.isEmpty then .error .emptyNumber
  else do
    let (negative, unsigned) := splitSign cs
    let i ← unsignedInt unsigned
    return .int (if negative then -i else i)

/-- The digits of a decimal numeral: those before the point, those after it, and the exponent. -/
def decimalParts? (cs : List Char) : Option (List Char × List Char × Int) :=
  let whole := cs.takeWhile Tag.isDigit
  let rest := cs.dropWhile Tag.isDigit
  let (fraction, rest) := match rest with
    | '.' :: rest => (rest.takeWhile Tag.isDigit, rest.dropWhile Tag.isDigit)
    | rest => ([], rest)
  if whole.isEmpty && fraction.isEmpty then none
  else match rest with
    | [] => some (whole, fraction, 0)
    | e :: rest =>
      let (negative, digits) := splitSign rest
      if (e == 'e' || e == 'E') && Tag.allOf Tag.isDigit digits then
        let size : Int := Numeral.valueOf 10 digits
        some (whole, fraction, if negative then -size else size)
      else none

/-- The number that a text stands for; white space around it does not matter. -/
def readFloat (cs : List Char) : Except Fault Binary64 :=
  let (negative, unsigned) := splitSign (plainNumeral cs)
  let word := String.ofList (unsigned.map Text.lowerChar)
  if word = "inf" || word = "infinity" then .ok (.infinite negative)
  else if word = "nan" then .ok .nan
  else match decimalParts? unsigned with
    | some (whole, fraction, exponent) =>
      .ok (.ofDecimal negative (Numeral.valueOf 10 (whole ++ fraction))
        (exponent - fraction.length))
    | none => .error (.badScalar
        ("could not convert string to float: " ++ Text.display (String.ofList cs)))

/-- The sum of parts in base 60, the last one first, from the power `base` on. -/
def sumSixtieths : Int → Binary64 → List Binary64 → Except Fault Binary64
  | _, sum, [] => .ok sum
  | base, sum, part :: rest =>
    match Binary64.ofInt base with
    | .infinite _ => .error .tooLarge
    | power => sumSixtieths (base * 60) (sum.add (part.mul power)) rest

/-- The number that an unsigned text stands for. -/
def unsignedFloat (cs : List Char) : Except Fault Binary64 :=
  if cs = ".inf".toList then .ok (.infinite false)
  else if cs.contains ':' then do
    let parts ← (Text.splitList ':' cs).mapM readFloat
    sumSixtieths 1 (Binary64.zero false) parts.reverse
  else readFloat cs

/-- A scalar as the text of a floating point number: its sign, and the rest in small letters. -/
def floatText (s : String) : Bool × List Char :=
  splitSign (Text.lower (String.ofList (dropMarks s.toList))).toList

def isNanWord (s : String) : Bool := (floatText s).2 = ".nan".toList

def float (s : String) : Except Fault Value :=
  if (dropMarks s.toList).isEmpty then .error .emptyNumber
  else
    let (negative, unsigned) := floatText s
    if unsigned = ".nan".toList then .ok (.float .nan)
    else do
      let x ← unsignedFloat unsigned
      return .float (if negative then x.neg else x)

/-! ## Truth values -/

def bool (s : String) : Except Fault Value :=
  match Tag.truthWords.find? fun entry => entry.1 = Text.lower s with
  | some entry => .ok (.bool entry.2)
  | none => .error .notTruthValue

/-! ## Times -/

/-- Why a day does not exist. -/
def dateFault? (d : Date) : Option String :=
  if d.year = 0 then some "year 0 is out of range"
  else if d.month = 0 || 12 < d.month then some "month must be in 1..12"
  else if d.day = 0 || Date.daysIn d.year d.month < d.day then
    some "day is out of range for month"
  else none

/-- Why a time of day does not exist. -/
def clockFault? (t : Timestamp) : Option String :=
  if 23 < t.hour then some "hour must be in 0..23"
  else if 59 < t.minute then some "minute must be in 0..59"
  else if 59 < t.second then some "second must be in 0..59"
  else none

/-- Why an offset from universal time does not exist. -/
def offsetFault? (minutes : Int) : Option String :=
  if minutes.natAbs < 1440 then none
  else some ("offset must be a timedelta strictly between -timedelta(hours=24) and " ++
    "timedelta(hours=24), not " ++ Value.displayDuration minutes ++ ".")

/-- Passes if there is no reason against a value. -/
def unlessFault : Option String → Except Fault Unit
  | none => .ok ()
  | some message => .error (.badScalar message)

def offsetMinutes : Option (Char × List Char × List Char) → Int
  | none => 0
  | some (sign, hours, minutes) =>
    let size : Int := Numeral.valueOf 10 hours * 60 + Numeral.valueOf 10 minutes
    if sign = '-' then -size else size

/-- The millionths of a second that the digits of a fraction stand for; further digits do not
matter. -/
def microseconds (digits : List Char) : Nat :=
  Numeral.valueOf 10 (digits.take 6 ++ List.replicate (6 - digits.length) '0')

/-- The day or the time that a scalar stands for; a line feed at its end does not matter. -/
def timestamp (s : String) : Except Fault Value :=
  match Tag.timeParts? (Tag.dropFinalLineFeed s.toList) with
  | none => .error .notTime
  | some parts =>
    let date : Date := ⟨Numeral.valueOf 10 parts.year, Numeral.valueOf 10 parts.month,
      Numeral.valueOf 10 parts.day⟩
    match parts.clock with
    | none => do
      unlessFault (dateFault? date)
      return .date date
    | some (hour, minute, second, fraction) => do
      let offset := parts.zone.map offsetMinutes
      unlessFault (offset.bind offsetFault?)
      let time : Timestamp := ⟨date, Numeral.valueOf 10 hour, Numeral.valueOf 10 minute,
        Numeral.valueOf 10 second, microseconds fraction, offset⟩
      unlessFault (dateFault? date)
      unlessFault (clockFault? time)
      return .timestamp time

/-! ## Bytes -/

/-- The number below 64 that a character stands for. -/
def sextet? (c : Char) : Option Nat :=
  if 'A' ≤ c && c ≤ 'Z' then some (c.toNat - 65)
  else if 'a' ≤ c && c ≤ 'z' then some (c.toNat - 71)
  else if '0' ≤ c && c ≤ '9' then some (c.toNat + 4)
  else if c = '+' then some 62
  else if c = '/' then some 63
  else none

/-- The bytes that characters stand for after `count` characters of a group of four, of which
`bits` are left over, and after `pads` padding characters; other characters are passed over. -/
def decodeGroups : Nat → Nat → Nat → List Char → Option (List UInt8)
  | count, _, _, [] => if count = 0 then some [] else none
  | count, bits, pads, c :: rest =>
    if c = '=' then
      if 2 ≤ count && 4 ≤ count + pads + 1 then some []
      else decodeGroups count bits (if 2 ≤ count then pads + 1 else pads) rest
    else match sextet? c with
      | none => decodeGroups count bits pads rest
      | some sextet =>
        match count with
        | 0 => decodeGroups 1 sextet 0 rest
        | 1 => do
          let bytes ← decodeGroups 2 (sextet % 16) 0 rest
          return UInt8.ofNat (bits * 4 + sextet / 16) :: bytes
        | 2 => do
          let bytes ← decodeGroups 3 (sextet % 4) 0 rest
          return UInt8.ofNat (bits * 16 + sextet / 4) :: bytes
        | _ => do
          let bytes ← decodeGroups 0 0 0 rest
          return UInt8.ofNat (bits * 64 + sextet) :: bytes

/-- The bytes that a scalar stands for in base 64. -/
def binary (s : String) : Except Fault Value :=
  let cs := s.toList
  if cs.all fun c => c.toNat < 0x80 then
    match decodeGroups 0 0 0 cs with
    | some bytes => .ok (.bytes bytes)
    | none => .error .malformed
  else .error .malformed

def value (tag : Tag) (s : String) : Except Fault Value :=
  match tag with
  | .null => .ok .null
  | .bool => bool s
  | .int => int s
  | .float => float s
  | .binary => binary s
  | .timestamp => timestamp s
  | .str => .ok (.str s)
  | .omap | .pairs | .set | .seq | .map | .merge | .value | .other _ => .error .malformed

end SchemaDocs.Yaml.Scalar
