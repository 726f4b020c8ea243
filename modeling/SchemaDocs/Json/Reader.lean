import SchemaDocs.Numeral
import SchemaDocs.Text.Basic
import SchemaDocs.Value.Basic

/-!
# JSON texts

The reader of JSON texts. Beyond the grammar it takes the words `NaN`, `Infinity` and `-Infinity`
for numbers. A number without fraction and exponent is an integer; a key that appears again in an
object replaces the value at its first place.

Texts are made of characters, so nothing is told about a text that asks for half of a pair of
surrogates without the other half, unless it has another fault.
-/

namespace SchemaDocs.Json

inductive Fault where
  | malformed
  /-- An integer has more digits than are read. -/
  | longNumeral (digits : Nat)
  /-- A string holds a surrogate that is not one of a pair. -/
  | loneSurrogate
deriving DecidableEq

/-- The white space between tokens. -/
def isSpace (c : Char) : Bool := c == ' ' || c == '\t' || c == '\n' || c == '\r'

/-- The text from the first character that is not white space. -/
def skipSpace (cs : List Char) : List Char := cs.dropWhile isSpace

def isDigit (c : Char) : Bool := '0' ≤ c && c ≤ '9'

/-! ## Strings -/

/-- The number that four hexadecimal digits stand for. -/
def hexFour? (a b c d : Char) : Option Nat :=
  let cs := [a, b, c, d]
  if cs.all (Numeral.isDigitOf 16) then some (Numeral.valueOf 16 cs) else none

/-- The character that a letter after a backslash stands for. -/
def escaped? (c : Char) : Option Char :=
  match c with
  | '"' => some '"'
  | '\\' => some '\\'
  | '/' => some '/'
  | 'b' => some '\x08'
  | 'f' => some '\x0c'
  | 'n' => some '\n'
  | 'r' => some '\r'
  | 't' => some '\t'
  | _ => none

/-- The code units of a string up to its closing quotation mark, and the text after it. -/
def stringUnits? : List Char → Option (List Nat × List Char)
  | [] => none
  | '"' :: rest => some ([], rest)
  | '\\' :: 'u' :: a :: b :: c :: d :: rest => do
    let unit ← hexFour? a b c d
    let (units, rest) ← stringUnits? rest
    return (unit :: units, rest)
  | '\\' :: c :: rest => do
    let c ← escaped? c
    let (units, rest) ← stringUnits? rest
    return (c.toNat :: units, rest)
  | c :: rest =>
    if c.toNat < 0x20 || c == '\\' then none
    else do
      let (units, rest) ← stringUnits? rest
      return (c.toNat :: units, rest)

/-- The code unit is one half of a pair that stands for one character. -/
def isSurrogate (unit : Nat) : Bool := 0xd800 ≤ unit && unit < 0xe000

def charOfUnit? (unit : Nat) : Option Char :=
  if isSurrogate unit then none else some (Char.ofNat unit)

/-- The characters of code units: a high and a low surrogate in a row are one character, and by
itself a surrogate is none. -/
def charsOfUnits : List Nat → List (Option Char)
  | [] => []
  | [unit] => [charOfUnit? unit]
  | high :: low :: rest =>
    if 0xd800 ≤ high && high < 0xdc00 && 0xdc00 ≤ low && low < 0xe000 then
      some (Char.ofNat (0x10000 + (high - 0xd800) * 0x400 + (low - 0xdc00))) :: charsOfUnits rest
    else charOfUnit? high :: charsOfUnits (low :: rest)

/-- The string whose opening quotation mark has been read. If `strict`, it has to be made of
characters; else another character stands for a surrogate. -/
def string (strict : Bool) (cs : List Char) : Except Fault (String × List Char) :=
  match stringUnits? cs with
  | none => .error .malformed
  | some (units, rest) =>
    let chars := charsOfUnits units
    if strict && chars.any Option.isNone then .error .loneSurrogate
    else .ok (String.ofList (chars.map fun c => c.getD '\ufffd'), rest)

/-! ## Numbers -/

/-- The fraction digits at the front of a text. -/
def fraction? : List Char → Option (List Char × List Char)
  | '.' :: rest =>
    let digits := rest.takeWhile isDigit
    if digits.isEmpty then none else some (digits, rest.dropWhile isDigit)
  | _ => none

/-- The exponent at the front of a text. -/
def exponent? : List Char → Option (Int × List Char)
  | c :: rest =>
    if c == 'e' || c == 'E' then
      let (negative, rest) := match rest with
        | '-' :: rest => (true, rest)
        | '+' :: rest => (false, rest)
        | rest => (false, rest)
      let digits := rest.takeWhile isDigit
      if digits.isEmpty then none
      else
        let size : Int := Numeral.valueOf 10 digits
        some (if negative then -size else size, rest.dropWhile isDigit)
    else none
  | [] => none

/-- The number at the front of a text that begins with its digits. -/
def number (negative : Bool) (cs : List Char) : Except Fault (Value × List Char) :=
  let whole := match cs with
    | '0' :: _ => ['0']
    | _ => cs.takeWhile isDigit
  if whole.isEmpty then .error .malformed
  else
    let rest := cs.drop whole.length
    let (fraction, afterFraction) := (fraction? rest).getD ([], rest)
    let (exponent, afterExponent) := (exponent? afterFraction).getD (0, afterFraction)
    if fraction.isEmpty && (exponent? afterFraction).isNone then
      if Numeral.mostDigits < whole.length then .error (.longNumeral whole.length)
      else
        let size : Int := Numeral.valueOf 10 whole
        .ok (.int (if negative then -size else size), rest)
    else
      let digits := Numeral.valueOf 10 (whole ++ fraction)
      .ok (.float (.ofDecimal negative digits (exponent - fraction.length)), afterExponent)

/-! ## Values -/

/-- The value that a word at the front of a text stands for. -/
def word? (cs : List Char) : Option (Value × List Char) :=
  let words : List (String × Value) := [("null", .null), ("true", .bool true),
    ("false", .bool false), ("NaN", .float .nan), ("Infinity", .float (.infinite false)),
    ("-Infinity", .float (.infinite true))]
  words.findSome? fun (word, value) =>
    (Text.afterList? word.toList cs).map fun rest => (value, rest)

mutual

/-- The value at the front of a text. The fuel bounds the number of characters read. -/
def value (strict : Bool) : Nat → List Char → Except Fault (Value × List Char)
  | 0, _ => .error .malformed
  | fuel + 1, cs =>
    match cs with
    | '"' :: rest => (string strict rest).map fun (s, rest) => (.str s, rest)
    | '[' :: rest =>
      match skipSpace rest with
      | ']' :: rest => .ok (.list [], rest)
      | rest => (items strict fuel rest).map fun (items, rest) => (.list items, rest)
    | '\x7b' :: rest =>
      match skipSpace rest with
      | '\x7d' :: rest => .ok (.map [], rest)
      | rest => (members strict fuel rest).map fun (members, rest) =>
        (.map (Value.ofEntries members), rest)
    | cs =>
      match word? cs with
      | some answer => .ok answer
      | none => match cs with
        | '-' :: rest => number true rest
        | cs => number false cs

/-- The items of an array up to its closing bracket. -/
def items (strict : Bool) : Nat → List Char → Except Fault (List Value × List Char)
  | 0, _ => .error .malformed
  | fuel + 1, cs => do
    let (item, rest) ← value strict fuel cs
    match skipSpace rest with
    | ']' :: rest => return ([item], rest)
    | ',' :: rest =>
      let (items, rest) ← items strict fuel (skipSpace rest)
      return (item :: items, rest)
    | _ => .error .malformed

/-- The members of an object up to its closing brace. -/
def members (strict : Bool) : Nat → List Char → Except Fault (List (Value × Value) × List Char)
  | 0, _ => .error .malformed
  | fuel + 1, cs =>
    match cs with
    | '"' :: rest => do
      let (key, rest) ← string strict rest
      match skipSpace rest with
      | ':' :: rest =>
        let (member, rest) ← value strict fuel (skipSpace rest)
        match skipSpace rest with
        | '\x7d' :: rest => return ([(.str key, member)], rest)
        | ',' :: rest =>
          let (members, rest) ← members strict fuel (skipSpace rest)
          return ((.str key, member) :: members, rest)
        | _ => .error .malformed
      | _ => .error .malformed
    | _ => .error .malformed

end

/-- The value that a JSON text stands for, strictly or not. -/
def readAs (strict : Bool) (text : String) : Except Fault Value := do
  let cs := text.toList
  let (value, rest) ← value strict (cs.length + 1) (skipSpace cs)
  if (skipSpace rest).isEmpty then return value else throw .malformed

def read (text : String) : Except Fault Value := do
  discard (readAs false text)
  readAs true text

end SchemaDocs.Json
