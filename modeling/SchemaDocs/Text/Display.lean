import SchemaDocs.Numeral
import SchemaDocs.Text.Printable

/-!
# Displayed texts

A text or a byte string between quotation marks as it is shown inside the display form of a value.
Single marks are used, unless the text holds single marks and no double ones; what is not
printable is shown by its number.
-/

namespace SchemaDocs.Text

def displayMark (cs : List Char) : Char :=
  if cs.contains '\'' && !cs.contains '"' then '"' else '\''

def shortEscape? (mark c : Char) : Option (List Char) :=
  if c = mark || c = '\\' then some ['\\', c]
  else if c = '\t' then some ['\\', 't']
  else if c = '\n' then some ['\\', 'n']
  else if c = '\r' then some ['\\', 'r']
  else none

/-- A character inside a displayed text: as itself, by a short escape, or by its number in two,
four or eight hexadecimal digits. -/
def displayChar (mark c : Char) : List Char :=
  match shortEscape? mark c with
  | some escape => escape
  | none =>
    if isPrintable c then [c]
    else if c.toNat < 0x100 then '\\' :: 'x' :: Numeral.hexFixed 2 c.toNat
    else if c.toNat < 0x10000 then '\\' :: 'u' :: Numeral.hexFixed 4 c.toNat
    else '\\' :: 'U' :: Numeral.hexFixed 8 c.toNat

def display (s : String) : String :=
  let cs := s.toList
  let mark := displayMark cs
  String.ofList (mark :: cs.flatMap (displayChar mark) ++ [mark])

/-- A byte inside a displayed byte string: bytes outside ASCII and control characters are shown by
their number. -/
def displayByte (mark : Char) (byte : UInt8) : List Char :=
  let c := Char.ofNat byte.toNat
  match shortEscape? mark c with
  | some escape => escape
  | none =>
    if 0x20 ≤ byte.toNat && byte.toNat < 0x7f then [c]
    else '\\' :: 'x' :: Numeral.hexFixed 2 byte.toNat

def displayBytes (bytes : List UInt8) : String :=
  let mark := displayMark (bytes.map fun byte => Char.ofNat byte.toNat)
  String.ofList ('b' :: mark :: bytes.flatMap (displayByte mark) ++ [mark])

end SchemaDocs.Text
