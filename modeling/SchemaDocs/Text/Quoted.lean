import SchemaDocs.Numeral

/-!
# Quoted texts

A text between double quotation marks on one line, as string literals are written in documents. The
quotation mark, the backslash and the control characters below the space are escaped; every other
character stands for itself.
-/

namespace SchemaDocs.Text

/-- The escape of a character inside a quoted text, or the character itself. -/
def quotedChar (c : Char) : List Char :=
  if c = '"' then ['\\', '"']
  else if c = '\\' then ['\\', '\\']
  else if c = '\n' then ['\\', 'n']
  else if c = '\r' then ['\\', 'r']
  else if c = '\t' then ['\\', 't']
  else if c = '\x0c' then ['\\', 'f']
  else if c = '\x08' then ['\\', 'b']
  else if c.toNat < 0x20 then '\\' :: 'u' :: Numeral.hexFixed 4 c.toNat
  else [c]

def quotedList (cs : List Char) : List Char :=
  '"' :: cs.flatMap quotedChar ++ ['"']

def quoted (s : String) : String := String.ofList (quotedList s.toList)

end SchemaDocs.Text
