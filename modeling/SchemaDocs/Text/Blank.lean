import SchemaDocs.Text.Basic

/-!
# Blanks

The characters that are dropped from the ends of descriptions and names: those that Unicode counts
as white space, and the four information separators.
-/

namespace SchemaDocs.Text

/-- The character is white space in the sense of Unicode, or an information separator. -/
def isBlank (c : Char) : Bool :=
  let n := c.toNat
  (0x09 ≤ n && n ≤ 0x0d) || (0x1c ≤ n && n ≤ 0x20) || n == 0x85 || n == 0xa0 || n == 0x1680 ||
  (0x2000 ≤ n && n ≤ 0x200a) || n == 0x2028 || n == 0x2029 || n == 0x202f || n == 0x205f ||
  n == 0x3000

def trimBlanks (s : String) : String := trim isBlank s

end SchemaDocs.Text
