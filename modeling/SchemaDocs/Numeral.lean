/-!
# Numerals

Natural numbers written in decimal and in hexadecimal digits, and read back from them.
-/

namespace SchemaDocs.Numeral

/-- The most decimal digits of an integer that is read or written. -/
def mostDigits : Nat := 4300

/-- The digit of a number below 16, small letters above nine. -/
def digit (n : Nat) : Char :=
  if n < 10 then Char.ofNat (48 + n) else Char.ofNat (87 + n)

/-- The number that an ASCII digit or letter stands for, letters counting on from ten. -/
def digitValue? (c : Char) : Option Nat :=
  if '0' ≤ c && c ≤ '9' then some (c.toNat - 48)
  else if 'a' ≤ c && c ≤ 'z' then some (c.toNat - 87)
  else if 'A' ≤ c && c ≤ 'Z' then some (c.toNat - 55)
  else none

def isDigitOf (base : Nat) (c : Char) : Bool :=
  match digitValue? c with
  | some value => value < base
  | none => false

/-- The number that a list of digits stands for; characters that are no digits are passed over. -/
def valueOf (base : Nat) (cs : List Char) : Nat :=
  cs.foldl (fun sum c => match digitValue? c with
    | some value => sum * base + value
    | none => sum) 0

/-- The decimal digits of a number, without leading zeros. -/
def decimal (n : Nat) : List Char :=
  if n < 10 then [digit n] else decimal (n / 10) ++ [digit (n % 10)]
decreasing_by omega

/-- The last `width` decimal digits of a number, with leading zeros. -/
def decimalFixed : Nat → Nat → List Char
  | 0, _ => []
  | width + 1, n => decimalFixed width (n / 10) ++ [digit (n % 10)]

/-- The last `width` hexadecimal digits of a number, with leading zeros. -/
def hexFixed : Nat → Nat → List Char
  | 0, _ => []
  | width + 1, n => hexFixed width (n / 16) ++ [digit (n % 16)]

/-- An integer in decimal, with a minus sign if it is negative. -/
def integer : Int → List Char
  | .ofNat n => decimal n
  | .negSucc n => '-' :: decimal (n + 1)

end SchemaDocs.Numeral
