import SchemaDocs.Binary64.Basic
import SchemaDocs.Numeral

/-!
# Decimal numerals of binary numbers

The shortest decimal numeral that reads back as a number, and its layout on the page. A magnitude of
`u` units is `u * 5 ^ 1074` times `10 ^ -1074`, so its exact decimal digits are those of a natural
number, and shortening the numeral is dropping digits of it.
-/

namespace SchemaDocs.Binary64

/-- The number of decimal units, of `10 ^ -1074` each, in one unit. -/
def decimalsPerUnit : Nat := Nat.pow 5 1074

/-- The magnitude of a code in units of `10 ^ -1074`. -/
def decimalUnits (code : Nat) : Nat := units code * decimalsPerUnit

/-- The numeral `digits` with `dropped` places below it cut off reads back as the code. -/
def readsBack (code digits dropped : Nat) : Bool :=
  nearestCode (digits * Nat.pow 10 dropped) decimalsPerUnit == code

/-- The shortest digits that read back when at most `dropped` places are cut off, with the number
of places cut off; `reads` tells which do, given the places cut off. Of the two neighbours of the
exact value that have as many digits, the nearer one is taken, and the even one if both are as near.
With no place cut off the digits are exact. -/
def shortestFrom (reads : Nat → Nat → Bool) (exact : Nat) : Nat → Nat × Nat
  | 0 => (exact, 0)
  | dropped + 1 =>
    let power := Nat.pow 10 (dropped + 1)
    let below := exact / power
    match reads below (dropped + 1), reads (below + 1) (dropped + 1) with
    | true, true =>
      let rest := exact % power
      if 2 * rest < power || (2 * rest == power && below % 2 == 0) then (below, dropped + 1)
      else (below + 1, dropped + 1)
    | true, false => (below, dropped + 1)
    | false, true => (below + 1, dropped + 1)
    | false, false => shortestFrom reads exact dropped

/-- The shortest digits that read back as the code, with the number of places cut off. -/
def shortest (code : Nat) : Nat × Nat :=
  let exact := decimalUnits code
  shortestFrom (readsBack code) exact ((Numeral.decimal exact).length - 1)

/-- How numerals of binary numbers are laid out. -/
structure Layout where
  /-- The least exponent of the leading digit that is written without an exponent. -/
  leastPlain : Int
  /-- The least exponent of the leading digit above the range written without one. -/
  endPlain : Int
  /-- The least number of digits of a written exponent. -/
  exponentWidth : Nat
  /-- The text of not-a-number. -/
  nanText : String
  /-- The text of the positive infinity. -/
  infinityText : String

/-- The exponent part of a numeral: the letter, the sign and the digits. -/
def Layout.exponentPart (layout : Layout) (exponent : Int) : List Char :=
  let digits := Numeral.decimal exponent.natAbs
  let zeros := List.replicate (layout.exponentWidth - digits.length) '0'
  'e' :: (if exponent < 0 then '-' else '+') :: (zeros ++ digits)

/-- The numeral with the given digits, whose leading digit has the given exponent. Without an
exponent part there is always a digit on either side of the point. -/
def Layout.numeral (layout : Layout) (digits : List Char) (exponent : Int) : List Char :=
  if layout.leastPlain ≤ exponent && exponent < layout.endPlain then
    if exponent < 0 then
      '0' :: '.' :: (List.replicate (exponent.natAbs - 1) '0' ++ digits)
    else
      let whole := exponent.toNat + 1
      let padded := digits ++ List.replicate (whole - digits.length) '0'
      let fraction := digits.drop whole
      padded.take whole ++ '.' :: (if fraction.isEmpty then ['0'] else fraction)
  else
    let rest := digits.drop 1
    digits.take 1 ++ (if rest.isEmpty then [] else '.' :: rest) ++ layout.exponentPart exponent

/-- The numeral of a code. Zeros at the end of the digits are left out, which keeps the exponent of
the leading digit. -/
def Layout.ofCode (layout : Layout) (code : Nat) : List Char :=
  if code = 0 then layout.numeral ['0'] 0
  else
    let (digits, dropped) := shortest code
    let digits := Numeral.decimal digits
    let exponent : Int := (digits.length + dropped : Nat) - 1075
    layout.numeral (digits.reverse.dropWhile (· == '0')).reverse exponent

def Layout.text (layout : Layout) : Binary64 → List Char
  | .nan => layout.nanText.toList
  | .infinite false => layout.infinityText.toList
  | .infinite true => '-' :: layout.infinityText.toList
  | .finite false code => layout.ofCode code
  | .finite true code => '-' :: layout.ofCode code

end SchemaDocs.Binary64
