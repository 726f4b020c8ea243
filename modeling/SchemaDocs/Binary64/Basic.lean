/-!
# Binary floating point numbers

The 64-bit binary numbers as exact data. A finite number is a sign and a code, the exponent field
and the fraction field read as one natural number; codes are in the order of the magnitudes they
stand for. Magnitudes are counted in units of `2 ^ -1074`, the smallest positive number, so that
every finite magnitude is a natural number and rounding is arithmetic on natural numbers.
-/

namespace SchemaDocs

/-- The number of codes of finite magnitudes. -/
abbrev Binary64.codeLimit : Nat := 0x7ff0000000000000

/-- A 64-bit binary floating point number; all not-a-number patterns are one. -/
inductive Binary64 where
  | nan
  | infinite (negative : Bool)
  | finite (negative : Bool) (code : Fin Binary64.codeLimit)
deriving DecidableEq

namespace Binary64

/-- The number of codes that have the same exponent field. -/
abbrev fractionLimit : Nat := 0x10000000000000

/-- The number of units in the number one. -/
def unitsPerOne : Nat := Nat.pow 2 1074

/-- The magnitude of a code in units of `2 ^ -1074`. -/
def units (code : Nat) : Nat :=
  if code < fractionLimit then code
  else (fractionLimit + code % fractionLimit) * Nat.pow 2 (code / fractionLimit - 1)

/-- The natural number nearest to a fraction; the even one if two are as near. -/
def roundHalfEven (num den : Nat) : Nat :=
  let floor := num / den
  let rest := num % den
  if 2 * rest < den then floor
  else if den < 2 * rest then floor + 1
  else floor + floor % 2

/-- The code nearest to the magnitude of `num / den` units; at least `codeLimit` if it is too
large. A significand that rounds up to `2 ^ 53` carries over into the exponent field by itself. -/
def nearestCode (num den : Nat) : Nat :=
  let shift := (num / den).log2 - 52
  shift * fractionLimit + roundHalfEven num (den * Nat.pow 2 shift)

/-- The number nearest to `num / den` units, infinite if the magnitude is too large. -/
def ofUnits (negative : Bool) (num den : Nat) : Binary64 :=
  let code := nearestCode num den
  if h : code < codeLimit then .finite negative ⟨code, h⟩ else .infinite negative

def zero (negative : Bool) : Binary64 := .finite negative ⟨0, by decide⟩

/-- The number nearest to `digits * 10 ^ exponent`. Exponents far outside the range of the format
are answered without computing the power. -/
def ofDecimal (negative : Bool) (digits : Nat) (exponent : Int) : Binary64 :=
  if digits = 0 then zero negative
  else match exponent with
    | .ofNat power =>
      if 400 < power then .infinite negative
      else ofUnits negative (digits * Nat.pow 10 power * unitsPerOne) 1
    | .negSucc power =>
      if 400 + digits.log2 < power then zero negative
      else ofUnits negative (digits * unitsPerOne) (Nat.pow 10 (power + 1))

/-- The number nearest to an integer. -/
def ofInt (i : Int) : Binary64 := ofUnits (i < 0) (i.natAbs * unitsPerOne) 1

/-- The number with the opposite sign. -/
def neg : Binary64 → Binary64
  | .nan => .nan
  | .infinite negative => .infinite (!negative)
  | .finite negative code => .finite (!negative) code

/-- The value of a finite number in units of `2 ^ -1074`. -/
def signedUnits? : Binary64 → Option Int
  | .finite negative code => some (if negative then -(units code : Int) else units code)
  | _ => none

/-- The sum of two numbers. -/
def add : Binary64 → Binary64 → Binary64
  | .nan, _ | _, .nan => .nan
  | .infinite a, .infinite b => if a == b then .infinite a else .nan
  | .infinite a, .finite _ _ => .infinite a
  | .finite _ _, .infinite b => .infinite b
  | .finite a x, .finite b y =>
    let sum : Int := (if a then -(units x : Int) else units x) +
      (if b then -(units y : Int) else units y)
    if sum = 0 then zero (a && b) else ofUnits (sum < 0) sum.natAbs 1

/-- The product of two numbers. -/
def mul : Binary64 → Binary64 → Binary64
  | .nan, _ | _, .nan => .nan
  | .infinite a, .infinite b => .infinite (a != b)
  | .infinite a, .finite b y => if y.val = 0 then .nan else .infinite (a != b)
  | .finite a x, .infinite b => if x.val = 0 then .nan else .infinite (a != b)
  | .finite a x, .finite b y => ofUnits (a != b) (units x * units y) unitsPerOne

/-- The number is zero of either sign. -/
def isZero : Binary64 → Bool
  | .finite _ code => code.val == 0
  | _ => false

/-- The two numbers are equal as numbers: zeros of either sign are, and a not-a-number equals
nothing. -/
def sameNumber : Binary64 → Binary64 → Bool
  | .nan, _ => false
  | .infinite a, .infinite b => a == b
  | a, b => match a.signedUnits?, b.signedUnits? with
    | some x, some y => x == y
    | _, _ => false

/-- The number equals an integer. -/
def isInt (x : Binary64) (i : Int) : Bool :=
  match x.signedUnits? with
  | some units => units == i * unitsPerOne
  | none => false

/-- The number is smaller than another; a not-a-number is smaller than nothing. -/
def isBelow : Binary64 → Binary64 → Bool
  | .nan, _ | _, .nan => false
  | .infinite a, .infinite b => a && !b
  | .infinite a, .finite _ _ => a
  | .finite _ _, .infinite b => !b
  | a, b => match a.signedUnits?, b.signedUnits? with
    | some x, some y => x < y
    | _, _ => false

/-- The number is smaller than an integer. -/
def isBelowInt (x : Binary64) (i : Int) : Bool :=
  match x with
  | .nan => false
  | .infinite negative => negative
  | x => match x.signedUnits? with
    | some units => units < i * unitsPerOne
    | none => false

/-- The number is greater than an integer. -/
def isAboveInt (x : Binary64) (i : Int) : Bool :=
  match x with
  | .nan => false
  | .infinite negative => !negative
  | x => match x.signedUnits? with
    | some units => i * unitsPerOne < units
    | none => false

end Binary64

end SchemaDocs
