import SchemaDocs.Value.Basic

/-!
# Members of sets

The order in which a set lists its members. Numbers are listed by their places in an open table: every
number has a digest, whose last bits are the place where it is put if that is free, and else it goes
to one of the next places, or on to another stretch of the table. Members that are no numbers have no
place of their own, and a set with such a member lists its members as they came.
-/

namespace SchemaDocs.Value

/-- Digests are counted modulo this prime. -/
def digestPrime : Nat := 0x1fffffffffffffff

/-- The digest of what is infinite. -/
def infiniteDigest : Nat := 314159

/-- The digest with a sign; no digest is minus one. -/
def signedDigest (negative : Bool) (size : Nat) : Int :=
  if negative then if size = 1 then -2 else -(size : Int) else size

/-- The digest of a number. Equal numbers have equal digests, whatever their kind: a magnitude in units
of `2 ^ -1074` counts `2 ^ 24` times, since `2 ^ 61` is one. -/
def digest? : Value → Option Int
  | .bool b => some (if b then 1 else 0)
  | .int i => some (signedDigest (i < 0) (i.natAbs % digestPrime))
  | .float (.infinite negative) => some (signedDigest negative infiniteDigest)
  | .float (.finite negative code) => some (signedDigest negative
      (Binary64.units code * 0x1000000 % digestPrime))
  | _ => none

/-- The number of places for a number of members: eight, or for more than four members the first power
of two that is greater than twice their number. -/
def tableSize (count : Nat) : Nat :=
  if count < 5 then 8 else Nat.pow 2 ((2 * count).log2 + 1)

/-- The number of further places that are tried one after the other. -/
def stretch : Nat := 9

/-- The first free place for a digest, of which the bits not used yet are in `bits`, from a place on.
The fuel bounds the number of stretches. -/
def freePlace (size : Nat) (taken : List Nat) : Nat → Nat → Nat → Nat
  | 0, _, place => place
  | fuel + 1, bits, place =>
    let length := if place + stretch < size then stretch + 1 else 1
    match (List.range' place length).find? fun p => !taken.contains p with
    | some free => free
    | none =>
      let bits := bits / 32
      freePlace size taken fuel bits ((place * 5 + 1 + bits) % size)

/-- The members with their places in a table, put in one after another. -/
def placed (size : Nat) : List (Nat × Value) → List (Value × Int) → List (Nat × Value)
  | found, [] => found
  | found, (member, digest) :: rest =>
    let bits := (digest % 0x10000000000000000).toNat
    let place := freePlace size (found.map (·.1)) (size + 16) bits (bits % size)
    placed size ((place, member) :: found) rest

/-- A member put before the first one with a greater place. -/
def insertByPlace (entry : Nat × Value) : List (Nat × Value) → List (Nat × Value)
  | [] => [entry]
  | other :: rest =>
    if other.1 < entry.1 then other :: insertByPlace entry rest else entry :: other :: rest

/-- The set of members that differ from each other. -/
def setOf (members : List Value) : Value :=
  match members.mapM fun member => member.digest?.map fun digest => (member, digest) with
  | none => .set members
  | some digested =>
    let entries := placed (tableSize members.length) [] digested
    .set ((entries.foldr insertByPlace []).map (·.2))

end SchemaDocs.Value
