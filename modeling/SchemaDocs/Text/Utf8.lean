import SchemaDocs.Numeral

/-!
# UTF-8

Reading bytes as text, with the place and the reason where they are none, and writing text as bytes.
-/

namespace SchemaDocs.Text.Utf8

/-- Why bytes are no text. -/
inductive Reason where
  | badStart
  | badContinuation
  | cutShort
deriving DecidableEq

/-- Where and why bytes are no text: the number of bytes before the fault, and the bytes of it. -/
structure Fault where
  offset : Nat
  bytes : List UInt8
  reason : Reason
deriving DecidableEq

def Reason.message : Reason → String
  | .badStart => "invalid start byte"
  | .badContinuation => "invalid continuation byte"
  | .cutShort => "unexpected end of data"

/-- The wording of a fault: one byte is named, several ones are given by their places. -/
def Fault.message (f : Fault) : String :=
  "'utf-8' codec can't decode " ++
  (match f.bytes with
    | [byte] => "byte 0x" ++ String.ofList (Numeral.hexFixed 2 byte.toNat) ++ " in position " ++
        String.ofList (Numeral.decimal f.offset)
    | bytes => "bytes in position " ++ String.ofList (Numeral.decimal f.offset) ++ "-" ++
        String.ofList (Numeral.decimal (f.offset + bytes.length - 1))) ++
  ": " ++ f.reason.message

/-- The number of bytes after a start byte, the range of the first of them, and the bits of the
character in the start byte. -/
def continuation? (byte : UInt8) : Option (Nat × Nat × Nat × Nat) :=
  let n := byte.toNat
  if n < 0x80 then some (0, 0, 0, n)
  else if 0xc2 ≤ n && n < 0xe0 then some (1, 0x80, 0xbf, n - 0xc0)
  else if n == 0xe0 then some (2, 0xa0, 0xbf, 0)
  else if n == 0xed then some (2, 0x80, 0x9f, 0xd)
  else if 0xe1 ≤ n && n < 0xf0 then some (2, 0x80, 0xbf, n - 0xe0)
  else if n == 0xf0 then some (3, 0x90, 0xbf, 0)
  else if n == 0xf4 then some (3, 0x80, 0x8f, 4)
  else if 0xf1 ≤ n && n < 0xf4 then some (3, 0x80, 0xbf, n - 0xf0)
  else none

/-- Reads the continuation bytes of a character: gives its number, and the bytes after it. The
faulty bytes are those up to the first that does not continue the character. -/
def continueChar (offset : Nat) : Nat → Nat → Nat → Nat → List UInt8 → List UInt8 →
    Except Fault (Nat × List UInt8)
  | 0, _, _, number, _, rest => .ok (number, rest)
  | _ + 1, _, _, _, read, [] => .error ⟨offset, read, .cutShort⟩
  | count + 1, low, high, number, read, byte :: rest =>
    if low ≤ byte.toNat && byte.toNat ≤ high then
      continueChar offset count 0x80 0xbf (number * 64 + byte.toNat % 64) (read ++ [byte]) rest
    else .error ⟨offset, read, .badContinuation⟩

/-- Reads bytes that stand after `offset` other bytes. The fuel bounds the number of bytes. -/
def decodeFrom : Nat → Nat → List UInt8 → Except Fault (List Char)
  | 0, _, _ => .ok []
  | _ + 1, _, [] => .ok []
  | fuel + 1, offset, byte :: rest =>
    match continuation? byte with
    | none => .error ⟨offset, [byte], .badStart⟩
    | some (count, low, high, bits) => do
      let (number, rest) ← continueChar offset count low high bits [byte] rest
      let chars ← decodeFrom fuel (offset + count + 1) rest
      return Char.ofNat number :: chars

def decode (bytes : List UInt8) : Except Fault (List Char) := decodeFrom bytes.length 0 bytes

def encodeChar (c : Char) : List UInt8 :=
  let n := c.toNat
  if n < 0x80 then [n.toUInt8]
  else if n < 0x800 then [(0xc0 + n / 64).toUInt8, (0x80 + n % 64).toUInt8]
  else if n < 0x10000 then
    [(0xe0 + n / 4096).toUInt8, (0x80 + n / 64 % 64).toUInt8, (0x80 + n % 64).toUInt8]
  else
    [(0xf0 + n / 262144).toUInt8, (0x80 + n / 4096 % 64).toUInt8, (0x80 + n / 64 % 64).toUInt8,
      (0x80 + n % 64).toUInt8]

def encode (s : String) : List UInt8 := s.toList.flatMap encodeChar

end SchemaDocs.Text.Utf8
