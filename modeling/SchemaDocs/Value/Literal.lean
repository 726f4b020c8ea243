import SchemaDocs.Binary64.Decimal
import SchemaDocs.Text.Basic
import SchemaDocs.Text.Display
import SchemaDocs.Text.Quoted
import SchemaDocs.Value.Basic

/-!
# Texts of values

Three texts of a value. The *literal* is how defaults and enumerated values are written in
documents. The *display form* shows a value inside another one, and the *plain form* is the text
that stands for a value where a text is asked for: a text is its own plain form, and the plain form
of anything but a text, a day or a time is its display form.

Not every value has a literal: a collection that lies in itself has none, and an integer can have too
many digits to be written.
-/

namespace SchemaDocs.Value

/-- Numbers are written without an exponent from `1e-4` to below `1e16`, and exponents have at least
two digits. -/
def floatLayout : Binary64.Layout where
  leastPlain := -4
  endPlain := 16
  exponentWidth := 2
  nanText := "nan"
  infinityText := "inf"

def floatText (x : Binary64) : String := String.ofList (floatLayout.text x)

/-- The text of an integer, however many digits it has; `literalFault?` asks whether it can be written. -/
def intText (i : Int) : String := String.ofList (Numeral.integer i)

def boolText (b : Bool) : String := if b then "True" else "False"

/-- Texts between two brackets, separated by commas. -/
def enclosed (opening closing : String) (parts : List String) : String :=
  opening ++ Text.join ", " parts ++ closing

/-! ## Display form -/

def displayCall (name : String) (arguments : List String) : String :=
  enclosed (name ++ "(") ")" arguments

def displayDate (d : Date) : String :=
  displayCall "datetime.date" ([d.year, d.month, d.day].map fun (n : Nat) => intText n)

/-- The display form of a length of time in minutes: days and seconds, the seconds not negative. -/
def displayDuration (minutes : Int) : String :=
  let days := Int.fdiv minutes 1440
  let seconds := Int.fmod minutes 1440 * 60
  displayCall "datetime.timedelta" (
    (if days = 0 then [] else ["days=" ++ intText days]) ++
    (if seconds = 0 then [] else ["seconds=" ++ intText seconds]))

/-- The display form of the zone with an offset in minutes. -/
def displayZone (minutes : Int) : String :=
  if minutes = 0 then "datetime.timezone.utc"
  else displayCall "datetime.timezone" [displayDuration minutes]

/-- The display form of a point in time. Microseconds are left out if they are zero, and then the
seconds if they are. -/
def displayTimestamp (t : Timestamp) : String :=
  let fields := [t.date.year, t.date.month, t.date.day, t.hour, t.minute]
  let fields := fields ++
    (if t.microsecond = 0 then (if t.second = 0 then [] else [t.second])
      else [t.second, t.microsecond])
  displayCall "datetime.datetime" (fields.map (fun (n : Nat) => intText n) ++
    (match t.offset with
      | none => []
      | some minutes => ["tzinfo=" ++ displayZone minutes]))

/-- What is shown for a collection inside itself. -/
def displayAgain : Value → String
  | .map _ => "\x7b...\x7d"
  | .pair _ _ => "(...)"
  | _ => "[...]"

mutual

/-- The display form of a value inside the collections with the marks `around`. -/
def displayWithin (around : List (Nat × Nat)) : Value → String
  | .null => "None"
  | .bool b => boolText b
  | .int i => intText i
  | .float x => floatText x
  | .str s => Text.display s
  | .list items => enclosed "[" "]" (displayItems around items)
  | .map entries => enclosed "\x7b" "\x7d" (displayEntries around entries)
  | .date d => displayDate d
  | .timestamp t => displayTimestamp t
  | .bytes data => Text.displayBytes data
  | .set members =>
    if members.isEmpty then "set()" else enclosed "\x7b" "\x7d" (displayItems around members)
  | .pair first second => enclosed "(" ")" [displayWithin around first, displayWithin around second]
  | .knot mark inner =>
    if around.contains mark then displayAgain inner else displayWithin (mark :: around) inner
termination_by structural v => v

def displayItems (around : List (Nat × Nat)) : List Value → List String
  | [] => []
  | item :: items => displayWithin around item :: displayItems around items
termination_by structural items => items

def displayEntries (around : List (Nat × Nat)) : List (Value × Value) → List String
  | [] => []
  | (key, value) :: entries =>
    (displayWithin around key ++ ": " ++ displayWithin around value) ::
      displayEntries around entries
termination_by structural entries => entries

end

def display (v : Value) : String := displayWithin [] v

/-! ## Plain form -/

/-- The plain form of a value. Integers are told with all their digits. -/
def plain : Value → String
  | .str s => s
  | .date d => String.ofList d.text
  | .timestamp t => String.ofList t.text
  | v => display v

/-! ## Literal -/

def isPair : Value → Bool
  | .pair _ _ => true
  | _ => false

mutual

/-- The literal of a value inside the collections with the marks `around`. A collection inside itself
has none (`literalFaultWithin?`), and nothing is written for it. -/
def literalWithin (around : List (Nat × Nat)) : Value → String
  | .null => "None"
  | .bool b => boolText b
  | .int i => intText i
  | .float x => floatText x
  | .str s => Text.quoted s
  | .list items => enclosed "[" "]" (literalItems around items)
  | .map entries => enclosed "\x7b" "\x7d" (literalEntries around entries)
  | .date d => plain (.date d)
  | .timestamp t => plain (.timestamp t)
  | .bytes data => plain (.bytes data)
  | .set members => plain (.set members)
  | .pair first second => plain (.pair first second)
  | .knot mark inner =>
    if inner.isPair then plain (.knot mark inner)
    else if around.contains mark then ""
    else literalWithin (mark :: around) inner
termination_by structural v => v

def literalItems (around : List (Nat × Nat)) : List Value → List String
  | [] => []
  | item :: items => literalWithin around item :: literalItems around items
termination_by structural items => items

def literalEntries (around : List (Nat × Nat)) : List (Value × Value) → List String
  | [] => []
  | (key, value) :: entries =>
    (literalWithin around key ++ ": " ++ literalWithin around value) ::
      literalEntries around entries
termination_by structural entries => entries

end

/-- The literal of a value that has one (`format_literal`). -/
def literal (v : Value) : String := literalWithin [] v

/-! ## Values without a literal -/

inductive LiteralFault where
  /-- A collection lies in itself, so its literal would have no end. -/
  | endless
  /-- An integer has more digits than can be written. -/
  | longInteger
deriving DecidableEq

/-- The integer has too many digits to be written. -/
def isLongInteger (i : Int) : Bool := decide (Nat.pow 10 Numeral.mostDigits ≤ i.natAbs)

mutual

/-- There is an integer with too many digits in the display form of a value. -/
def displaysLong (around : List (Nat × Nat)) : Value → Bool
  | .int i => isLongInteger i
  | .list items => displaysLongItem around items
  | .map entries => displaysLongEntry around entries
  | .set members => displaysLongItem around members
  | .pair first second => displaysLong around first || displaysLong around second
  | .knot mark inner => !around.contains mark && displaysLong (mark :: around) inner
  | _ => false
termination_by structural v => v

def displaysLongItem (around : List (Nat × Nat)) : List Value → Bool
  | [] => false
  | item :: items => displaysLong around item || displaysLongItem around items
termination_by structural items => items

def displaysLongEntry (around : List (Nat × Nat)) : List (Value × Value) → Bool
  | [] => false
  | (key, value) :: entries =>
    displaysLong around key || displaysLong around value || displaysLongEntry around entries
termination_by structural entries => entries

end

/-- What is not a collection of its own in a literal stands there in its display form. -/
def displayFault? (v : Value) : Option LiteralFault :=
  if displaysLong [] v then some .longInteger else none

mutual

/-- The first reason why a value inside the collections with the marks `around` has no literal. -/
def literalFaultWithin? (around : List (Nat × Nat)) : Value → Option LiteralFault
  | .int i => if isLongInteger i then some .longInteger else none
  | .list items => itemFault? around items
  | .map entries => entryFault? around entries
  | .set members => displayFault? (.set members)
  | .pair first second => displayFault? (.pair first second)
  | .knot mark inner =>
    if inner.isPair then displayFault? (.knot mark inner)
    else if around.contains mark then some .endless
    else literalFaultWithin? (mark :: around) inner
  | _ => none
termination_by structural v => v

def itemFault? (around : List (Nat × Nat)) : List Value → Option LiteralFault
  | [] => none
  | item :: items => (literalFaultWithin? around item).or (itemFault? around items)
termination_by structural items => items

def entryFault? (around : List (Nat × Nat)) : List (Value × Value) → Option LiteralFault
  | [] => none
  | (key, value) :: entries =>
    ((literalFaultWithin? around key).or (literalFaultWithin? around value)).or
      (entryFault? around entries)
termination_by structural entries => entries

end

/-- The first reason why a value has no literal. -/
def literalFault? (v : Value) : Option LiteralFault := literalFaultWithin? [] v

/-- The literal of a value, or why it has none. -/
def literal? (v : Value) : Except LiteralFault String :=
  match v.literalFault? with
  | some fault => .error fault
  | none => .ok v.literal

end SchemaDocs.Value
