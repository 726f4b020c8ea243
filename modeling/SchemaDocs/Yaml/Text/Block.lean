import SchemaDocs.Numeral
import SchemaDocs.Yaml.Cursor

/-!
# Block scalars

Texts that stand on indented lines of their own, literal after `|` and folded after `>`.
-/

namespace SchemaDocs.Yaml.Scan

/-- What becomes of the line ends after a block scalar. -/
inductive Chomping where
  | clip
  | strip
  | keep
deriving DecidableEq

/-- Reads a sign for what becomes of the line ends, if there is one. -/
def chomping? : Scan (Option Chomping) := do
  match ← peek with
  | some '+' => skip 1; return some .keep
  | some '-' => skip 1; return some .strip
  | _ => return none

/-- Reads the digit for the indentation, if there is one. -/
def increment? : Scan (Option Nat) := do
  match ← peek with
  | some c =>
    if '0' ≤ c && c ≤ '9' then
      require (c != '0')
      skip 1
      return some (c.toNat - 48)
    else return none
  | none => return none

/-- Reads the signs behind the mark of a block scalar, in either order. -/
def blockHeader : Scan (Chomping × Option Nat) := do
  match ← chomping? with
  | some chomping =>
    let increment ← increment?
    return (chomping, increment)
  | none =>
    match ← increment? with
    | some increment =>
      let chomping ← chomping?
      return (chomping.getD .clip, some increment)
    | none => return (.clip, none)

/-- Reads empty lines and the spaces of the first other line; gives the line ends and the widest
indentation. -/
def leadingLines : Nat → Nat → Scan (List Char × Nat)
  | 0, widest => return ([], widest)
  | fuel + 1, widest => do
    match ← peek with
    | some ' ' =>
      skip 1
      leadingLines fuel (max widest (← get).column)
    | some c =>
      if isBreak c then
        let lineEnd ← lineBreak
        let (lineEnds, widest) ← leadingLines fuel widest
        return (lineEnd ++ lineEnds, widest)
      else return ([], widest)
    | none => return ([], widest)

/-- Passes over spaces up to a column. -/
def indentTo : Nat → Nat → Scan Unit
  | 0, _ => return ()
  | fuel + 1, column => do
    if (← get).column < column && (← peek) == some ' ' then
      skip 1
      indentTo fuel column

/-- Reads empty lines and the indentation of the next line; gives the line ends. -/
def emptyLines : Nat → Nat → Scan (List Char)
  | 0, _ => return []
  | fuel + 1, indent => do
    indentTo (← bound) indent
    match ← peek with
    | some c =>
      if isBreak c then
        let lineEnd ← lineBreak
        let lineEnds ← emptyLines fuel indent
        return lineEnd ++ lineEnds
      else return []
    | none => return []

/-- A line of the text is here: the text goes on at the column of its indentation. -/
def isAtLine (indent : Nat) : Scan Bool := do
  let c ← get
  return c.column == indent && !c.rest.isEmpty

/-- The next character is a space or a tabulator. -/
def isAtBlank : Scan Bool := do
  let c ← peek
  return c == some ' ' || c == some '\t'

/-- Reads the lines of a block scalar after the line ends `before`; gives the text without the line
ends after it, the end of its last line, and the line ends after that. -/
def blockLines (folded : Bool) (indent : Nat) :
    Nat → List Char → Scan (List Char × List Char × List Char)
  | 0, before => return ([], [], before)
  | fuel + 1, before => do
    if ← isAtLine indent then
      let startsBlank ← isAtBlank
      let line ← takeWhile fun c => !isBreak c
      let lineEnd ← lineBreak
      let lineEnds ← emptyLines (← bound) indent
      if ← isAtLine indent then
        let joint :=
          if folded && lineEnd == ['\n'] && !startsBlank && !(← isAtBlank) then
            if lineEnds.isEmpty then [' '] else []
          else lineEnd
        let (text, lastEnd, after) ← blockLines folded indent fuel lineEnds
        return (before ++ line ++ joint ++ text, lastEnd, after)
      else return (before ++ line, lineEnd, lineEnds)
    else return ([], [], before)

/-- Reads a block scalar below a node with the given indentation. -/
def blockScalar (folded : Bool) (outer : Int) : Scan String := do
  skip 1
  let (chomping, increment) ← blockHeader
  require (endsWord (← peek))
  endOfLine
  let least := max 1 (outer + 1).toNat
  let (before, indent) ← match increment with
    | none => do
      let (lineEnds, widest) ← leadingLines (← bound) 0
      pure (lineEnds, max least widest)
    | some increment => do
      let indent := least + increment - 1
      let lineEnds ← emptyLines (← bound) indent
      pure (lineEnds, indent)
  let (text, lastEnd, after) ← blockLines folded indent (← bound) before
  return String.ofList (text ++ match chomping with
    | .strip => []
    | .clip => lastEnd
    | .keep => lastEnd ++ after)

end SchemaDocs.Yaml.Scan
