import SchemaDocs.Toml.Number
import SchemaDocs.Toml.Text

/-!
# TOML texts

The reader of TOML texts. Headers open tables one after another, and entries go into the table that
is open. Every table can be opened once, and what is written in one piece cannot be extended later.
-/

namespace SchemaDocs.Toml

/-! ## Values -/

/-- The table with an entry of an inline table added under a key with several names; `closed` holds
the keys under which nothing can be added any more. -/
def addInline? (closed : List (List String)) (key : List String) (item : Item) (table : Table) :
    Option Table :=
  if closed.any fun path => path.isPrefixOf key then none
  else table.updateAt? false (Table.add? (key.getLastD "") item) key.dropLast

mutual

/-- The value at the front of a text, and the text after it. The fuel bounds the number of
characters read. -/
def value? : Nat → List Char → Option (Item × List Char)
  | 0, _ => none
  | fuel + 1, cs =>
    match cs with
    | '"' :: '"' :: '"' :: rest =>
      (multilineString? '"' rest).map fun (s, rest) => (.string s, rest)
    | '\'' :: '\'' :: '\'' :: rest =>
      (multilineString? '\'' rest).map fun (s, rest) => (.string s, rest)
    | '"' :: rest => (lineString? '"' rest).map fun (s, rest) => (.string s, rest)
    | '\'' :: rest => (lineString? '\'' rest).map fun (s, rest) => (.string s, rest)
    | 't' :: 'r' :: 'u' :: 'e' :: rest => some (.boolean true, rest)
    | 'f' :: 'a' :: 'l' :: 's' :: 'e' :: rest => some (.boolean false, rest)
    | '[' :: rest => (items? fuel rest).map fun (items, rest) => (.array items, rest)
    | '\x7b' :: rest =>
      match skipBlanks rest with
      | '\x7d' :: rest => some (.table [], rest)
      | rest => (inlineEntries? fuel [] [] rest).map fun (table, rest) => (.table table, rest)
    | cs => numeral? cs

/-- The items of an array up to its closing bracket. -/
def items? : Nat → List Char → Option (List Item × List Char)
  | 0, _ => none
  | fuel + 1, cs => do
    match ← skipSpace? cs.length cs with
    | ']' :: rest => return ([], rest)
    | rest =>
      let (item, rest) ← value? fuel rest
      match ← skipSpace? rest.length rest with
      | ']' :: rest => return ([item], rest)
      | ',' :: rest =>
        let (items, rest) ← items? fuel rest
        return (item :: items, rest)
      | _ => none

/-- A key with its value. -/
def pair? : Nat → List Char → Option ((List String × Item) × List Char)
  | 0, _ => none
  | fuel + 1, cs => do
    let (key, rest) ← key? (cs.length + 1) cs
    let rest ← mark? '=' rest
    let (item, rest) ← value? fuel (skipBlanks rest)
    return ((key, item), rest)

/-- The entries of an inline table up to its closing brace, added to a table. A collection closes its
key. -/
def inlineEntries? : Nat → List (List String) → Table → List Char → Option (Table × List Char)
  | 0, _, _, _ => none
  | fuel + 1, closed, table, cs => do
    let ((key, item), rest) ← pair? fuel cs
    let table ← addInline? closed key item table
    match skipBlanks rest with
    | '\x7d' :: rest => return (table, rest)
    | ',' :: rest =>
      inlineEntries? fuel (if item.isCollection then key :: closed else closed) table
        (skipBlanks rest)
    | _ => none

end

/-! ## Statements -/

/-- The state of the reading of statements. -/
structure Sections where
  root : Table := []
  /-- The path of the open table. -/
  header : List String := []
  /-- The paths of the tables that cannot be opened any more. -/
  opened : List (List String) := []
  /-- The paths of tables that cannot be opened from the next header on. -/
  pending : List (List String) := []
  /-- The paths under which nothing can be added any more. -/
  closed : List (List String) := []

namespace Sections

/-- Nothing can be added under the path. -/
def isClosed (s : Sections) (path : List String) : Bool :=
  s.closed.any fun closed => closed.isPrefixOf path

/-- The tables between the open one and the value of an entry with a key of several names. -/
def between (s : Sections) (key : List String) : List (List String) :=
  (List.range key.length).drop 1 |>.map fun count => s.header ++ key.take count

/-- Adds an entry to the open table. -/
def addEntry? (s : Sections) (key : List String) (item : Item) : Option Sections :=
  if (s.between key).any s.opened.contains || s.isClosed (s.header ++ key.dropLast) then none
  else do
    let root ← s.root.updateAt? true (Table.add? (key.getLastD "") item) (s.header ++ key.dropLast)
    return { s with
      root := root
      pending := s.pending ++ s.between key
      closed := if item.isCollection then (s.header ++ key) :: s.closed else s.closed }

/-- The state at a header: what has been pending cannot be opened any more. -/
def settle (s : Sections) : Sections := { s with opened := s.opened ++ s.pending, pending := [] }

def openTable? (s : Sections) (key : List String) : Option Sections :=
  if s.opened.contains key || s.isClosed key then none
  else do
    let root ← s.root.updateAt? true some key
    return { s with root := root, header := key, opened := key :: s.opened }

/-- Opens a new table of an array. The tables inside the last one do not stand in the way of those
inside the new one. -/
def openItem? (s : Sections) (key : List String) : Option Sections :=
  if s.isClosed key then none
  else do
    let root ← s.root.updateAt? true (Table.addToArray? (key.getLastD "")) key.dropLast
    let isOutside (path : List String) : Bool := !key.isPrefixOf path
    return { s with
      root := root
      header := key
      opened := key :: s.opened.filter isOutside
      closed := s.closed.filter isOutside }

def readHeader? (s : Sections) (cs : List Char) : Option (Sections × List Char) :=
  match cs with
  | '[' :: rest => do
    let (key, rest) ← key? (rest.length + 1) (skipBlanks rest)
    let s ← s.openItem? key
    let rest ← mark? ']' rest
    let rest ← mark? ']' rest
    return (s, rest)
  | cs => do
    let (key, rest) ← key? (cs.length + 1) (skipBlanks cs)
    let s ← s.openTable? key
    let rest ← mark? ']' rest
    return (s, rest)

def readStatement? (s : Sections) (cs : List Char) : Option (Sections × List Char) :=
  match cs with
  | [] => some (s, [])
  | c :: rest =>
    if c == '\n' || c == '#' then some (s, c :: rest)
    else if c == '[' then s.settle.readHeader? rest
    else do
      let ((key, item), rest) ← pair? (rest.length + 2) (c :: rest)
      let s ← s.addEntry? key item
      return (s, rest)

/-- Reads the lines of a text. The fuel bounds the number of lines. -/
def readLines? : Nat → Sections → List Char → Option Sections
  | 0, s, _ => some s
  | fuel + 1, s, cs => do
    let (s, rest) ← s.readStatement? (skipBlanks cs)
    match ← skipComment? (skipBlanks rest) with
    | [] => return s
    | '\n' :: rest => readLines? fuel s rest
    | _ => none

end Sections

def read? (text : String) : Option Table :=
  let cs := Text.unifyLineEndsList text.toList
  (Sections.readLines? (cs.length + 1) {} cs).map fun s => s.root

end SchemaDocs.Toml
