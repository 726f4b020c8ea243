import SchemaDocs.Assoc

/-!
# Directory trees

Files and directories as a tree. A place in the tree is given by the names on the way to it from
the root.
-/

namespace SchemaDocs.Files

/-- A file with its bytes, or a directory with what is in it under their names. -/
inductive Entry where
  | file (data : List UInt8)
  | directory (entries : List (String × Entry))

/-- What is at a path. -/
inductive Kind where
  | file
  | directory
deriving DecidableEq

/-- The names on the way from the root to a place in a tree. -/
abbrev Location := List String

namespace Entry

/-- Whether it is a file or a directory. -/
def kind : Entry → Kind
  | file _ => .file
  | directory _ => .directory

/-- What is at a place of a tree. -/
def at? : Location → Entry → Option Entry
  | [], e => some e
  | _ :: _, file _ => none
  | name :: rest, directory entries =>
    match Assoc.get? name entries with
    | some e => at? rest e
    | none => none

/-- The tree with an entry put at a place whose directory is there; otherwise it is unchanged. -/
def put (new : Entry) : Location → Entry → Entry
  | [], _ => new
  | _ :: _, file data => file data
  | [name], directory entries => directory (Assoc.put name new entries)
  | name :: next :: rest, directory entries =>
    match Assoc.get? name entries with
    | some e => directory (Assoc.put name (put new (next :: rest) e) entries)
    | none => directory entries

/-- The tree without what is at a place other than the root. -/
def erase : Location → Entry → Entry
  | [], e => e
  | _ :: _, file data => file data
  | [name], directory entries => directory (entries.filter fun entry => entry.1 ≠ name)
  | name :: next :: rest, directory entries =>
    match Assoc.get? name entries with
    | some e => directory (Assoc.put name (erase (next :: rest) e) entries)
    | none => directory entries

mutual

/-- The places below an entry with what is at each; `above` leads to the entry. -/
def contents (above : Location) : Entry → List (Location × Kind)
  | file _ => []
  | directory entries => contentsOfEach above entries
termination_by structural e => e

/-- The places of entries and below them. -/
def contentsOfEach (above : Location) : List (String × Entry) → List (Location × Kind)
  | [] => []
  | (name, e) :: rest =>
    (above ++ [name], e.kind) :: contents (above ++ [name]) e ++ contentsOfEach above rest
termination_by structural entries => entries

end

end Entry

end SchemaDocs.Files
