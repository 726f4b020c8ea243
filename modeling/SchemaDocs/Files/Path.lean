import SchemaDocs.Text.Basic
import SchemaDocs.Text.Utf8

/-!
# Paths

Paths of files as data: how they are read from texts, written, joined and taken apart. Nothing here
looks at any file. Empty segments and `.` are dropped, `..` is kept, since what it leads to depends
on the files.
-/

namespace SchemaDocs.Files

/-- A path: the number of slashes that it begins with, and its segments. -/
structure Path where
  slashes : Nat := 0
  segments : List String
deriving DecidableEq

namespace Path

/-- The path of the working directory. -/
def here : Path := { segments := [] }

/-- The segments of a text between slashes, without empty ones and `.`. -/
def segmentsOf (text : String) : List String :=
  (Text.split '/' text).filter fun segment => segment != "" && segment != "."

/-- The path that a text stands for. Two slashes at its start are told apart from one, more than two
are not. -/
def ofText (text : String) : Path where
  slashes := match (text.toList.takeWhile (· == '/')).length with
    | 0 => 0
    | 2 => 2
    | _ => 1
  segments := segmentsOf text

def text (p : Path) : String :=
  if p.slashes = 0 && p.segments.isEmpty then "."
  else String.ofList (List.replicate p.slashes '/') ++ Text.join "/" p.segments

def isAbsolute (p : Path) : Bool := p.slashes != 0

/-- The path that leads on from `p` to `q`; one that begins at the root leads there from anywhere. -/
def join (p q : Path) : Path :=
  if q.isAbsolute then q else { p with segments := p.segments ++ q.segments }

/-- The path with texts joined to it one after another. -/
def joinAll (p : Path) (texts : List String) : Path :=
  texts.foldl (fun p text => p.join (ofText text)) p

/-- The last segment; empty if there is none. -/
def name (p : Path) : String := p.segments.getLastD ""

def child (p : Path) (name : String) : Path := { p with segments := p.segments ++ [name] }

def parent (p : Path) : Path := { p with segments := p.segments.dropLast }

/-- The part of the name from its last dot on; nothing if the name begins or ends with that dot. -/
def suffix (p : Path) : String :=
  let (before, after) := Text.splitLast '.' p.name
  if before.isEmpty || after.isEmpty then "" else "." ++ after

/-- The path that leads to the same place from the root, as long as no link is passed. The place of
the working directory is given by its segments. -/
def absolute (workPlace : List String) (p : Path) : Path where
  slashes := 1
  segments := p.segments.foldl
    (fun above segment => if segment = ".." then above.dropLast else above ++ [segment])
    (if p.isAbsolute then [] else workPlace)

def byteLength (text : String) : Nat := (Text.Utf8.encode text).length

/-- The path holds a zero character, so no file can have it. -/
def hasZero (p : Path) : Bool := p.segments.any fun segment => segment.toList.contains '\x00'

end Path

end SchemaDocs.Files
