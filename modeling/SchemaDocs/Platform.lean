import SchemaDocs.Text.Blank
import SchemaDocs.Text.Lower

/-!
# Platforms

What a document owes to the platform it is read on: the separator of the segments of a link and the
end of a line. Links lead from a directory to a file, both given by their segments.
-/

namespace SchemaDocs

/-- A platform that documents are read on. -/
inductive Platform where
  | unix
  | windows
deriving DecidableEq

namespace Platform

def name : Platform → String
  | .unix => "unix"
  | .windows => "windows"

/-- The character between two segments of a link. -/
def separator : Platform → Char
  | .unix => '/'
  | .windows => '\\'

def lineEnd : Platform → String
  | .unix => "\n"
  | .windows => "\r\n"

/-- The platform that documents are made on. -/
def host : Platform := .unix

/-- The platform with a name, irrespective of case and of blanks around it (`from_name`). -/
def ofName? (name : String) : Option Platform :=
  let key := Text.lower (Text.trimBlanks name)
  if key = "host" then some host
  else [unix, windows].find? fun platform => platform.name = key

/-- The wording for a name that belongs to no platform. -/
def unknownMessage (name : String) : String :=
  "unknown platform '" ++ name ++ "' (expected host, unix or windows)"

/-- The segments that are not empty, with separators between them (`join`). -/
def joinPath (p : Platform) (segments : List String) : String :=
  Text.join (String.singleton p.separator) (segments.filter fun segment => !segment.isEmpty)

/-! ## Links -/

/-- A place as seen from a base directory: how many levels to climb, and the segments from there. -/
structure Place where
  climb : Nat
  segments : List String
deriving DecidableEq

/-- The place after one more step: an empty segment and `.` stay, `..` takes the last segment off or
climbs, and every other segment is appended. -/
def Place.step (place : Place) (segment : String) : Place :=
  if segment = "" || segment = "." then place
  else if segment = ".." then
    if place.segments.isEmpty then { place with climb := place.climb + 1 }
    else { place with segments := place.segments.dropLast }
  else { place with segments := place.segments ++ [segment] }

/-- The place that a list of segments leads to; a slash inside a segment parts it. -/
def Place.ofSegments (segments : List String) : Place :=
  (segments.flatMap (Text.split '/')).foldl Place.step ⟨0, []⟩

/-- The two lists without their longest common start. -/
def dropCommon : List String → List String → List String × List String
  | a :: as, b :: bs => if a = b then dropCommon as bs else (a :: as, b :: bs)
  | as, bs => (as, bs)

/-- The segments of the way from the directory `start` to `target`: up to where the two part, then
down. The way to the directory itself is `.`. -/
def way (target start : Place) : List String :=
  let (down, up) :=
    if target.climb = start.climb then dropCommon target.segments start.segments
    else (target.segments, start.segments)
  let climbed := List.replicate (target.climb - start.climb + up.length) ".."
  if (climbed ++ down).isEmpty then ["."] else climbed ++ down

/-- The link to the file `target` from a document in the directory `start` (`relative_link`). -/
def relativeLink (p : Platform) (target start : List String) : String :=
  p.joinPath (way (Place.ofSegments target) (Place.ofSegments start))

/-! ## Line ends -/

/-- The text with the line ends of the platform (`apply_newlines`). -/
def withLineEnds (p : Platform) (text : String) : String :=
  match p with
  | .unix => Text.unifyLineEnds text
  | .windows => Text.pairLineEnds (Text.unifyLineEnds text)

end Platform

end SchemaDocs
