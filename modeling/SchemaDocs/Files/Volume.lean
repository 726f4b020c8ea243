import SchemaDocs.Files.Disk

/-!
# Volumes

The disk that is a directory tree in memory. There are no links, so a step up leads to the directory
above the one that has been reached. A path is followed segment by segment, and the first segment
that leads nowhere decides why it fails.
-/

namespace SchemaDocs.Files

/-- A tree of files, and the place of the working directory in it. -/
structure Volume where
  root : Entry
  work : Location
  /-- The texts for which the stack is deep enough. -/
  follows : List Char → Bool := fun _ => true

namespace Volume

def longestName : Nat := 255

/-- The number of bytes that a path has to stay below. -/
def longestPath : Nat := 4096

def step (root : Entry) (place : Location) (segment : String) : Except Cause Location :=
  match root.at? place with
  | none => .error .notFound
  | some (.file _) => .error .notDirectory
  | some (.directory entries) =>
    if segment = ".." then .ok place.dropLast
    else if longestName < Path.byteLength segment then .error .nameTooLong
    else if Assoc.has segment entries then .ok (place ++ [segment])
    else .error .notFound

/-- The place where the segments of a path begin. -/
def start (volume : Volume) (p : Path) : Location := if p.isAbsolute then [] else volume.work

/-- The place that a path leads to, with what is there. -/
def find (volume : Volume) (p : Path) : Except Cause (Location × Entry) := do
  if longestPath ≤ Path.byteLength p.text then throw .nameTooLong
  let place ← p.segments.foldlM (step volume.root) (volume.start p)
  match volume.root.at? place with
  | some entryThere => return (place, entryThere)
  | none => throw .notFound

/-- The directory in which a path ends, with what is in it, and the last name; no name if the path
ends with a step up or has no segments. -/
def findParent (volume : Volume) (p : Path) :
    Except Cause (Option (Location × List (String × Entry) × String)) := do
  if longestPath ≤ Path.byteLength p.text then throw .nameTooLong
  match p.segments.getLast? with
  | none => return none
  | some name =>
    let place ← p.segments.dropLast.foldlM (step volume.root) (volume.start p)
    match volume.root.at? place with
    | none => throw .notFound
    | some (.file _) => throw .notDirectory
    | some (.directory entries) =>
      if name = ".." then return none
      if longestName < Path.byteLength name then throw .nameTooLong
      return some (place, entries, name)

def putAt (volume : Volume) (place : Location) (new : Entry) : Volume :=
  { volume with root := Entry.put new place volume.root }

/-- The files after a new directory has been made at a path. -/
def makeDirectory (volume : Volume) (p : Path) : Except Cause Volume := do
  match ← volume.findParent p with
  | none => throw .exists
  | some (place, entries, name) =>
    if Assoc.has name entries then throw .exists
    return volume.putAt (place ++ [name]) (.directory [])

def write (volume : Volume) (p : Path) (data : List UInt8) : Except Cause Volume := do
  match ← volume.findParent p with
  | none => throw .isDirectory
  | some (place, entries, name) =>
    match Assoc.get? name entries with
    | some (.directory _) => throw .isDirectory
    | _ => return volume.putAt (place ++ [name]) (.file data)

def read (volume : Volume) (p : Path) : Except Cause (List UInt8) := do
  match ← volume.find p with
  | (_, .file data) => return data
  | (_, .directory _) => throw .isDirectory

def findDirectory (volume : Volume) (p : Path) :
    Except Cause (Location × List (String × Entry)) := do
  match ← volume.find p with
  | (_, .file _) => throw .notDirectory
  | (place, .directory entries) => return (place, entries)

/-- The place of the directory at a path, with what is in it, and what is in it under a name. -/
def findIn (volume : Volume) (p : Path) (name : String) :
    Except Cause (Location × List (String × Entry) × Entry) := do
  if longestPath ≤ Path.byteLength (p.child name).text then throw .nameTooLong
  let (place, entries) ← volume.findDirectory p
  match Assoc.get? name entries with
  | some e => return (place, entries, e)
  | none => throw .notFound

/-- In the directory at a path there is a directory under a name. -/
def isTree (volume : Volume) (p : Path) (name : String) : Except Cause Bool :=
  match volume.findIn p name with
  | .ok (_, _, e) => .ok (e.kind = .directory)
  | .error .notFound => .ok false
  | .error .notDirectory => .ok false
  | .error .tooManyLinks => .ok false
  | .error cause => .error cause

def dropAt (volume : Volume) (place : Location) (entries : List (String × Entry)) (name : String) :
    Volume :=
  volume.putAt place (.directory (entries.filter fun e => e.1 ≠ name))

/-- The files after a directory in the directory at a path has been removed. -/
def removeTree (volume : Volume) (p : Path) (name : String) : Except Cause Volume := do
  match ← volume.findIn p name with
  | (_, _, .file _) => throw .notDirectory
  | (place, entries, .directory _) => return volume.dropAt place entries name

/-- The files after a file in the directory at a path has been removed. -/
def unlink (volume : Volume) (p : Path) (name : String) : Except Cause Volume := do
  match ← volume.findIn p name with
  | (_, _, .directory _) => throw .isDirectory
  | (place, entries, .file _) => return volume.dropAt place entries name

/-- The files after the directory at a path has been removed with everything in it. A directory that
the path names by a step up or by no segment stays, without what is in it. -/
def remove (volume : Volume) (p : Path) : Volume :=
  match volume.findDirectory p with
  | .error _ => volume
  | .ok (place, _) =>
    if p.name = "" || p.name = ".." then volume.putAt place (.directory [])
    else { volume with root := volume.root.erase place }

/-- The result of an operation on a path, unless the path cannot belong to a file. -/
def guarded {α : Type} (p : Path) (result : Except Cause α) : Except Fault α :=
  if p.hasZero then .error .zeroInPath else result.mapError fun cause => .failed cause p

/-- The result of an operation on what is in the directory at a path under a name. -/
def guardedIn {α : Type} (p : Path) (name : String) (result : Except Cause α) : Except Fault α :=
  if p.hasZero then .error .zeroInPath
  else result.mapError fun cause => .failed cause (p.child name)

def looking {α : Type} (look : Volume → Except Fault α) : StateM Volume (Except Fault α) :=
  fun volume => (look volume, volume)

/-- An operation that changes files, unless it fails. -/
def changing (change : Volume → Except Fault Volume) : StateM Volume (Except Fault Unit) :=
  fun volume => match change volume with
    | .ok changed => (.ok (), changed)
    | .error fault => (.error fault, volume)

instance : Disk (StateM Volume) where
  workPlace := fun volume => (volume.work, volume)
  kind p := looking fun volume => guarded p ((volume.find p).map fun found => found.2.kind)
  read p := looking fun volume => guarded p (volume.read p)
  names p := looking fun volume =>
    guarded p ((volume.findDirectory p).map fun found => Assoc.distinct (found.2.map (·.1)))
  makeDirectory p := changing fun volume => guarded p (volume.makeDirectory p)
  write p data := changing fun volume => guarded p (volume.write p data)
  isTree p name := looking fun volume => guardedIn p name (volume.isTree p name)
  removeTree p name := changing fun volume => guardedIn p name (volume.removeTree p name)
  unlink p name := changing fun volume => guardedIn p name (volume.unlink p name)
  remove p := fun volume => ((), if p.hasZero then volume else volume.remove p)
  follows text := fun volume => (volume.follows text, volume)

end Volume

end SchemaDocs.Files
