import SchemaDocs.Files.Volume

/-!
# Machines

The disk of a machine: a volume in which some files stand for links, and on which an operation can fail
for a reason that is not in the files, as who is allowed to do it or what the device holds. A path is
followed through links, so a step up leads out of the directory that a link has led to.
-/

namespace SchemaDocs.Files

/-- What is done at a path. -/
inductive Access where
  | look
  | list
  | make
  | write
  | remove
deriving DecidableEq

/-- Why an operation fails although the files would allow it. -/
structure Trouble where
  number : Nat
  text : String
  /-- The bytes that a write has brought into the file, if it fails after the file was opened. -/
  torn : Option (List UInt8) := none
  /-- What is left of a directory that could not be removed as a whole, if something of it could be. -/
  left : Option Entry := none

/-- A volume with links, and with troubles of its own. -/
structure Machine where
  volume : Volume
  /-- Where the link at a place leads. It counts only if there is a file that stands for it. -/
  link? : Location → Option Path := fun _ => none
  /-- The trouble that there is with a path, as the files are. -/
  trouble? : Access → Path → Entry → Option Trouble := fun _ _ _ => none

namespace Machine

/-- The greatest number of links that lead one to another. -/
def mostLinks : Nat := 40

/-- Where the link at a place leads, if there is a link. -/
def linkAt? (m : Machine) (place : Location) : Option Path :=
  match m.volume.root.at? place with
  | some (.file _) => m.link? place
  | _ => none

/-- The place where the segments of a path begin that is read in a directory. -/
def startIn (place : Location) (p : Path) : Location := if p.isAbsolute then [] else place

/-- The place that segments lead to, with links followed to a depth. -/
def follow (m : Machine) : Nat → Location → List String → Except Cause Location
  | 0, _, _ => .error .tooManyLinks
  | depth + 1, place, segments => segments.foldlM (fun place segment => do
      let next ← Volume.step m.volume.root place segment
      match m.linkAt? next with
      | none => return next
      | some p => follow m depth (startIn place p) p.segments) place

/-- The place that a path leads to, with what is there. -/
def find (m : Machine) (p : Path) : Except Cause (Location × Entry) := do
  if Volume.longestPath ≤ Path.byteLength p.text then throw .nameTooLong
  let place ← m.follow (mostLinks + 1) (m.volume.start p) p.segments
  match m.volume.root.at? place with
  | some entryThere => return (place, entryThere)
  | none => throw .notFound

def findDirectory (m : Machine) (p : Path) : Except Cause (Location × List (String × Entry)) := do
  match ← m.find p with
  | (_, .file _) => throw .notDirectory
  | (place, .directory entries) => return (place, entries)

/-- The directory that segments lead to up to their last one, with what is in it, and the last one; no
name if the segments end with a step up or there are none. -/
def parentOf (m : Machine) (depth : Nat) (start : Location) (segments : List String) :
    Except Cause (Option (Location × List (String × Entry) × String)) :=
  match segments.getLast? with
  | none => return none
  | some name => do
    let place ← m.follow depth start segments.dropLast
    match m.volume.root.at? place with
    | none => throw .notFound
    | some (.file _) => throw .notDirectory
    | some (.directory entries) =>
      if name = ".." then return none
      if Volume.longestName < Path.byteLength name then throw .nameTooLong
      return some (place, entries, name)

/-- The directory in which a path ends, with what is in it, and the last name. -/
def findParent (m : Machine) (p : Path) :
    Except Cause (Option (Location × List (String × Entry) × String)) := do
  if Volume.longestPath ≤ Path.byteLength p.text then throw .nameTooLong
  m.parentOf (mostLinks + 1) (m.volume.start p) p.segments

/-- The last segment of a path is the name of a link. -/
def isLink (m : Machine) (p : Path) : Bool :=
  match m.findParent p with
  | .ok (some (place, _, name)) => (m.linkAt? (place ++ [name])).isSome
  | _ => false

/-- The place of the file that is opened for writing by segments: a link leads to the file that is
opened, even if it is not there yet. -/
def aim (m : Machine) : Nat → Location → List String → Except Cause Location
  | 0, _, _ => .error .tooManyLinks
  | depth + 1, start, segments => do
    match ← m.parentOf (depth + 1) start segments with
    | none => throw .isDirectory
    | some (place, _, name) => match m.linkAt? (place ++ [name]) with
      | none => return place ++ [name]
      | some p => aim m depth (startIn place p) p.segments

/-! ## Changes -/

/-- The machine with other files at a place and below it, where there are no links then. -/
def renew (m : Machine) (place : Location) (volume : Volume) : Machine :=
  { m with
    volume := volume
    link? := fun loc => if place.isPrefixOf loc then none else m.link? loc }

def putAt (m : Machine) (place : Location) (new : Entry) : Machine :=
  m.renew place (m.volume.putAt place new)

/-- The machine after a new directory has been made at a path. -/
def makeDirectory (m : Machine) (p : Path) : Except Cause Machine := do
  match ← m.findParent p with
  | none => throw .exists
  | some (place, entries, name) =>
    if Assoc.has name entries then throw .exists
    return m.putAt (place ++ [name]) (.directory [])

def write (m : Machine) (p : Path) (data : List UInt8) : Except Cause Machine := do
  if Volume.longestPath ≤ Path.byteLength p.text then throw .nameTooLong
  let place ← m.aim (mostLinks + 1) (m.volume.start p) p.segments
  match m.volume.root.at? place with
  | some (.directory _) => throw .isDirectory
  | _ => return m.putAt place (.file data)

def read (m : Machine) (p : Path) : Except Cause (List UInt8) := do
  match ← m.find p with
  | (_, .file data) => return data
  | (_, .directory _) => throw .isDirectory

/-- The place of the directory at a path, with what is in it, and what is in it under a name. -/
def findIn (m : Machine) (p : Path) (name : String) :
    Except Cause (Location × List (String × Entry) × Entry) := do
  if Volume.longestPath ≤ Path.byteLength (p.child name).text then throw .nameTooLong
  let (place, entries) ← m.findDirectory p
  match Assoc.get? name entries with
  | some e => return (place, entries, e)
  | none => throw .notFound

/-- In the directory at a path there is a directory under a name, and not a link to one: a file stands
for a link. -/
def isTree (m : Machine) (p : Path) (name : String) : Except Cause Bool :=
  match m.findIn p name with
  | .ok (_, _, e) => .ok (e.kind = .directory)
  | .error .notFound => .ok false
  | .error .notDirectory => .ok false
  | .error .tooManyLinks => .ok false
  | .error cause => .error cause

def dropAt (m : Machine) (place : Location) (entries : List (String × Entry)) (name : String) :
    Machine :=
  m.renew (place ++ [name]) (m.volume.dropAt place entries name)

/-- The machine after a directory in the directory at a path has been removed. -/
def removeTree (m : Machine) (p : Path) (name : String) : Except Cause Machine := do
  match ← m.findIn p name with
  | (_, _, .file _) => throw .notDirectory
  | (place, entries, .directory _) => return m.dropAt place entries name

/-- The machine after a file or a link in the directory at a path has been removed. -/
def unlink (m : Machine) (p : Path) (name : String) : Except Cause Machine := do
  match ← m.findIn p name with
  | (_, _, .directory _) => throw .isDirectory
  | (place, entries, .file _) => return m.dropAt place entries name

/-- The machine after the directory at a path has been removed with everything in it, unless the path
names a link. A directory that the path names by a step up or by no segment stays, without what is in
it. -/
def remove (m : Machine) (p : Path) : Machine :=
  match m.isLink p, m.findDirectory p with
  | false, .ok (place, _) =>
    if p.name = "" || p.name = ".." then m.putAt place (.directory [])
    else m.renew place { m.volume with root := m.volume.root.erase place }
  | _, _ => m

/-! ## Troubles -/

def unlessTrouble {α : Type} (m : Machine) (access : Access) (p : Path) (result : Except Cause α) :
    Except Cause α :=
  match m.trouble? access p m.volume.root with
  | some trouble => .error (.other trouble.number trouble.text)
  | none => result

/-- The machine after a write that has failed. -/
def torn (m : Machine) (p : Path) : Machine :=
  match (m.trouble? .write p m.volume.root).bind Trouble.torn with
  | some data => (m.write p data).toOption.getD m
  | none => m

/-- The machine after the removal of a directory that is in the directory at a path has failed. -/
def wrecked (m : Machine) (p : Path) (name : String) : Machine :=
  match (m.trouble? .remove (p.child name) m.volume.root).bind Trouble.left, m.findIn p name with
  | some e, .ok (place, _, _) => m.putAt (place ++ [name]) e
  | _, _ => m

/-- The machine after the directory at a path has been removed as far as that can be done. -/
def removed (m : Machine) (p : Path) : Machine :=
  match m.trouble? .remove p m.volume.root, m.findDirectory p with
  | none, _ => m.remove p
  | some trouble, .ok (place, _) => match trouble.left with
    | some e => if m.isLink p then m else m.putAt place e
    | none => m
  | some _, .error _ => m

def looking {α : Type} (look : Machine → Except Fault α) : StateM Machine (Except Fault α) :=
  fun m => (look m, m)

/-- An operation that changes the machine, also if it fails. -/
def changing (change : Machine → Except Fault Machine) (failed : Machine → Machine) :
    StateM Machine (Except Fault Unit) := fun m =>
  match change m with
  | .ok changed => (.ok (), changed)
  | .error fault => (.error fault, if fault = .zeroInPath then m else failed m)

open Volume (guarded guardedIn) in
instance : Disk (StateM Machine) where
  workPlace := fun m => (m.volume.work, m)
  kind p := looking fun m =>
    guarded p (m.unlessTrouble .look p ((m.find p).map fun found => found.2.kind))
  read p := looking fun m => guarded p (m.unlessTrouble .look p (m.read p))
  names p := looking fun m => guarded p (m.unlessTrouble .list p
    ((m.findDirectory p).map fun found => Assoc.distinct (found.2.map (·.1))))
  makeDirectory p :=
    changing (fun m => guarded p (m.unlessTrouble .make p (m.makeDirectory p))) id
  write p data :=
    changing (fun m => guarded p (m.unlessTrouble .write p (m.write p data))) fun m => m.torn p
  isTree p name := looking fun m =>
    guardedIn p name (m.unlessTrouble .look (p.child name) (m.isTree p name))
  removeTree p name := changing
    (fun m => guardedIn p name (m.unlessTrouble .remove (p.child name) (m.removeTree p name)))
    fun m => m.wrecked p name
  unlink p name := changing
    (fun m => guardedIn p name (m.unlessTrouble .remove (p.child name) (m.unlink p name))) id
  remove p := fun m => ((), if p.hasZero then m else m.removed p)
  follows text := fun m => (m.volume.follows text, m)

end Machine

end SchemaDocs.Files
