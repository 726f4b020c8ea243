import SchemaDocs.Files.Entry
import SchemaDocs.Files.Fault

/-!
# Disks

The operations on files that the program needs, whatever keeps the files. Every operation says why it
fails; what one that fails leaves behind is a matter of the disk. What the program does with several
operations is written once for all disks.
-/

namespace SchemaDocs.Files

/-- What keeps files. -/
class Disk (m : Type → Type) where
  /-- The segments of the working directory. -/
  workPlace : m (List String)
  /-- What is at a path. -/
  kind : Path → m (Except Fault Kind)
  /-- The bytes of a file. -/
  read : Path → m (Except Fault (List UInt8))
  /-- The names of what is in a directory. -/
  names : Path → m (Except Fault (List String))
  /-- Makes a directory, which may not be there yet, in one that is there. -/
  makeDirectory : Path → m (Except Fault Unit)
  /-- Writes a file, which may be there already. -/
  write : Path → List UInt8 → m (Except Fault Unit)
  /-- In a directory there is a directory under a name, and not a link to one. -/
  isTree : Path → String → m (Except Fault Bool)
  /-- Removes the directory that is in a directory under a name, with everything in it. -/
  removeTree : Path → String → m (Except Fault Unit)
  /-- Removes the file or the link that is in a directory under a name. -/
  unlink : Path → String → m (Except Fault Unit)
  /-- Removes a directory and everything in it as far as that can be done; nothing of it if the path
  leads to a link. -/
  remove : Path → m Unit
  /-- The stack is deep enough for what is done with the text of a dump. -/
  follows : List Char → m Bool

namespace Disk

variable {m : Type → Type} [Monad m] [Disk m]

/-- What is at a path, if anything is. A path that leads through a file, or through links without end,
leads to nothing. -/
def kind? (p : Path) : m (Except Fault (Option Kind)) := do
  match ← kind p with
  | .ok kind => return .ok (some kind)
  | .error (.failed .notFound _) => return .ok none
  | .error (.failed .notDirectory _) => return .ok none
  | .error (.failed .tooManyLinks _) => return .ok none
  | .error .zeroInPath => return .ok none
  | .error fault => return .error fault

/-- Removes what is in a directory under a name. -/
def discard (p : Path) (name : String) : m (Except Fault Unit) := do
  match ← isTree p name with
  | .ok true => removeTree p name
  | .ok false => unlink p name
  | .error fault => return .error fault

/-- A fault, unless there is a directory at the path after all. -/
def unlessDirectory (p : Path) (fault : Fault) : m (Except Fault Unit) := do
  match ← kind? p with
  | .ok (some .directory) => return .ok ()
  | _ => return .error fault

def ensureDirectory (p : Path) : m (Except Fault Unit) := do
  match ← makeDirectory p with
  | .ok () => return .ok ()
  | .error (.failed .notFound q) => return .error (.failed .notFound q)
  | .error .zeroInPath => return .error .zeroInPath
  | .error fault => unlessDirectory p fault

/-- Makes a directory and the directories above it that are missing, of which there are at most
`depth`. -/
def ensureDirectories : Nat → Path → m (Except Fault Unit)
  | 0, p => ensureDirectory p
  | depth + 1, p => do
    match ← ensureDirectory p with
    | .error (.failed .notFound _) =>
      match ← ensureDirectories depth p.parent with
      | .ok () => ensureDirectory p
      | .error fault => return .error fault
    | result => return result

/-- Makes a directory and all directories above it, unless they are there. -/
def makeDirectories (p : Path) : m (Except Fault Unit) := ensureDirectories p.segments.length p

end Disk

end SchemaDocs.Files
