import SchemaDocs.Command.Execute

/-!
# The program

The command line on the files of the system.
-/

namespace SchemaDocs

open Files (Path Cause Fault)

/-- The cause with a number, which some operations give with a minus sign. -/
def causeOfNumber (number : UInt32) (text : String) : Cause :=
  let number := if number < 0x80000000 then number.toNat else (0 - number).toNat
  match [Cause.notFound, .exists, .notDirectory, .isDirectory, .nameTooLong, .tooManyLinks].find? fun cause =>
      cause.number = number with
  | some cause => cause
  | none => .other number text

/-- The cause of a failed operation on the files of the system. -/
def causeOf : IO.Error → Cause
  | .alreadyExists _ number text | .inappropriateType _ number text
  | .invalidArgument _ number text | .noSuchThing _ number text
  | .permissionDenied _ number text | .resourceExhausted _ number text => causeOfNumber number text
  | .noFileOrDirectory _ number text | .interrupted _ number text => causeOfNumber number text
  | .otherError number text | .hardwareFault number text | .illegalOperation number text
  | .protocolError number text | .resourceBusy number text | .resourceVanished number text
  | .timeExpired number text | .unsatisfiedConstraints number text
  | .unsupportedOperation number text => causeOfNumber number text
  | .unexpectedEof => .other 5 "Input/output error"
  | .userError text => .other 5 text

/-- Does an operation on the files of the system at a path. -/
def onSystem {α : Type} (p : Path) (operation : IO α) : IO (Except Fault α) := do
  if p.hasZero then return .error .zeroInPath
  try
    let a ← operation
    return .ok a
  catch e => return .error (.failed (causeOf e) p)

/-- Whether a file or a directory is at a path. -/
def systemKind (p : Path) : IO Files.Kind := do
  let directory := (← IO.currentDir) / p.text
  let metadata ← directory.metadata
  return match metadata.type with
    | .dir => .directory
    | _ => .file

def systemNames (p : Path) : IO (List String) := do
  let directory := (← IO.currentDir) / p.text
  let entries ← directory.readDir
  return entries.toList.map fun e => e.fileName

/-- At a path there is a directory, and not a link to one. -/
def systemIsTree (p : Path) : IO Bool := do
  let directory := (← IO.currentDir) / p.text
  let metadata ← directory.symlinkMetadata
  return match metadata.type with
    | .dir => true
    | _ => false

/-- Removes a directory and everything in it as far as that can be done, but no link. -/
def systemRemove (p : Path) : IO Unit := do
  try
    if ← systemIsTree p then IO.FS.removeDirAll p.text
  catch _ => return ()

instance : Files.Disk IO where
  workPlace := return (Path.ofText (← IO.currentDir).toString).segments
  kind p := onSystem p (systemKind p)
  read p := onSystem p (return (← IO.FS.readBinFile p.text).toList)
  names p := onSystem p (systemNames p)
  makeDirectory p := onSystem p (IO.FS.createDir p.text)
  write p data := onSystem p (IO.FS.writeBinFile p.text ⟨data.toArray⟩)
  isTree p name := onSystem (p.child name) (systemIsTree (p.child name))
  removeTree p name := onSystem (p.child name) (IO.FS.removeDirAll (p.child name).text)
  unlink p name := onSystem (p.child name) (IO.FS.removeFile (p.child name).text)
  remove p := systemRemove p
  follows _ := return true

/-- How the program is called. -/
def usage : String :=
  "usage: kcl-docgen [-h] [-v] (gen-docs | render) [--package-path PATH] [--config FILE]\n" ++
  "                  [--format md|markdown|html] [--platform host|unix|windows]\n" ++
  "                  [--ignore-deprecated] [--escape-html]\n" ++
  "                  (gen-docs: [--target PATH] | render: --schema KEY)\n"

/-- What is said about an error for which there is no error line. -/
def failureText : RunError → String
  | .files fault => fault.message
  | _ => "unexpected error"

/-- Carries out a command line on the files of the system; gives the exit code. -/
def runCommand (arguments : List String) : IO UInt32 := do
  match ← Command.execute .kept arguments with
  | .stopped .help =>
    IO.print usage
    return 0
  | .stopped .misuse =>
    IO.eprint usage
    return 2
  | .finished report =>
    IO.print report.output
    IO.eprint report.errors
    return report.exit
  | .failed e =>
    IO.eprintln (failureText e)
    return 1

end SchemaDocs

def main (arguments : List String) : IO UInt32 := SchemaDocs.runCommand arguments
