import SchemaDocs.Files.Path
import SchemaDocs.Numeral
import SchemaDocs.Text.Display

/-!
# Faults of files

Why an operation on a file or a directory fails.
-/

namespace SchemaDocs.Files

/-- Why an operation fails. -/
inductive Cause where
  | notFound
  | exists
  | notDirectory
  | isDirectory
  | nameTooLong
  /-- Links lead to links without end. -/
  | tooManyLinks
  /-- A further cause, with its number and its wording. -/
  | other (number : Nat) (text : String)
deriving DecidableEq

namespace Cause

def number : Cause → Nat
  | notFound => 2
  | «exists» => 17
  | notDirectory => 20
  | isDirectory => 21
  | nameTooLong => 36
  | tooManyLinks => 40
  | other number _ => number

def text : Cause → String
  | notFound => "No such file or directory"
  | «exists» => "File exists"
  | notDirectory => "Not a directory"
  | isDirectory => "Is a directory"
  | nameTooLong => "File name too long"
  | tooManyLinks => "Too many levels of symbolic links"
  | other _ text => text

end Cause

inductive Fault where
  | failed (cause : Cause) (path : Path)
  /-- The path holds a zero character. -/
  | zeroInPath
deriving DecidableEq

def Fault.message : Fault → String
  | .failed cause path =>
    "[Errno " ++ String.ofList (Numeral.decimal cause.number) ++ "] " ++ cause.text ++ ": " ++
      Text.display path.text
  | .zeroInPath => "embedded null byte"

end SchemaDocs.Files
