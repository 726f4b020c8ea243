import SchemaDocs.Text.Blank
import SchemaDocs.Text.Lower

/-!
# Formats

The formats that documents are written in.
-/

namespace SchemaDocs

inductive Format where
  | markdown
  | html
deriving DecidableEq

namespace Format

def name : Format → String
  | .markdown => "markdown"
  | .html => "html"

/-- The extension of the file names of documents. -/
def extension : Format → String
  | .markdown => "md"
  | .html => "html"

/-- The format with a name or an extension, irrespective of case and of blanks around it (`parse`). -/
def ofName? (name : String) : Option Format :=
  let key := Text.lower (Text.trimBlanks name)
  if key = "md" || key = "markdown" then some .markdown
  else if key = "html" then some .html
  else none

/-- The wording for a name that belongs to no format. -/
def unknownMessage (name : String) : String :=
  "unsupported doc format '" ++ name ++ "' (expected md or html)"

end Format

end SchemaDocs
