import SchemaDocs.Document.Page
import SchemaDocs.Text.Escape

/-!
# Markdown documents

Pages as Markdown. A fragment is a list of blocks with a blank line between two of them; the
attributes of an inline object are a block quote below the attribute that holds it, one level of
quotation for each level of nesting.
-/

namespace SchemaDocs

namespace Markdown

/-- Free text, in which markup is escaped if that is asked for. -/
def freeText (escape : Bool) (s : String) : String := if escape then Text.escapeMarkup s else s

/-! ## Fragments -/

def quoteLine (line : List Char) : List Char :=
  if line.isEmpty then ['>'] else '>' :: ' ' :: line

/-- The text as a block quote (`_block_quote`). -/
def blockQuote (s : String) : String :=
  String.ofList (Text.joinList ['\n'] ((Text.splitList '\n' s.toList).map quoteLine))

def joinBlocks (blocks : List String) : String := Text.join "\n\n" blocks

/-- The first line about an attribute: its name and its marks. -/
def attributeHead (name : String) (required readOnly deprecated : Bool) : String :=
  "**" ++ name ++ "**" ++ (if required then " *required*" else "") ++
    (if readOnly then " *readOnly*" else "") ++ (if deprecated then " *deprecated*" else "")

def attributeToken (token : String) (link : Option String) : String :=
  let code := "`" ++ token ++ "`"
  match link with
  | none => code
  | some link => if link.isEmpty then code else "[" ++ code ++ "](" ++ link ++ ")"

mutual

/-- The fragment about an attribute (`format_attribute`). -/
def attributeText (escape : Bool) : Attribute → String
  | ⟨name, token, required, readOnly, deprecated, description, default, link, children⟩ =>
    joinBlocks (
      [attributeHead name required readOnly deprecated, attributeToken token link] ++
      (match default with
        | none => []
        | some default => ["Default: `" ++ default ++ "`"]) ++
      (if description.isEmpty then [] else [freeText escape description]) ++
      (if children.isEmpty then []
        else [blockQuote (joinBlocks (attributeTexts escape children))]))
termination_by structural a => a

def attributeTexts (escape : Bool) : List Attribute → List String
  | [] => []
  | a :: rest => attributeText escape a :: attributeTexts escape rest
termination_by structural list => list

end

/-- The fragment about an example (`format_example`). -/
def exampleText (escape : Bool) (e : Example) : String :=
  joinBlocks (
    (if e.summary.isEmpty then [] else ["#### " ++ freeText escape e.summary]) ++
    (if e.description.isEmpty then [] else [freeText escape e.description]) ++
    (if e.value.isEmpty then [] else ["```python\n" ++ e.value ++ "\n```"]))

/-! ## Documents -/

/-- A paragraph after a blank line. -/
def paragraph (s : String) : String := "\n" ++ s ++ "\n"

def link (label target : String) : String := "[" ++ label ++ "](" ++ target ++ ")"

def linkItem (label target : String) : String := "- " ++ link label target

/-- A section that is left out if it has no content. -/
def titled (title : String) (parts : List String) : String :=
  if parts.isEmpty then "" else paragraph title ++ String.join parts

/-- The document of a schema. -/
def schemaDocument (escape : Bool) (page : SchemaPage) : String :=
  "## Schema " ++ page.name ++ "\n" ++
  (match page.deprecation with
    | none => ""
    | some notice => paragraph ("*" ++ freeText escape notice ++ "*")) ++
  (if page.description.isEmpty then "" else paragraph (freeText escape page.description)) ++
  titled "### Attributes" ((attributeTexts escape page.attributes).map paragraph) ++
  titled "### Examples" (page.examples.map fun e => paragraph (exampleText escape e)) ++
  "\n" ++ paragraph "## Source Files" ++ paragraph (linkItem page.sourceLabel page.sourcePath)

def indexItem (entry : IndexEntry) : String :=
  linkItem entry.name entry.link ++
  (match entry.aliasOf with
    | none => ""
    | some origin => if origin.isEmpty then "" else " (re-exported from `" ++ origin ++ "`)") ++
  (if entry.deprecated then " *deprecated*" else "") ++ "\n"

def indexList (title : String) (items : List String) : String :=
  titled title (if items.isEmpty then [] else "\n" :: items)

/-- The index of a package. -/
def indexDocument (escape : Bool) (page : IndexPage) : String :=
  "# Package " ++ page.name ++ "\n" ++
  (if page.description.isEmpty then "" else paragraph (freeText escape page.description)) ++
  indexList "## Schemas" (page.entries.map indexItem) ++
  indexList "## Packages" (page.subpackages.map fun p => linkItem p.name p.link ++ "\n")

end Markdown

end SchemaDocs
