import SchemaDocs.Document.Page
import SchemaDocs.Text.Escape

/-!
# HTML documents

Pages as HTML. A document is a tree of elements, so its tags are balanced by construction, and every
text and every value of an attribute is escaped on the way out, so no text of a schema is read as
markup.
-/

namespace SchemaDocs

/-- A piece of an HTML document. -/
inductive Html where
  | text (s : String)
  /-- An element with its attributes and its content. -/
  | element (tag : String) (attributes : List (String × String)) (content : List Html)
  /-- An element that has no content and no closing tag. -/
  | void (tag : String) (attributes : List (String × String))

namespace Html

/-! ## Writing -/

/-- The attributes inside an opening tag. -/
def writeAttributes : List (String × String) → String
  | [] => ""
  | (name, value) :: rest =>
    " " ++ name ++ "=\"" ++ Text.escapeMarkup value ++ "\"" ++ writeAttributes rest

def openTag (tag : String) (attributes : List (String × String)) : String :=
  "<" ++ tag ++ writeAttributes attributes ++ ">"

def closeTag (tag : String) : String := "</" ++ tag ++ ">"

mutual

/-- The text of a piece. -/
def write : Html → String
  | .text s => Text.escapeMarkup s
  | .element tag attributes content => openTag tag attributes ++ writeAll content ++ closeTag tag
  | .void tag attributes => openTag tag attributes
termination_by structural html => html

/-- The text of pieces one after another. -/
def writeAll : List Html → String
  | [] => ""
  | html :: rest => write html ++ writeAll rest
termination_by structural pieces => pieces

end

theorem writeAll_append (front back : List Html) : writeAll (front ++ back) = writeAll front ++ writeAll back := by
  induction front with
  | nil => rw [List.nil_append, writeAll, String.empty_append]
  | cons html front ih => rw [List.cons_append, writeAll, writeAll, ih, String.append_assoc]

/-! ## Pieces -/

def around (tag s : String) : Html := .element tag [] [.text s]

def link (target : String) (content : List Html) : Html := .element "a" [("href", target)] content

/-- Pieces each of which is followed by a line feed. -/
def lines (pieces : List Html) : List Html := pieces.flatMap fun piece => [piece, .text "\n"]

/-- An element whose content stands on lines of its own. -/
def block (tag : String) (content : List Html) : Html := .element tag [] (.text "\n" :: content)

def mark (isSet : Bool) (name : String) : List Html :=
  if isSet then [.text " ", around "em" name] else []

/-- The type of an attribute, with a link if there is one. -/
def attributeToken (token : String) (target : Option String) : Html :=
  let code := around "code" token
  match target with
  | none => code
  | some target => if target.isEmpty then code else link target [code]

mutual

/-- The lines about an attribute: its name, and what is told about it (`format_attribute`). -/
def attributeLines : Attribute → List Html
  | ⟨name, token, required, readOnly, deprecated, description, default, target, children⟩ =>
    [ .element "dt" [] (around "strong" name :: (mark required "required" ++
        mark readOnly "readOnly" ++ mark deprecated "deprecated")),
      block "dd" (lines (
        [.element "p" [] [attributeToken token target]] ++
        (match default with
          | none => []
          | some default => [.element "p" [] [.text "Default: ", around "code" default]]) ++
        (if description.isEmpty then [] else [around "p" description]) ++
        (if children.isEmpty then [] else [block "dl" (lines (attributeListLines children))])))]
termination_by structural a => a

def attributeListLines : List Attribute → List Html
  | [] => []
  | a :: rest => attributeLines a ++ attributeListLines rest
termination_by structural list => list

end

/-- The lines about an example (`format_example`). -/
def exampleLines (e : Example) : List Html :=
  (if e.summary.isEmpty then [] else [around "h4" e.summary]) ++
  (if e.description.isEmpty then [] else [around "p" e.description]) ++
  (if e.value.isEmpty then [] else [.element "pre" [] [around "code" e.value]])

/-- The text of an example with the end of its last line; an example that tells nothing is an empty
line. -/
def exampleText (e : Example) : List Html :=
  if (exampleLines e).isEmpty then [.text "\n"] else lines (exampleLines e)

/-! ## Documents -/

def document (title : String) (body : List Html) : String :=
  "<!DOCTYPE html>\n" ++ writeAll (lines [block "html" (lines [
    block "head" (lines [.void "meta" [("charset", "utf-8")], around "title" title]),
    block "body" body])])

/-- The document of a schema. -/
def schemaDocument (page : SchemaPage) : String :=
  let title := "Schema " ++ page.name
  document title (
    lines [around "h2" title] ++
    (match page.deprecation with
      | none => []
      | some notice =>
        lines [.element "p" [("class", "deprecated")] [around "em" notice]]) ++
    (if page.description.isEmpty then [] else lines [around "p" page.description]) ++
    (if page.attributes.isEmpty then []
      else lines [around "h3" "Attributes", block "dl" (lines (attributeListLines page.attributes))]) ++
    (if page.examples.isEmpty then []
      else lines [around "h3" "Examples"] ++ page.examples.flatMap exampleText) ++
    lines [around "h2" "Source Files", block "ul" (lines [
      .element "li" [] [link page.sourcePath [.text page.sourceLabel]]])])

def indexItem (entry : IndexEntry) : Html :=
  .element "li" [] (
    link entry.link [.text entry.name] ::
    ((match entry.aliasOf with
      | none => []
      | some origin =>
        if origin.isEmpty then []
        else [.text " (re-exported from ", around "code" origin, .text ")"]) ++
    mark entry.deprecated "deprecated"))

def indexList (title : String) (items : List Html) : List Html :=
  if items.isEmpty then [] else lines [around "h2" title, block "ul" (lines items)]

/-- The index of a package. -/
def indexDocument (page : IndexPage) : String :=
  let title := "Package " ++ page.name
  document title (
    lines [around "h1" title] ++
    (if page.description.isEmpty then [] else lines [around "p" page.description]) ++
    indexList "Schemas" (page.entries.map indexItem) ++
    indexList "Packages" (page.subpackages.map fun p =>
      .element "li" [] [link p.link [.text p.name]]))

end Html

end SchemaDocs
