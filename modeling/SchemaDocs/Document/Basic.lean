import SchemaDocs.Document.Html
import SchemaDocs.Document.Markdown
import SchemaDocs.Format
import SchemaDocs.Schema.Check

/-!
# Documents

The texts of documents in the chosen format, with the line ends of the chosen platform.
-/

namespace SchemaDocs

/-- How documents are made. -/
structure Options where
  format : Format := .markdown
  platform : Platform := .host
  /-- Schemas and attributes that are marked as deprecated are left out. -/
  ignoreDeprecated : Bool := false
  /-- Markup in the free texts of Markdown documents is escaped. -/
  escapeHtml : Bool := false

/-- A schema that cannot be documented, with its qualified name unless that is empty. -/
structure RenderError where
  problem : Problem
  schema : Option String
deriving DecidableEq

def RenderError.message (e : RenderError) : String :=
  match e.schema with
  | some name => "schema '" ++ name ++ "': " ++ e.problem.message
  | none => e.problem.message

namespace Options

/-- What is told about attributes, with links where `link` gives some. -/
def view (o : Options) (link : Schema → Option String) : View where
  ignoreDeprecated := o.ignoreDeprecated
  link := link

/-- The text of the page of a schema (`render_schema`). -/
def schemaDocument (o : Options) (page : SchemaPage) : String :=
  o.platform.withLineEnds (match o.format with
    | .markdown => Markdown.schemaDocument o.escapeHtml page
    | .html => Html.schemaDocument page)

/-- The text of the index of a package (`render_index`). -/
def indexDocument (o : Options) (page : IndexPage) : String :=
  o.platform.withLineEnds (match o.format with
    | .markdown => Markdown.indexDocument o.escapeHtml page
    | .html => Html.indexDocument page)

/-- The document of a declared schema, if the values that it shows have literals. -/
def document (o : Options) (link : Schema → Option String) (s : Schema) :
    Except RenderError String :=
  let name := if s.qualifiedName.isEmpty then none else some s.qualifiedName
  match s.modelType with
  | none => .error ⟨.unnamed, name⟩
  | some modelType => match s.problem? with
    | some problem => .error ⟨problem, name⟩
    | none => .ok (o.schemaDocument (s.page o.platform (o.view link) modelType))

/-- The document of a schema on its own; none if the schema is deprecated and such schemas are left
out. -/
def documentUnlessIgnored (o : Options) (link : Schema → Option String) (s : Schema) :
    Except RenderError (Option String) :=
  if o.ignoreDeprecated && s.isDeprecated then .ok none else some <$> o.document link s

/-- Why the document of a schema cannot be written. -/
inductive DocumentFault where
  | render (e : RenderError)
  /-- A value that the document shows has no literal. -/
  | literal (fault : Value.LiteralFault)

/-- The first reason why a value that the document of a schema shows has no literal. -/
def literalFault? (o : Options) (s : Schema) : Option Value.LiteralFault :=
  s.literalFault? (o.view fun _ => none)

/-- The document of a schema on its own as it is written (`render_schema_doc`). -/
def written (o : Options) (link : Schema → Option String) (s : Schema) :
    Except DocumentFault (Option String) :=
  match o.documentUnlessIgnored link s with
  | .error e => .error (.render e)
  | .ok none => .ok none
  | .ok (some text) => match o.literalFault? s with
    | some fault => .error (.literal fault)
    | none => .ok (some text)

/-- The file name of the index of a package (`index_filename`). -/
def indexFile (o : Options) : String := "index." ++ o.format.extension

/-- The file name of the document of a schema that is visible under a name (`doc_filename`). -/
def schemaFile (o : Options) (name : String) : String := "doc_" ++ name ++ "." ++ o.format.extension

end Options

end SchemaDocs
