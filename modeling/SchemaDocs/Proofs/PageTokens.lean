import SchemaDocs.Document.Basic
import SchemaDocs.Proofs.Markup

/-!
# What pages say in markup

The tags and letters that the page of a schema and the index of a package consist of as HTML documents, in the order
in which they are read. The letters are those of the texts of the page, with the line ends of the platform.

The tags are a function of the shape of a page (`tags_schemaPage`, `tags_indexPage`): of which texts are empty, which
marks are set, which attributes lead somewhere, and how they are nested. A shape is itself a page, one whose texts tell
nothing.
-/

namespace SchemaDocs

namespace Markup

variable (p : Platform)

/-! ## Tokens of a page -/

/-- The letters of a text, with the line ends of the platform. -/
def letters (s : String) : List Token := (p.withLineEnds s).toList.map .letter

/-- An element without attributes. -/
def around (name : String) (inner : List Token) : List Token := .opening name [] :: inner ++ [.closing name]

def linked (target : String) (inner : List Token) : List Token :=
  .opening "a" [("href", p.withLineEnds target)] :: inner ++ [.closing "a"]

def lines (parts : List (List Token)) : List Token := parts.flatMap (· ++ letters p "\n")

/-- An element whose content stands on lines of its own. -/
def block (name : String) (inner : List Token) : List Token := around name (letters p "\n" ++ inner)

def marked (isSet : Bool) (name : String) : List Token :=
  if isSet then letters p " " ++ around "em" (letters p name) else []

/-- What leads somewhere if there is a target. -/
def linkedTo (target : Option String) (inner : List Token) : List Token :=
  match target with
  | none => inner
  | some target => if target.isEmpty then inner else linked p target inner

end Markup

open Markup (Token letters around linked linkedTo lines block marked)

variable (p : Platform)

mutual

def Attribute.tokens : Attribute → List Token
  | ⟨name, token, required, readOnly, deprecated, description, default, target, children⟩ =>
    lines p [
      around "dt" (around "strong" (letters p name) ++ (marked p required "required" ++
        marked p readOnly "readOnly" ++ marked p deprecated "deprecated")),
      block p "dd" (
        lines p [around "p" (linkedTo p target (around "code" (letters p token)))] ++
        (match default with
          | none => []
          | some default => lines p [around "p" (letters p "Default: " ++ around "code" (letters p default))]) ++
        (if description.isEmpty then [] else lines p [around "p" (letters p description)]) ++
        (if children.isEmpty then [] else lines p [block p "dl" (Attribute.tokensOf children)]))]

def Attribute.tokensOf : List Attribute → List Token
  | [] => []
  | a :: rest => a.tokens ++ Attribute.tokensOf rest

end

/-- The lines about an example; an empty line if it tells nothing. -/
def Example.tokens (e : Example) : List Token :=
  if e.summary.isEmpty && e.description.isEmpty && e.value.isEmpty then letters p "\n"
  else
    (if e.summary.isEmpty then [] else lines p [around "h4" (letters p e.summary)]) ++
    (if e.description.isEmpty then [] else lines p [around "p" (letters p e.description)]) ++
    (if e.value.isEmpty then [] else lines p [around "pre" (around "code" (letters p e.value))])

def Markup.documentTokens (title : String) (body : List Token) : List Token :=
  .declaration :: (letters p "\n" ++ lines p [block p "html" (lines p [
    block p "head" (lines p [[.opening "meta" [("charset", "utf-8")]], around "title" (letters p title)]),
    block p "body" body])])

def SchemaPage.tokens (page : SchemaPage) : List Token :=
  Markup.documentTokens p ("Schema " ++ page.name) (
    lines p [around "h2" (letters p ("Schema " ++ page.name))] ++
    (match page.deprecation with
      | none => []
      | some notice => lines p [
          .opening "p" [("class", "deprecated")] :: around "em" (letters p notice) ++ [.closing "p"]]) ++
    (if page.description.isEmpty then [] else lines p [around "p" (letters p page.description)]) ++
    (if page.attributes.isEmpty then []
      else lines p [around "h3" (letters p "Attributes"), block p "dl" (Attribute.tokensOf p page.attributes)]) ++
    (if page.examples.isEmpty then []
      else lines p [around "h3" (letters p "Examples")] ++ page.examples.flatMap (Example.tokens p)) ++
    lines p [around "h2" (letters p "Source Files"),
      block p "ul" (lines p [around "li" (linked p page.sourcePath (letters p page.sourceLabel))])])

def IndexEntry.tokens (entry : IndexEntry) : List Token :=
  around "li" (linked p entry.link (letters p entry.name) ++
    ((match entry.aliasOf with
      | none => []
      | some origin =>
        if origin.isEmpty then []
        else letters p " (re-exported from " ++ (around "code" (letters p origin) ++ letters p ")")) ++
    marked p entry.deprecated "deprecated"))

def PackageLink.tokens (item : PackageLink) : List Token := around "li" (linked p item.link (letters p item.name))

/-- A list in an index, left out if it has no items. -/
def Markup.listTokens (title : String) (items : List (List Token)) : List Token :=
  if items.isEmpty then [] else lines p [around "h2" (letters p title), block p "ul" (lines p items)]

def IndexPage.tokens (page : IndexPage) : List Token :=
  Markup.documentTokens p ("Package " ++ page.name) (
    lines p [around "h1" (letters p ("Package " ++ page.name))] ++
    (if page.description.isEmpty then [] else lines p [around "p" (letters p page.description)]) ++
    Markup.listTokens p "Schemas" (page.entries.map (IndexEntry.tokens p)) ++
    Markup.listTokens p "Packages" (page.subpackages.map (PackageLink.tokens p)))

/-! ## Shapes -/

/-- A text that tells of another one only whether it is empty. -/
def told (s : String) : String := if s.isEmpty then "" else "x"

mutual

/-- The shape of an attribute: which of its texts are not empty, its marks, and the shapes of its children. -/
def Attribute.shape : Attribute → Attribute
  | ⟨_, _, required, readOnly, deprecated, description, default, link, children⟩ =>
    ⟨"", "", required, readOnly, deprecated, told description, default.map fun _ => "", link.map told,
      Attribute.shapes children⟩

def Attribute.shapes : List Attribute → List Attribute
  | [] => []
  | a :: rest => a.shape :: Attribute.shapes rest

end

def Example.shape (e : Example) : Example := ⟨told e.summary, told e.description, told e.value⟩

def SchemaPage.shape (page : SchemaPage) : SchemaPage where
  name := ""
  deprecation := page.deprecation.map fun _ => ""
  description := told page.description
  attributes := Attribute.shapes page.attributes
  examples := page.examples.map Example.shape
  sourceLabel := ""
  sourcePath := ""

def IndexEntry.shape (entry : IndexEntry) : IndexEntry := ⟨"", "", entry.aliasOf.map told, entry.deprecated⟩

def IndexPage.shape (page : IndexPage) : IndexPage where
  name := ""
  description := told page.description
  entries := page.entries.map IndexEntry.shape
  subpackages := page.subpackages.map fun _ => ⟨"", ""⟩

namespace Markup

theorem tags_append (front back : List Token) : tags (front ++ back) = tags front ++ tags back :=
  List.filterMap_append

@[simp]
theorem tags_letters (s : String) : tags (letters p s) = [] := by
  simp [tags, letters, Token.tag?]

@[simp]
theorem isEmpty_told (s : String) : (told s).isEmpty = s.isEmpty := by
  rw [told]
  split
  · next h => rw [h]; rfl
  · next h => rw [Bool.eq_false_iff.2 h]; rfl

@[simp]
theorem tags_nil : tags [] = [] := rfl

@[simp]
theorem tags_opening (name : String) (attributes : List (String × String)) (tokens : List Token) :
    tags (.opening name attributes :: tokens) = .opening name (attributes.map (·.1)) :: tags tokens := rfl

@[simp]
theorem tags_closing (name : String) (tokens : List Token) :
    tags (.closing name :: tokens) = .closing name :: tags tokens := rfl

@[simp]
theorem tags_around (name : String) (inner : List Token) :
    tags (around name inner) = .opening name [] :: tags inner ++ [.closing name] := by
  simp [around, tags_append]

@[simp]
theorem tags_linked (target : String) (inner : List Token) :
    tags (linked p target inner) = .opening "a" ["href"] :: tags inner ++ [.closing "a"] := by
  simp [linked, tags_append]

@[simp]
theorem tags_lines (parts : List (List Token)) : tags (lines p parts) = parts.flatMap tags := by
  induction parts with
  | nil => rfl
  | cons part rest ih => simpa [lines, tags_append] using ih

@[simp]
theorem tags_block (name : String) (inner : List Token) :
    tags (block p name inner) = .opening name [] :: tags inner ++ [.closing name] := by
  simp [block, tags_append]

@[simp]
theorem tags_marked (isSet : Bool) (name : String) :
    tags (marked p isSet name) = if isSet then [.opening "em" [], .closing "em"] else [] := by
  cases isSet with
  | false => rfl
  | true => simp [marked, tags_append]

/-- The tags of a link depend on whether there is one, and not on where it leads. -/
theorem tags_linkedTo (q : Platform) (target : Option String) {inner inner' : List Token}
    (h : tags inner = tags inner') : tags (linkedTo p target inner) = tags (linkedTo q (target.map told) inner') := by
  cases target with
  | none => exact h
  | some target =>
    simp only [linkedTo, Option.map_some, isEmpty_told]
    split
    · exact h
    · rw [tags_linked, tags_linked, h]

variable (q : Platform)

mutual

theorem tags_attribute : ∀ a : Attribute, tags (a.tokens p) = tags (a.shape.tokens q)
  | ⟨name, token, required, readOnly, deprecated, description, default, target, children⟩ => by
    have htarget : tags (linkedTo p target (around "code" (letters p token))) =
        tags (linkedTo q (target.map told) (around "code" (letters q ""))) := tags_linkedTo p q target (by simp)
    have hempty : (Attribute.shapes children).isEmpty = children.isEmpty := by cases children <;> rfl
    simp only [Attribute.tokens, Attribute.shape, isEmpty_told, hempty]
    cases default <;> cases description.isEmpty <;> cases children.isEmpty <;>
      simp [tags_append, htarget, tags_attributes children]

theorem tags_attributes : ∀ attributes : List Attribute,
    tags (Attribute.tokensOf p attributes) = tags (Attribute.tokensOf q (Attribute.shapes attributes))
  | [] => rfl
  | a :: rest => by
    rw [Attribute.tokensOf, Attribute.shapes, Attribute.tokensOf, tags_append, tags_append, tags_attribute a,
      tags_attributes rest]

end

theorem tags_example (e : Example) : tags (e.tokens p) = tags (e.shape.tokens q) := by
  obtain ⟨summary, description, value⟩ := e
  simp only [Example.tokens, Example.shape, isEmpty_told]
  cases summary.isEmpty <;> cases description.isEmpty <;> cases value.isEmpty <;> simp [tags_append]

theorem tags_examples (examples : List Example) : tags (examples.flatMap (Example.tokens p)) =
    tags ((examples.map Example.shape).flatMap (Example.tokens q)) := by
  induction examples with
  | nil => rfl
  | cons e rest ih =>
    rw [List.flatMap_cons, List.map_cons, List.flatMap_cons, tags_append, tags_append, tags_example p q e, ih]

theorem tags_documentTokens (title : String) (body : List Token) : tags (documentTokens p title body) =
    [.declaration, .opening "html" [], .opening "head" [], .opening "meta" ["charset"], .opening "title" [],
      .closing "title", .closing "head", .opening "body" []] ++ tags body ++ [.closing "body", .closing "html"] := by
  have hdeclaration (tokens : List Token) : tags (.declaration :: tokens) = .declaration :: tags tokens := rfl
  rw [documentTokens, hdeclaration, tags_append]
  simp

/-- **The tags of the page of a schema are a function of its shape.** -/
theorem tags_schemaPage (page : SchemaPage) : tags (page.tokens p) = tags (page.shape.tokens q) := by
  obtain ⟨name, deprecation, description, attributes, examples, label, path⟩ := page
  have hattributes : (Attribute.shapes attributes).isEmpty = attributes.isEmpty := by cases attributes <;> rfl
  simp only [SchemaPage.tokens, SchemaPage.shape, tags_documentTokens, isEmpty_told, hattributes, List.isEmpty_map]
  cases deprecation <;> cases description.isEmpty <;> cases attributes.isEmpty <;> cases examples.isEmpty <;>
    simp [tags_append, tags_attributes p q attributes, tags_examples p q examples]

theorem tags_indexEntry (entry : IndexEntry) : tags (entry.tokens p) = tags (entry.shape.tokens q) := by
  obtain ⟨name, target, aliasOf, deprecated⟩ := entry
  cases aliasOf with
  | none => simp [IndexEntry.tokens, IndexEntry.shape, tags_append]
  | some origin =>
    simp only [IndexEntry.tokens, IndexEntry.shape, Option.map_some, isEmpty_told]
    cases origin.isEmpty <;> simp [tags_append]

theorem tags_packageLink (item item' : PackageLink) : tags (item.tokens p) = tags (item'.tokens q) := by
  simp [PackageLink.tokens]

theorem tags_listTokens {title : String} {items items' : List (List Token)} (h : items.map tags = items'.map tags) :
    tags (listTokens p title items) = tags (listTokens q title items') := by
  have hempty : items.isEmpty = items'.isEmpty := by rw [← List.isEmpty_map (f := tags), h, List.isEmpty_map]
  simp only [listTokens, hempty]
  split
  · rfl
  · simp [List.flatMap_def, h]

/-- **The tags of an index are a function of its shape.** -/
theorem tags_indexPage (page : IndexPage) : tags (page.tokens p) = tags (page.shape.tokens q) := by
  obtain ⟨name, description, entries, subpackages⟩ := page
  have hentries : tags (listTokens p "Schemas" (entries.map (IndexEntry.tokens p))) =
      tags (listTokens q "Schemas" ((entries.map IndexEntry.shape).map (IndexEntry.tokens q))) := by
    apply tags_listTokens
    simp only [List.map_map, List.map_inj_left, Function.comp_apply]
    exact fun entry _ => tags_indexEntry p q entry
  have hsubpackages : tags (listTokens p "Packages" (subpackages.map (PackageLink.tokens p))) =
      tags (listTokens q "Packages" ((subpackages.map fun _ => ⟨"", ""⟩).map (PackageLink.tokens q))) := by
    apply tags_listTokens
    simp only [List.map_map, List.map_inj_left, Function.comp_apply]
    exact fun item _ => tags_packageLink p q item _
  simp only [IndexPage.tokens, IndexPage.shape, tags_documentTokens, isEmpty_told]
  cases description.isEmpty <;> simp [tags_append, hentries, hsubpackages]

end Markup

end SchemaDocs
