import SchemaDocs.Proofs.Pages
import SchemaDocs.Proofs.Templates

/-!
# The separator of links in documents

A document depends on the separator of its links at the places of these separators only, and holds the separator itself
there (`Options.templated_text`): written with any other separator in its links, and nothing else changed in its page,
the document is the same template, filled with that separator. This holds in both formats and with all options,
whatever the texts of the page are made of.
-/

namespace SchemaDocs

/-! ## Pages with other links -/

mutual

/-- An attribute with other links, in its children as well. -/
def Attribute.relink (f : String → String) : Attribute → Attribute
  | ⟨name, token, required, readOnly, deprecated, description, default, link, children⟩ =>
    ⟨name, token, required, readOnly, deprecated, description, default, link.map f, Attribute.relinks f children⟩

def Attribute.relinks (f : String → String) : List Attribute → List Attribute
  | [] => []
  | a :: rest => a.relink f :: Attribute.relinks f rest

end

theorem Attribute.isEmpty_relinks (f : String → String) (attributes : List Attribute) :
    (relinks f attributes).isEmpty = attributes.isEmpty := by cases attributes <;> rfl

def IndexEntry.relink (f : String → String) (entry : IndexEntry) : IndexEntry := { entry with link := f entry.link }

def PackageLink.relink (f : String → String) (item : PackageLink) : PackageLink := { item with link := f item.link }

/-- The page of a schema with other links: those of its attributes, and the path of its source. -/
def SchemaPage.relink (f : String → String) (page : SchemaPage) : SchemaPage :=
  { page with attributes := Attribute.relinks f page.attributes, sourcePath := f page.sourcePath }

/-- An index with other links: those of its entries and of its sub-packages. -/
def IndexPage.relink (f : String → String) (page : IndexPage) : IndexPage :=
  { page with entries := page.entries.map (IndexEntry.relink f),
              subpackages := page.subpackages.map (PackageLink.relink f) }

/-- A page with other links, and nothing else changed. -/
def Page.relink (f : String → String) : Page → Page
  | .schema page => .schema (page.relink f)
  | .index page => .index (page.relink f)

/-! ## Markdown -/

namespace Markdown

variable {text : Char → String} {texts : Char → List String}

open Templated TemplatedAll

theorem templated_attributeToken (token : String) (link : Option String) :
    Templated fun x => attributeToken token (link.map (separatedBy x)) := by
  cases link with
  | none => exact .const _
  | some link =>
    simp only [attributeToken, Option.map_some, isEmpty_separatedBy]
    exact .ite link.isEmpty (.const _) (((Templated.const _).append (.separatedBy link)).append (.const _))

mutual

theorem templated_attributeText (escape : Bool) :
    ∀ a : Attribute, Templated fun x => attributeText escape (a.relink (separatedBy x))
  | ⟨name, token, required, readOnly, deprecated, description, default, link, children⟩ => by
    have hchildren := templated_attributeTexts escape children
    simp only [Attribute.relink, attributeText, Attribute.isEmpty_relinks, joinBlocks]
    have hhead := TemplatedAll.cons (.const (attributeHead name required readOnly deprecated))
      (TemplatedAll.cons (templated_attributeToken token link) .nil)
    exact (((hhead.append (.const _)).append (.const _)).append
      (.ite children.isEmpty .nil (.cons (hchildren.join _).blockQuote .nil))).join _

theorem templated_attributeTexts (escape : Bool) : ∀ attributes : List Attribute,
    TemplatedAll fun x => attributeTexts escape (Attribute.relinks (separatedBy x) attributes)
  | [] => .nil
  | a :: rest => .cons (templated_attributeText escape a) (templated_attributeTexts escape rest)

end

theorem templated_paragraph (h : Templated text) : Templated fun x => paragraph (text x) :=
  ((Templated.const _).append h).append (.const _)

theorem templated_linkItem (label target : String) : Templated fun x => linkItem label (separatedBy x target) :=
  (Templated.const _).append (((Templated.const _).append (.separatedBy target)).append (.const _))

theorem templated_titled (title : String) (h : TemplatedAll texts) : Templated fun x => titled title (texts x) := by
  obtain ⟨c, hc⟩ := h.exists_isEmpty
  refine .congr (.ite c (.const "") (.append (.const (paragraph title)) h.flatten)) fun x hx => ?_
  rw [titled, hc x hx]

/-- The Markdown document of a schema is a template. -/
theorem templated_schemaDocument (escape : Bool) (page : SchemaPage) :
    Templated fun x => schemaDocument escape (page.relink (separatedBy x)) := by
  have hattributes : TemplatedAll fun x =>
      (attributeTexts escape (Attribute.relinks (separatedBy x) page.attributes)).map paragraph :=
    (templated_attributeTexts escape page.attributes).map templated_paragraph
  delta schemaDocument
  dsimp only [SchemaPage.relink]
  refine .append ?_ (templated_paragraph (templated_linkItem page.sourceLabel page.sourcePath))
  refine .append ?_ (.const _)
  refine .append ?_ (.const _)
  refine .append ?_ (.const _)
  refine .append ?_ (templated_titled _ hattributes)
  exact .append (.const _) (.ite page.description.isEmpty (.const _) (.const _))

theorem templated_indexItem (entry : IndexEntry) :
    Templated fun x => indexItem (entry.relink (separatedBy x)) := by
  delta indexItem
  dsimp only [IndexEntry.relink]
  refine .append (.append ?_ (.ite entry.deprecated (.const _) (.const _))) (.const _)
  exact .append (templated_linkItem entry.name entry.link) (.const _)

theorem templated_indexList (title : String) (h : TemplatedAll texts) :
    Templated fun x => indexList title (texts x) := by
  obtain ⟨c, hc⟩ := h.exists_isEmpty
  refine .congr (templated_titled title (.ite c .nil (.cons (.const "\n") h))) fun x hx => ?_
  rw [indexList, hc x hx]

/-- The Markdown index of a package is a template. -/
theorem templated_indexDocument (escape : Bool) (page : IndexPage) :
    Templated fun x => indexDocument escape (page.relink (separatedBy x)) := by
  have hentries : TemplatedAll fun x => (page.entries.map (IndexEntry.relink (separatedBy x))).map indexItem := by
    simp only [List.map_map]
    exact .map_of templated_indexItem page.entries
  have hsubpackages : TemplatedAll fun x => (page.subpackages.map (PackageLink.relink (separatedBy x))).map
      fun p => linkItem p.name p.link ++ "\n" := by
    have hitem : ∀ item : PackageLink, Templated fun x =>
        linkItem item.name (PackageLink.relink (separatedBy x) item).link ++ "\n" := fun item =>
      .append (templated_linkItem item.name item.link) (.const _)
    simp only [List.map_map]
    exact .map_of hitem page.subpackages
  delta indexDocument
  dsimp only [IndexPage.relink]
  refine .append ?_ (templated_indexList _ hsubpackages)
  refine .append ?_ (templated_indexList _ hentries)
  exact .append (.const _) (.ite page.description.isEmpty (.const _) (.const _))

end Markdown

/-! ## HTML -/

namespace Html

def TemplatedPieces (pieces : Char → List Html) : Prop := Templated fun x => writeAll (pieces x)

namespace TemplatedPieces

variable {pieces more : Char → List Html} {piece : Char → Html}

theorem const (pieces : List Html) : TemplatedPieces fun _ => pieces := Templated.const (writeAll pieces)

theorem append (h : TemplatedPieces pieces) (hm : TemplatedPieces more) :
    TemplatedPieces fun x => pieces x ++ more x :=
  (Templated.append h hm).congr fun x _ => writeAll_append (pieces x) (more x)

theorem cons (h : TemplatedPieces fun x => [piece x]) (hm : TemplatedPieces more) :
    TemplatedPieces fun x => piece x :: more x := by
  have happend := append h hm
  exact happend

theorem ite (c : Bool) (h : TemplatedPieces pieces) (hm : TemplatedPieces more) :
    TemplatedPieces fun x => if c then pieces x else more x := by
  cases c with
  | false => exact hm
  | true => exact h

theorem element (tag : String) (attributes : List (String × String)) (h : TemplatedPieces pieces) :
    TemplatedPieces fun x => [.element tag attributes (pieces x)] := by
  refine .congr (.append (.append (.const (openTag tag attributes)) h) (.const (closeTag tag))) fun x _ => ?_
  rw [writeAll, write, writeAll, String.append_empty]

/-- The target of a link is escaped on its own, so its places stay open. -/
theorem link (target : String) (content : List Html) :
    TemplatedPieces fun x => [Html.link (separatedBy x target) content] := by
  have hattributes : Templated fun x => writeAttributes [("href", separatedBy x target)] :=
    .append (.append (.append (.const (" " ++ "href" ++ "=\"")) (Templated.separatedBy target).escapeMarkup)
      (.const "\"")) (.const "")
  have hopen : Templated fun x => openTag "a" [("href", separatedBy x target)] :=
    .append (.append (.const ("<" ++ "a")) hattributes) (.const ">")
  refine .congr (.append (.append hopen (.const (writeAll content))) (.const (closeTag "a"))) fun x _ => ?_
  rw [writeAll, Html.link, write, writeAll, String.append_empty]

theorem block (tag : String) (h : TemplatedPieces pieces) : TemplatedPieces fun x => [Html.block tag (pieces x)] :=
  .element tag [] (.cons (.const [.text "\n"]) h)

theorem lines_cons (h : TemplatedPieces fun x => [piece x]) (hm : TemplatedPieces fun x => lines (more x)) :
    TemplatedPieces fun x => lines (piece x :: more x) := by
  have happend := append (append h (const [.text "\n"])) hm
  exact happend

theorem lines_append (h : TemplatedPieces fun x => lines (pieces x)) (hm : TemplatedPieces fun x => lines (more x)) :
    TemplatedPieces fun x => lines (pieces x ++ more x) := by
  simp only [lines, List.flatMap_append]
  exact .append h hm

theorem line (h : TemplatedPieces fun x => [piece x]) : TemplatedPieces fun x => lines [piece x] :=
  lines_cons h (.const [])

theorem lines_map {α : Type} {item : Char → α → Html} (h : ∀ a, TemplatedPieces fun x => [item x a]) :
    ∀ items : List α, TemplatedPieces fun x => lines (items.map (item x))
  | [] => .const []
  | a :: rest => lines_cons (h a) (lines_map h rest)

theorem attributeToken (token : String) (target : Option String) :
    TemplatedPieces fun x => [Html.attributeToken token (target.map (separatedBy x))] := by
  cases target with
  | none => exact .const [Html.attributeToken token none]
  | some target =>
    simp only [Html.attributeToken, Option.map_some, isEmpty_separatedBy]
    cases target.isEmpty with
    | false => exact link target [around "code" token]
    | true => exact .const [around "code" token]

end TemplatedPieces

mutual

theorem templated_attributeLines :
    ∀ a : Attribute, TemplatedPieces fun x => lines (attributeLines (a.relink (separatedBy x)))
  | ⟨name, token, required, readOnly, deprecated, description, default, target, children⟩ => by
    have hchildren := (templated_attributeListLines children).block "dl"
    have htoken := TemplatedPieces.element "p" [] (.attributeToken token target)
    simp only [Attribute.relink, attributeLines, Attribute.isEmpty_relinks]
    refine .lines_cons (.const _) (.line (.block "dd" ?_))
    refine .lines_append (.lines_append (.lines_append htoken.line (.const _)) (.const _)) ?_
    cases children.isEmpty with
    | false => exact hchildren.line
    | true => exact .const []

theorem templated_attributeListLines : ∀ attributes : List Attribute,
    TemplatedPieces fun x => lines (attributeListLines (Attribute.relinks (separatedBy x) attributes))
  | [] => .const []
  | a :: rest => .lines_append (templated_attributeLines a) (templated_attributeListLines rest)

end

theorem templated_document (title : String) {body : Char → List Html} (h : TemplatedPieces body) :
    Templated fun x => document title (body x) := by
  have hpieces : TemplatedPieces fun x => lines [block "html" (lines [
      block "head" (lines [.void "meta" [("charset", "utf-8")], around "title" title]), block "body" (body x)])] :=
    .line (.block "html" (.lines_cons (.const _) (.line (.block "body" h))))
  exact Templated.append (.const "<!DOCTYPE html>\n") hpieces

/-- The HTML document of a schema is a template. -/
theorem templated_schemaDocument (page : SchemaPage) :
    Templated fun x => schemaDocument (page.relink (separatedBy x)) := by
  have hlist := (templated_attributeListLines page.attributes).block "dl"
  have hattributes : TemplatedPieces fun x => if (Attribute.relinks (separatedBy x) page.attributes).isEmpty then []
      else lines [around "h3" "Attributes",
        block "dl" (lines (attributeListLines (Attribute.relinks (separatedBy x) page.attributes)))] := by
    simp only [Attribute.isEmpty_relinks]
    exact .ite page.attributes.isEmpty (.const []) (.lines_cons (.const _) hlist.line)
  have hsource := TemplatedPieces.element "li" [] (.link page.sourcePath [.text page.sourceLabel])
  delta schemaDocument
  dsimp only [SchemaPage.relink]
  refine templated_document _ (.append (.append (.append (.append (.const _) ?_) hattributes) ?_) ?_)
  · exact .ite page.description.isEmpty (.const _) (.const _)
  · exact .ite page.examples.isEmpty (.const _) (.const _)
  · exact .lines_cons (.const _) (.line (.block "ul" hsource.line))

theorem templated_indexItem (entry : IndexEntry) :
    TemplatedPieces fun x => [indexItem (entry.relink (separatedBy x))] := by
  obtain ⟨name, target, aliasOf, deprecated⟩ := entry
  delta indexItem
  dsimp only [IndexEntry.relink]
  exact .element "li" [] (.cons (.link target [.text name]) (.const _))

theorem templated_indexList (title : String) {items : Char → List Html} {isEmpty : Bool}
    (hempty : ∀ x, (items x).isEmpty = isEmpty) (h : TemplatedPieces fun x => lines (items x)) :
    TemplatedPieces fun x => indexList title (items x) := by
  simp only [indexList, hempty]
  exact .ite isEmpty (.const []) (.lines_cons (.const _) (.line (.block "ul" h)))

/-- The HTML index of a package is a template. -/
theorem templated_indexDocument (page : IndexPage) :
    Templated fun x => indexDocument (page.relink (separatedBy x)) := by
  have hentries : TemplatedPieces fun x => indexList "Schemas"
      ((page.entries.map (IndexEntry.relink (separatedBy x))).map indexItem) := by
    simp only [List.map_map]
    exact templated_indexList "Schemas" (fun x => List.isEmpty_map) (.lines_map templated_indexItem page.entries)
  have hsubpackages : TemplatedPieces fun x => indexList "Packages"
      ((page.subpackages.map (PackageLink.relink (separatedBy x))).map fun p =>
        .element "li" [] [Html.link p.link [.text p.name]]) := by
    have hitem : ∀ item : PackageLink, TemplatedPieces fun x =>
        [.element "li" [] [Html.link (PackageLink.relink (separatedBy x) item).link [.text item.name]]] := fun item =>
      .element "li" [] (.link item.link [.text item.name])
    simp only [List.map_map]
    exact templated_indexList "Packages" (fun x => List.isEmpty_map) (.lines_map hitem page.subpackages)
  delta indexDocument
  dsimp only [IndexPage.relink]
  refine templated_document _ (.append (.append (.append (.const _) ?_) hentries) hsubpackages)
  exact .ite page.description.isEmpty (.const _) (.const _)

end Html

/-! ## Documents -/

/-- **A document is a template that is filled with the separator of its links.** -/
theorem Options.templated_text (o : Options) (h : o.platform = .unix) (page : Page) :
    Templated fun x => o.text (page.relink (separatedBy x)) := by
  obtain ⟨format, platform, ignoreDeprecated, escapeHtml⟩ := o
  cases h
  cases page with
  | schema page =>
    cases format with
    | markdown => exact (Markdown.templated_schemaDocument escapeHtml page).unifyLineEnds
    | html => exact (Html.templated_schemaDocument page).unifyLineEnds
  | index page =>
    cases format with
    | markdown => exact (Markdown.templated_indexDocument escapeHtml page).unifyLineEnds
    | html => exact (Html.templated_indexDocument page).unifyLineEnds

end SchemaDocs
