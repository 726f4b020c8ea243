import SchemaDocs.Proofs.Pages
import SchemaDocs.Proofs.TidyLines

/-!
# Tidy pages

A page is tidy if all of its texts are, those of its attributes at every depth among them. The document of a tidy page
is tidy before its line ends are settled, in either format (`Page.isTidy_content`): every text of a page stands behind
a fixed text, so that no carriage returns meet.
-/

namespace SchemaDocs

open Text (IsTidy IsNeat IsFixed isNeat_empty isNeat_ite isNeat_fixed_append)

/-! ## The texts of a page -/

mutual

/-- The texts of an attribute, and of those below it. -/
def Attribute.texts : Attribute → List String
  | ⟨name, token, _, _, _, description, default, link, children⟩ =>
    [name, token, description] ++ default.toList ++ link.toList ++ Attribute.textsOf children

def Attribute.textsOf : List Attribute → List String
  | [] => []
  | a :: rest => a.texts ++ Attribute.textsOf rest

end

def Example.texts (e : Example) : List String := [e.summary, e.description, e.value]

def SchemaPage.texts (page : SchemaPage) : List String :=
  [page.name, page.description, page.sourceLabel, page.sourcePath] ++ page.deprecation.toList ++
    Attribute.textsOf page.attributes ++ page.examples.flatMap Example.texts

def IndexEntry.texts (entry : IndexEntry) : List String := [entry.name, entry.link] ++ entry.aliasOf.toList

def IndexPage.texts (page : IndexPage) : List String :=
  [page.name, page.description] ++ page.entries.flatMap IndexEntry.texts ++
    page.subpackages.flatMap fun item => [item.name, item.link]

def Page.texts : Page → List String
  | .schema page => page.texts
  | .index page => page.texts

def Page.IsTidy (page : Page) : Prop := ∀ s ∈ page.texts, Text.IsTidy s

/-! ## Markdown -/

namespace Markdown

theorem isTidy_attributeHead {name : String} (h : IsTidy name) (required readOnly deprecated : Bool) :
    IsTidy (attributeHead name required readOnly deprecated) := by
  have hmark (isSet : Bool) {s : String} (hs : IsNeat s) : IsNeat (if isSet then s else "") :=
    isNeat_ite hs isNeat_empty
  have hname : IsNeat ("**" ++ name ++ "**") := (isNeat_fixed_append (by decide) h).append (by decide)
  exact ((hname.append (hmark _ (by decide))).append (hmark _ (by decide))).append (hmark _ (by decide)) |>.1

theorem isTidy_attributeToken {token : String} (h : IsTidy token) {link : Option String}
    (hlink : ∀ target ∈ link, IsTidy target) : IsTidy (attributeToken token link) := by
  have hcode : IsNeat ("`" ++ token ++ "`") := (isNeat_fixed_append (by decide) h).append (by decide)
  cases link with
  | none => exact hcode.1
  | some target =>
    rw [attributeToken]
    split
    · exact hcode.1
    · have hlabel := isNeat_fixed_append (c := "[") (by decide) hcode.1
      exact ((hlabel.behind (by decide) (hlink target rfl)).append (by decide)).1

mutual

theorem isTidy_attributeText (escape : Bool) : ∀ {a : Attribute}, (∀ s ∈ a.texts, IsTidy s) →
    IsTidy (attributeText escape a)
  | ⟨name, token, required, readOnly, deprecated, description, default, link, children⟩, h => by
    simp only [Attribute.texts, List.forall_mem_append, List.forall_mem_cons, Option.mem_toList] at h
    obtain ⟨⟨⟨⟨hname, htoken, hdescription, -⟩, hdefault⟩, hlink⟩, hchildren⟩ := h
    simp only [attributeText]
    apply isTidy_joinBlocks
    simp only [List.forall_mem_append, List.forall_mem_cons]
    refine ⟨⟨⟨⟨isTidy_attributeHead hname _ _ _, isTidy_attributeToken htoken hlink, by simp⟩, ?_⟩, ?_⟩, ?_⟩
    · cases default with
      | none => simp
      | some default =>
        have hline := isNeat_fixed_append (c := "Default: `") (by decide) (hdefault default rfl)
        exact List.forall_mem_singleton.2 (hline.append (by decide)).1
    · split
      · simp
      · exact List.forall_mem_singleton.2 (isTidy_freeText hdescription)
    · split
      · simp
      · exact List.forall_mem_singleton.2
          (isTidy_blockQuote (isTidy_joinBlocks (isTidy_attributeTexts escape hchildren)))

theorem isTidy_attributeTexts (escape : Bool) : ∀ {attributes : List Attribute},
    (∀ s ∈ Attribute.textsOf attributes, IsTidy s) → ∀ s ∈ attributeTexts escape attributes, IsTidy s
  | [], _ => by simp [attributeTexts]
  | a :: rest, h => by
    rw [Attribute.textsOf, List.forall_mem_append] at h
    rw [attributeTexts, List.forall_mem_cons]
    exact ⟨isTidy_attributeText escape h.1, isTidy_attributeTexts escape h.2⟩

end

theorem isTidy_exampleText (escape : Bool) {e : Example} (h : ∀ s ∈ e.texts, IsTidy s) :
    IsTidy (exampleText escape e) := by
  simp only [Example.texts, List.forall_mem_cons] at h
  obtain ⟨hsummary, hdescription, hvalue, -⟩ := h
  apply isTidy_joinBlocks
  simp only [List.forall_mem_append]
  refine ⟨⟨?_, ?_⟩, ?_⟩
  · split
    · simp
    · exact List.forall_mem_singleton.2 (isNeat_fixed_append (by decide) (isTidy_freeText hsummary)).1
  · split
    · simp
    · exact List.forall_mem_singleton.2 (isTidy_freeText hdescription)
  · split
    · simp
    · have hcode := isNeat_fixed_append (c := "```python\n") (by decide) hvalue
      exact List.forall_mem_singleton.2 (hcode.append (by decide)).1

theorem isNeat_paragraph {s : String} (h : IsTidy s) : IsNeat (paragraph s) :=
  (isNeat_fixed_append (by decide) h).append (by decide)

theorem isNeat_linkItem {label target : String} (hlabel : IsTidy label) (htarget : IsTidy target) :
    IsNeat (linkItem label target) := by
  have hitem : linkItem label target = "- [" ++ label ++ "](" ++ target ++ ")" := by
    simp [linkItem, link, ← String.append_assoc]
  rw [hitem]
  exact ((isNeat_fixed_append (by decide) hlabel).behind (by decide) htarget).append (by decide)

theorem isNeat_titled {title : String} (h : IsTidy title) {parts : List String} (hparts : ∀ s ∈ parts, IsNeat s) :
    IsNeat (titled title parts) := by
  rw [titled]
  split
  · exact isNeat_empty
  · exact (isNeat_paragraph h).append (Text.isNeat_join_parts hparts)

theorem isNeat_deprecation (escape : Bool) (deprecation : Option String) : (∀ s ∈ deprecation, IsTidy s) →
    IsNeat (match deprecation with
      | none => ""
      | some notice => paragraph ("*" ++ freeText escape notice ++ "*")) := by
  intro h
  cases deprecation with
  | none => exact isNeat_empty
  | some notice =>
    have hnotice : IsTidy (freeText escape notice) := isTidy_freeText (h notice rfl)
    have hline := isNeat_fixed_append (c := "*") (by decide) hnotice
    exact isNeat_paragraph (hline.append (by decide)).1

/-- The Markdown document of a tidy page is tidy. -/
theorem isNeat_schemaDocument (escape : Bool) {page : SchemaPage} (h : ∀ s ∈ page.texts, IsTidy s) :
    IsNeat (schemaDocument escape page) := by
  simp only [SchemaPage.texts, List.forall_mem_append, List.forall_mem_cons, Option.mem_toList] at h
  obtain ⟨⟨⟨⟨hname, hdescription, hlabel, hpath, -⟩, hdeprecation⟩, hattributes⟩, hexamples⟩ := h
  have hhead : IsNeat ("## Schema " ++ page.name ++ "\n") :=
    (isNeat_fixed_append (by decide) hname).append (by decide)
  have hnotice := isNeat_deprecation escape page.deprecation hdeprecation
  have hintro : IsNeat (if page.description.isEmpty then "" else paragraph (freeText escape page.description)) :=
    isNeat_ite isNeat_empty (isNeat_paragraph (isTidy_freeText hdescription))
  have hlist : IsNeat (titled "### Attributes" ((attributeTexts escape page.attributes).map paragraph)) := by
    refine isNeat_titled (by decide) (List.forall_mem_map.2 fun s hs => isNeat_paragraph ?_)
    exact isTidy_attributeTexts escape hattributes s hs
  have hshown : IsNeat (titled "### Examples" (page.examples.map fun e => paragraph (exampleText escape e))) := by
    refine isNeat_titled (by decide) (List.forall_mem_map.2 fun e he => isNeat_paragraph (isTidy_exampleText escape ?_))
    exact fun s hs => hexamples s (List.mem_flatMap.2 ⟨e, he, hs⟩)
  have hsource := isNeat_paragraph (isNeat_linkItem hlabel hpath).1
  delta schemaDocument
  exact ((((((hhead.append hnotice).append hintro).append hlist).append hshown).append (by decide)).append
    (isNeat_paragraph (by decide))).append hsource

theorem isNeat_aliasOf (aliasOf : Option String) : (∀ s ∈ aliasOf, IsTidy s) →
    IsNeat (match aliasOf with
      | none => ""
      | some origin => if origin.isEmpty then "" else " (re-exported from `" ++ origin ++ "`)") := by
  intro h
  cases aliasOf with
  | none => exact isNeat_empty
  | some origin => exact isNeat_ite isNeat_empty ((isNeat_fixed_append (by decide) (h origin rfl)).append (by decide))

theorem isNeat_indexItem {entry : IndexEntry} (h : ∀ s ∈ entry.texts, IsTidy s) : IsNeat (indexItem entry) := by
  simp only [IndexEntry.texts, List.forall_mem_append, List.forall_mem_cons, Option.mem_toList] at h
  obtain ⟨⟨hname, hlink, -⟩, horigin⟩ := h
  have halias := isNeat_aliasOf entry.aliasOf horigin
  have hmark : IsNeat (if entry.deprecated then " *deprecated*" else "") := by split <;> decide
  delta indexItem
  exact (((isNeat_linkItem hname hlink).append halias).append hmark).append (by decide)

theorem isNeat_indexList {title : String} (h : IsTidy title) {items : List String} (hitems : ∀ s ∈ items, IsNeat s) :
    IsNeat (indexList title items) := by
  apply isNeat_titled h
  split
  · simp
  · exact List.forall_mem_cons.2 ⟨by decide, hitems⟩

/-- The Markdown index of a tidy page is tidy. -/
theorem isNeat_indexDocument (escape : Bool) {page : IndexPage} (h : ∀ s ∈ page.texts, IsTidy s) :
    IsNeat (indexDocument escape page) := by
  simp only [IndexPage.texts, List.forall_mem_append, List.forall_mem_cons, List.mem_flatMap] at h
  obtain ⟨⟨⟨hname, hdescription, -⟩, hentries⟩, hsubpackages⟩ := h
  have hhead : IsNeat ("# Package " ++ page.name ++ "\n") :=
    (isNeat_fixed_append (by decide) hname).append (by decide)
  have hintro : IsNeat (if page.description.isEmpty then "" else paragraph (freeText escape page.description)) :=
    isNeat_ite isNeat_empty (isNeat_paragraph (isTidy_freeText hdescription))
  have hschemas : IsNeat (indexList "## Schemas" (page.entries.map indexItem)) :=
    isNeat_indexList (by decide) (List.forall_mem_map.2 fun entry he =>
      isNeat_indexItem fun s hs => hentries s ⟨entry, he, hs⟩)
  have hpackages : IsNeat (indexList "## Packages" (page.subpackages.map fun p => linkItem p.name p.link ++ "\n")) := by
    refine isNeat_indexList (by decide) (List.forall_mem_map.2 fun item hi => ?_)
    have hitem : IsNeat (linkItem item.name item.link) :=
      isNeat_linkItem (hsubpackages _ ⟨item, hi, by simp⟩) (hsubpackages _ ⟨item, hi, by simp⟩)
    exact hitem.append (by decide)
  delta indexDocument
  exact ((hhead.append hintro).append hschemas).append hpackages

end Markdown

/-! ## HTML -/

namespace Html

theorem isNeat_writeAttributes : ∀ {attributes : List (String × String)},
    (∀ a ∈ attributes, IsNeat a.1 ∧ IsTidy a.2) → IsNeat (writeAttributes attributes)
  | [], _ => isNeat_empty
  | (name, value) :: rest, h => by
    obtain ⟨⟨hname, hvalue⟩, hrest⟩ := List.forall_mem_cons.1 h
    have hfront : IsNeat (" " ++ name) := IsNeat.append (by decide) hname
    exact ((hfront.behind (by decide) hvalue.escapeMarkup).append (by decide)).append (isNeat_writeAttributes hrest)

/-- **An element is neat if its content is tidy**: tags begin and end with fixed texts. -/
theorem isNeat_element {tag : String} (htag : IsNeat tag) {attributes : List (String × String)}
    (hattributes : ∀ a ∈ attributes, IsNeat a.1 ∧ IsTidy a.2) {content : List Html} (h : IsTidy (writeAll content)) :
    IsNeat (write (.element tag attributes content)) := by
  have hopen : IsNeat ("<" ++ tag ++ writeAttributes attributes) :=
    (IsNeat.append (by decide) htag).append (isNeat_writeAttributes hattributes)
  have hclose : IsNeat (closeTag tag) := (IsNeat.append (by decide) htag).append (by decide)
  rw [write, openTag]
  exact (hopen.behind (by decide) h).append hclose

def AreNeat (pieces : List Html) : Prop := ∀ piece ∈ pieces, IsNeat (write piece)

theorem areNeat_nil : AreNeat [] := fun _ h => absurd h List.not_mem_nil

theorem areNeat_cons {piece : Html} {pieces : List Html} (h : IsNeat (write piece)) (hp : AreNeat pieces) :
    AreNeat (piece :: pieces) := List.forall_mem_cons.2 ⟨h, hp⟩

theorem areNeat_text (s : String) (h : IsNeat (write (.text s))) {pieces : List Html} (hp : AreNeat pieces) :
    AreNeat (.text s :: pieces) := areNeat_cons h hp

theorem AreNeat.append {front back : List Html} (h : AreNeat front) (hb : AreNeat back) : AreNeat (front ++ back) :=
  List.forall_mem_append.2 ⟨h, hb⟩

theorem areNeat_ite {c : Bool} {pieces : List Html} (h : AreNeat pieces) : AreNeat (if c then [] else pieces) := by
  split
  · exact areNeat_nil
  · exact h

theorem AreNeat.isNeat : ∀ {pieces : List Html}, AreNeat pieces → IsNeat (writeAll pieces)
  | [], _ => isNeat_empty
  | piece :: pieces, h => by
    rw [AreNeat, List.forall_mem_cons] at h
    exact h.1.append (AreNeat.isNeat h.2)

theorem AreNeat.lines {pieces : List Html} (h : AreNeat pieces) : AreNeat (lines pieces) := by
  intro piece hpiece
  obtain ⟨line, hline, hpiece⟩ := List.mem_flatMap.1 hpiece
  exact areNeat_cons (h line hline) (areNeat_text "\n" (by decide) areNeat_nil) piece hpiece

theorem isTidy_text {s : String} (h : IsTidy s) : IsTidy (writeAll [.text s]) := by
  rw [writeAll, write, writeAll, String.append_empty]
  exact h.escapeMarkup

theorem isNeat_around {tag s : String} (htag : IsNeat tag) (h : IsTidy s) : IsNeat (write (around tag s)) :=
  isNeat_element htag (by simp) (isTidy_text h)

theorem isNeat_link {target : String} (htarget : IsTidy target) {content : List Html} (h : IsTidy (writeAll content)) :
    IsNeat (write (link target content)) :=
  isNeat_element (by decide) (List.forall_mem_singleton.2 ⟨(by decide : IsNeat "href"), htarget⟩) h

theorem isNeat_block {tag : String} (htag : IsNeat tag) {content : List Html} (h : AreNeat content) :
    IsNeat (write (block tag content)) :=
  isNeat_element htag (by simp) (areNeat_text "\n" (by decide) h).isNeat.1

theorem areNeat_mark (isSet : Bool) {name : String} (h : IsTidy name) : AreNeat (mark isSet name) := by
  rw [mark]
  split
  · exact areNeat_text " " (by decide) (areNeat_cons (isNeat_around (by decide) h) areNeat_nil)
  · exact areNeat_nil

theorem isNeat_attributeToken {token : String} (h : IsTidy token) {link : Option String}
    (hlink : ∀ target ∈ link, IsTidy target) : IsNeat (write (attributeToken token link)) := by
  have hcode : IsNeat (write (around "code" token)) := isNeat_around (by decide) h
  cases link with
  | none => exact hcode
  | some target =>
    rw [attributeToken]
    split
    · exact hcode
    · exact isNeat_link (hlink target rfl) (areNeat_cons hcode areNeat_nil).isNeat.1

theorem areNeat_default (default : Option String) : (∀ s ∈ default, IsTidy s) →
    AreNeat (match default with
      | none => []
      | some default => [.element "p" [] [.text "Default: ", around "code" default]]) := by
  intro h
  cases default with
  | none => exact areNeat_nil
  | some default =>
    refine areNeat_cons (isNeat_element (by decide) (by simp) (AreNeat.isNeat ?_).1) areNeat_nil
    exact areNeat_text "Default: " (by decide)
      (areNeat_cons (isNeat_around (by decide) (h default rfl)) areNeat_nil)

mutual

theorem areNeat_attributeLines : ∀ {a : Attribute}, (∀ s ∈ a.texts, IsTidy s) → AreNeat (attributeLines a)
  | ⟨name, token, required, readOnly, deprecated, description, default, link, children⟩, h => by
    simp only [Attribute.texts, List.forall_mem_append, List.forall_mem_cons, Option.mem_toList] at h
    obtain ⟨⟨⟨⟨hname, htoken, hdescription, -⟩, hdefault⟩, hlink⟩, hchildren⟩ := h
    have hhead : AreNeat (around "strong" name :: (mark required "required" ++ mark readOnly "readOnly" ++
        mark deprecated "deprecated")) :=
      areNeat_cons (isNeat_around (by decide) hname) (((areNeat_mark _ (by decide)).append
        (areNeat_mark _ (by decide))).append (areNeat_mark _ (by decide)))
    have htype : AreNeat [.element "p" [] [attributeToken token link]] :=
      areNeat_cons (isNeat_element (by decide) (by simp)
        (areNeat_cons (isNeat_attributeToken htoken hlink) areNeat_nil).isNeat.1) areNeat_nil
    have htext : AreNeat (if description.isEmpty then [] else [around "p" description]) :=
      areNeat_ite (areNeat_cons (isNeat_around (by decide) hdescription) areNeat_nil)
    have hbelow : AreNeat (if children.isEmpty then [] else [block "dl" (lines (attributeListLines children))]) :=
      areNeat_ite (areNeat_cons (isNeat_block (by decide) (areNeat_attributeListLines hchildren).lines) areNeat_nil)
    simp only [attributeLines]
    refine areNeat_cons (isNeat_element (by decide) (by simp) hhead.isNeat.1) (areNeat_cons ?_ areNeat_nil)
    have htold := ((htype.append (areNeat_default default hdefault)).append htext).append hbelow
    exact isNeat_block (by decide) htold.lines

theorem areNeat_attributeListLines : ∀ {attributes : List Attribute},
    (∀ s ∈ Attribute.textsOf attributes, IsTidy s) → AreNeat (attributeListLines attributes)
  | [], _ => areNeat_nil
  | a :: rest, h => by
    rw [Attribute.textsOf, List.forall_mem_append] at h
    rw [attributeListLines]
    exact (areNeat_attributeLines h.1).append (areNeat_attributeListLines h.2)

end

theorem areNeat_exampleText {e : Example} (h : ∀ s ∈ e.texts, IsTidy s) : AreNeat (exampleText e) := by
  simp only [Example.texts, List.forall_mem_cons] at h
  obtain ⟨hsummary, hdescription, hvalue, -⟩ := h
  have hcode : IsNeat (write (.element "pre" [] [around "code" e.value])) :=
    isNeat_element (by decide) (by simp) (areNeat_cons (isNeat_around (by decide) hvalue) areNeat_nil).isNeat.1
  have hlines : AreNeat (exampleLines e) :=
    ((areNeat_ite (areNeat_cons (isNeat_around (by decide) hsummary) areNeat_nil)).append
      (areNeat_ite (areNeat_cons (isNeat_around (by decide) hdescription) areNeat_nil))).append
      (areNeat_ite (areNeat_cons hcode areNeat_nil))
  rw [exampleText]
  split
  · exact areNeat_text "\n" (by decide) areNeat_nil
  · exact hlines.lines

theorem isNeat_document {title : String} (h : IsTidy title) {body : List Html} (hbody : AreNeat body) :
    IsNeat (document title body) := by
  have hmeta : IsNeat (write (.void "meta" [("charset", "utf-8")])) := by decide
  have htitle : IsNeat (write (around "title" title)) := isNeat_around (by decide) h
  have hhead : IsNeat (write (block "head" _)) :=
    isNeat_block (by decide) (areNeat_cons hmeta (areNeat_cons htitle areNeat_nil)).lines
  have hbody : IsNeat (write (block "body" body)) := isNeat_block (by decide) hbody
  have hhtml : IsNeat (write (block "html" _)) :=
    isNeat_block (by decide) (areNeat_cons hhead (areNeat_cons hbody areNeat_nil)).lines
  exact IsNeat.append (by decide) (areNeat_cons hhtml areNeat_nil).lines.isNeat

theorem areNeat_titled {tag title : String} (htag : IsNeat tag) (h : IsTidy title) {body : Html}
    (hbody : IsNeat (write body)) : AreNeat (lines [around tag title, body]) :=
  (areNeat_cons (isNeat_around htag h) (areNeat_cons hbody areNeat_nil)).lines

/-- The HTML document of a tidy page is tidy. -/
theorem isNeat_schemaDocument {page : SchemaPage} (h : ∀ s ∈ page.texts, IsTidy s) :
    IsNeat (schemaDocument page) := by
  simp only [SchemaPage.texts, List.forall_mem_append, List.forall_mem_cons, Option.mem_toList] at h
  obtain ⟨⟨⟨⟨hname, hdescription, hlabel, hpath, -⟩, hdeprecation⟩, hattributes⟩, hexamples⟩ := h
  have htitle : IsTidy ("Schema " ++ page.name) := (isNeat_fixed_append (by decide) hname).1
  have hhead : AreNeat (lines [around "h2" ("Schema " ++ page.name)]) :=
    (areNeat_cons (isNeat_around (by decide) htitle) areNeat_nil).lines
  have hnotice : AreNeat (match page.deprecation with
      | none => []
      | some notice => lines [.element "p" [("class", "deprecated")] [around "em" notice]]) := by
    cases hd : page.deprecation with
    | none => exact areNeat_nil
    | some notice =>
      refine (areNeat_cons (isNeat_element (by decide) (by decide) (AreNeat.isNeat ?_).1) areNeat_nil).lines
      exact areNeat_cons (isNeat_around (by decide) (hdeprecation notice hd)) areNeat_nil
  have hintro : AreNeat (if page.description.isEmpty then [] else lines [around "p" page.description]) :=
    areNeat_ite (areNeat_cons (isNeat_around (by decide) hdescription) areNeat_nil).lines
  have hlist : AreNeat (if page.attributes.isEmpty then []
      else lines [around "h3" "Attributes", block "dl" (lines (attributeListLines page.attributes))]) :=
    areNeat_ite (areNeat_titled (by decide) (by decide)
      (isNeat_block (by decide) (areNeat_attributeListLines hattributes).lines))
  have hshown : AreNeat (if page.examples.isEmpty then []
      else lines [around "h3" "Examples"] ++ page.examples.flatMap exampleText) := by
    refine areNeat_ite ((areNeat_cons (isNeat_around (by decide) (by decide)) areNeat_nil).lines.append ?_)
    intro piece hpiece
    obtain ⟨e, he, hpiece⟩ := List.mem_flatMap.1 hpiece
    exact areNeat_exampleText (fun s hs => hexamples s (List.mem_flatMap.2 ⟨e, he, hs⟩)) piece hpiece
  have hlink : IsNeat (write (link page.sourcePath [.text page.sourceLabel])) :=
    isNeat_link hpath (isTidy_text hlabel)
  have hitem : IsNeat (write (.element "li" [] [link page.sourcePath [.text page.sourceLabel]])) :=
    isNeat_element (by decide) (by simp) (areNeat_cons hlink areNeat_nil).isNeat.1
  have hsource : AreNeat (lines [around "h2" "Source Files", block "ul" _]) :=
    areNeat_titled (by decide) (by decide) (isNeat_block (by decide) (areNeat_cons hitem areNeat_nil).lines)
  delta schemaDocument
  exact isNeat_document htitle (((((hhead.append hnotice).append hintro).append hlist).append hshown).append hsource)

theorem isNeat_indexItem {entry : IndexEntry} (h : ∀ s ∈ entry.texts, IsTidy s) : IsNeat (write (indexItem entry)) := by
  simp only [IndexEntry.texts, List.forall_mem_append, List.forall_mem_cons, Option.mem_toList] at h
  obtain ⟨⟨hname, hlink, -⟩, horigin⟩ := h
  have hname : IsNeat (write (link entry.link [.text entry.name])) := isNeat_link hlink (isTidy_text hname)
  have halias : AreNeat (match entry.aliasOf with
      | none => []
      | some origin =>
        if origin.isEmpty then []
        else [.text " (re-exported from ", around "code" origin, .text ")"]) := by
    cases ha : entry.aliasOf with
    | none => exact areNeat_nil
    | some origin =>
      refine areNeat_ite (areNeat_text " (re-exported from " (by decide) ?_)
      exact areNeat_cons (isNeat_around (by decide) (horigin origin ha))
        (areNeat_text ")" (by decide) areNeat_nil)
  delta indexItem
  exact isNeat_element (by decide) (by simp)
    (areNeat_cons hname (halias.append (areNeat_mark _ (by decide)))).isNeat.1

theorem areNeat_indexList {title : String} (h : IsTidy title) {items : List Html} (hitems : AreNeat items) :
    AreNeat (indexList title items) :=
  areNeat_ite (areNeat_titled (by decide) h (isNeat_block (by decide) hitems.lines))

/-- The HTML index of a tidy page is tidy. -/
theorem isNeat_indexDocument {page : IndexPage} (h : ∀ s ∈ page.texts, IsTidy s) : IsNeat (indexDocument page) := by
  simp only [IndexPage.texts, List.forall_mem_append, List.forall_mem_cons, List.mem_flatMap] at h
  obtain ⟨⟨⟨hname, hdescription, -⟩, hentries⟩, hsubpackages⟩ := h
  have htitle : IsTidy ("Package " ++ page.name) := (isNeat_fixed_append (by decide) hname).1
  have hhead : AreNeat (lines [around "h1" ("Package " ++ page.name)]) :=
    (areNeat_cons (isNeat_around (by decide) htitle) areNeat_nil).lines
  have hintro : AreNeat (if page.description.isEmpty then [] else lines [around "p" page.description]) :=
    areNeat_ite (areNeat_cons (isNeat_around (by decide) hdescription) areNeat_nil).lines
  have hschemas : AreNeat (indexList "Schemas" (page.entries.map indexItem)) :=
    areNeat_indexList (by decide) (List.forall_mem_map.2 fun entry he =>
      isNeat_indexItem fun s hs => hentries s ⟨entry, he, hs⟩)
  have hpackages : AreNeat (indexList "Packages" (page.subpackages.map fun p =>
      .element "li" [] [link p.link [.text p.name]])) := by
    refine areNeat_indexList (by decide) (List.forall_mem_map.2 fun item hi => ?_)
    have hitem : IsNeat (write (link item.link [.text item.name])) :=
      isNeat_link (hsubpackages _ ⟨item, hi, by simp⟩) (isTidy_text (hsubpackages item.name ⟨item, hi, by simp⟩))
    exact isNeat_element (by decide) (by simp) (areNeat_cons hitem areNeat_nil).isNeat.1
  delta indexDocument
  exact isNeat_document htitle (((hhead.append hintro).append hschemas).append hpackages)

end Html

/-! ## Documents -/

/-- The text of a page before its line ends are settled. -/
def Page.content (o : Options) : Page → String
  | .schema page => match o.format with
    | .markdown => Markdown.schemaDocument o.escapeHtml page
    | .html => Html.schemaDocument page
  | .index page => match o.format with
    | .markdown => Markdown.indexDocument o.escapeHtml page
    | .html => Html.indexDocument page

theorem Options.text_eq (o : Options) (page : Page) : o.text page = o.platform.withLineEnds (page.content o) := by
  cases page <;> rfl

/-- **The document of a tidy page is tidy** before its line ends are settled. -/
theorem Page.isTidy_content (o : Options) {page : Page} (h : page.IsTidy) : Text.IsTidy (page.content o) := by
  cases page with
  | schema page =>
    rw [Page.content]
    split
    · exact (Markdown.isNeat_schemaDocument o.escapeHtml h).1
    · exact (Html.isNeat_schemaDocument h).1
  | index page =>
    rw [Page.content]
    split
    · exact (Markdown.isNeat_indexDocument o.escapeHtml h).1
    · exact (Html.isNeat_indexDocument h).1

end SchemaDocs
