import SchemaDocs.Proofs.LineEnds
import SchemaDocs.Proofs.PageTokens

/-!
# HTML documents are faithful to their pages

Markup cannot be broken by the texts of a schema. The text of an HTML document is read as the tags and letters of its
page, one by one (`Options.faithful_of_html`): whatever characters a name, a description, a default or a link is made
of, it is read back as itself from the place where it stands. So the tags depend on the shape of the page only, they
are balanced, and no `<`, `>` or `"` stems from a text.

Documents are put together of pieces, and what is shown of a piece is that its text says some tokens, whatever text
follows (`Says`). There is one rule for every way of putting pieces together. Line ends are settled on the finished
text; a piece of text inside an element may end with a carriage return, so it says its letters only if no line feed
follows (`SaysInside`), and inside an element what follows is the closing tag.
-/

namespace SchemaDocs

open Markup (Token letters around linked linkedTo lines block marked)

variable (p : Platform)

namespace Markup

open Text (Seamless escapeMarkupChar)

/-- The text of pieces says what tokens say, whatever follows that does not take part in its last line end. -/
structure SaysBefore (follows : List Char → Prop) (pieces : List Html) (tokens : List Token) : Prop where
  write : ∀ rest, follows rest →
    p.lineEnds ((Html.writeAll pieces).toList ++ rest) = tokens.flatMap Token.write ++ p.lineEnds rest
  proper : ∀ token ∈ tokens, token.Proper
  nested : Nested (tags tokens)

/-- The text of pieces says what tokens say, whatever follows. -/
abbrev Says : List Html → List Token → Prop := SaysBefore p fun _ => True

/-- The text of pieces says what tokens say, if no line feed follows. -/
abbrev SaysInside : List Html → List Token → Prop := SaysBefore p fun rest => rest.head? ≠ some '\n'

theorem flatMap_write_letters (s : String) :
    (letters p s).flatMap Token.write = p.lineEnds (s.toList.flatMap escapeMarkupChar) := by
  rw [letters, List.flatMap_map, p.toList_withLineEnds, p.lineEnds_escape]
  rfl

variable {p}

namespace SaysBefore

variable {follows : List Char → Prop} {front back content : List Html} {tokens rest : List Token}

theorem nil : Says p [] [] where
  write _ _ := rfl
  proper := by simp
  nested := .nil

theorem append (hf : Says p front tokens) (hb : SaysBefore p follows back rest) :
    SaysBefore p follows (front ++ back) (tokens ++ rest) where
  write cs hcs := by
    rw [Html.writeAll_append, String.toList_append, List.append_assoc, hf.write _ trivial, hb.write cs hcs,
      List.flatMap_append, List.append_assoc]
  proper := List.forall_mem_append.2 ⟨hf.proper, hb.proper⟩
  nested := by
    rw [tags_append]
    exact hf.nested.append hb.nested

theorem inside (h : Says p content tokens) : SaysInside p content tokens :=
  ⟨fun cs _ => h.write cs trivial, h.proper, h.nested⟩

end SaysBefore

variable {follows : List Char → Prop}

/-- A text says its letters, if no line end lies across its end. -/
theorem says_text (s : String) (h : ∀ cs, follows cs → Seamless (s.toList.flatMap escapeMarkupChar) cs) :
    SaysBefore p follows [.text s] (letters p s) where
  write cs hcs := by
    rw [flatMap_write_letters, ← p.lineEnds_append (h cs hcs)]
    simp [Html.writeAll, Html.write, Text.escapeMarkup]
  proper := by simp [letters, Token.Proper]
  nested := by
    rw [tags_letters]
    exact .nil

/-- A text inside an element. -/
theorem says_text_inside (s : String) : SaysInside p [.text s] (letters p s) := says_text s fun _ h => .inr h

/-- A text that holds no carriage return. -/
theorem says_plain {s : String} (h : '\r' ∉ s.toList) : Says p [.text s] (letters p s) := by
  refine says_text s fun _ _ => .inl fun hlast => ?_
  obtain ⟨c, hc, hreturn⟩ := List.mem_flatMap.1 (List.mem_of_getLast? hlast)
  exact Text.return_not_mem_escapeMarkupChar (fun heq => h (heq ▸ hc)) hreturn

/-! ### Tags -/

theorem not_mem_of_isName {name : String} (h : IsName name) {c : Char} (hc : isNameChar c = false) :
    c ∉ name.toList := fun hmem => ne_of_isNameChar (h.2 c hmem) hc rfl

theorem lineEnds_isName {name : String} (h : IsName name) (rest : List Char) :
    p.lineEnds (name.toList ++ rest) = name.toList ++ p.lineEnds rest :=
  p.lineEnds_plain (not_mem_of_isName h (by decide)) (not_mem_of_isName h (by decide)) rest

/-- The line ends inside the attributes of a tag are those of their values. -/
theorem lineEnds_writeAttributes {attributes : List (String × String)} (h : ∀ e ∈ attributes, IsName e.1)
    (rest : List Char) : p.lineEnds ((Html.writeAttributes attributes).toList ++ rest) =
      (attributes.map fun e => (e.1, p.withLineEnds e.2)).flatMap writeAttribute ++ p.lineEnds rest := by
  induction attributes with
  | nil => rfl
  | cons e others ih =>
    obtain ⟨name, value⟩ := e
    rw [List.forall_mem_cons] at h
    calc p.lineEnds ((Html.writeAttributes ((name, value) :: others)).toList ++ rest)
        = p.lineEnds ([' '] ++ (name.toList ++ (['=', '"'] ++ (value.toList.flatMap escapeMarkupChar ++
            (['"'] ++ ((Html.writeAttributes others).toList ++ rest)))))) := by
          simp [Html.writeAttributes, Text.escapeMarkup]
      _ = [' '] ++ (name.toList ++ (['=', '"'] ++ (p.lineEnds (value.toList.flatMap escapeMarkupChar) ++
            (['"'] ++ p.lineEnds ((Html.writeAttributes others).toList ++ rest))))) := by
          rw [p.lineEnds_plain (by decide) (by decide), lineEnds_isName h.1, p.lineEnds_plain (by decide) (by decide),
            p.lineEnds_append (.inr (by simp)), p.lineEnds_plain (by decide) (by decide)]
      _ = _ := by
          rw [ih h.2, p.lineEnds_escape, ← p.toList_withLineEnds]
          simp [writeAttribute]

theorem lineEnds_openTag {tag : String} {attributes : List (String × String)} (htag : IsName tag)
    (h : ∀ e ∈ attributes, IsName e.1) (rest : List Char) :
    p.lineEnds ((Html.openTag tag attributes).toList ++ rest) =
      (Token.opening tag (attributes.map fun e => (e.1, p.withLineEnds e.2))).write ++ p.lineEnds rest := by
  calc p.lineEnds ((Html.openTag tag attributes).toList ++ rest)
      = p.lineEnds (['<'] ++ (tag.toList ++ ((Html.writeAttributes attributes).toList ++ (['>'] ++ rest)))) := by
        simp [Html.openTag]
    _ = _ := by
        rw [p.lineEnds_plain (by decide) (by decide), lineEnds_isName htag, lineEnds_writeAttributes h,
          p.lineEnds_plain (by decide) (by decide)]
        simp [Token.write]

theorem lineEnds_closeTag {tag : String} (htag : IsName tag) (rest : List Char) :
    p.lineEnds ((Html.closeTag tag).toList ++ rest) = (Token.closing tag).write ++ p.lineEnds rest := by
  calc p.lineEnds ((Html.closeTag tag).toList ++ rest)
      = p.lineEnds (['<', '/'] ++ (tag.toList ++ (['>'] ++ rest))) := by simp [Html.closeTag]
    _ = _ := by
        rw [p.lineEnds_plain (by decide) (by decide), lineEnds_isName htag, p.lineEnds_plain (by decide) (by decide)]
        simp [Token.write]

variable {content : List Html} {tokens : List Token} {tag : String} {attributes : List (String × String)}

theorem says_element (h : SaysInside p content tokens) (htag : IsName tag ∧ tag ∉ voids)
    (hattributes : ∀ e ∈ attributes, IsName e.1) : Says p [.element tag attributes content]
      (.opening tag (attributes.map fun e => (e.1, p.withLineEnds e.2)) :: tokens ++ [.closing tag]) where
  write rest _ := by
    have hstart : ((Html.closeTag tag).toList ++ rest).head? ≠ some '\n' := by simp [Html.closeTag]
    calc p.lineEnds ((Html.writeAll [.element tag attributes content]).toList ++ rest)
        = p.lineEnds ((Html.openTag tag attributes).toList ++
            ((Html.writeAll content).toList ++ ((Html.closeTag tag).toList ++ rest))) := by
          simp [Html.writeAll, Html.write]
      _ = _ := by
          rw [lineEnds_openTag htag.1 hattributes, h.write _ hstart, lineEnds_closeTag htag.1]
          simp
  proper := by
    have hopening : (Token.opening tag (attributes.map fun e => (e.1, p.withLineEnds e.2))).Proper :=
      ⟨htag.1, List.forall_mem_map.2 hattributes⟩
    simp only [List.cons_append, List.forall_mem_cons, List.forall_mem_append]
    exact ⟨hopening, h.proper, htag.1, by simp⟩
  nested := by
    have hnested := h.nested.element htag.2 (attributes.map (·.1))
    simpa [tags, Token.tag?, Function.comp_def] using hnested

theorem says_void (htag : IsName tag ∧ tag ∈ voids) (hattributes : ∀ e ∈ attributes, IsName e.1) :
    Says p [.void tag attributes] [.opening tag (attributes.map fun e => (e.1, p.withLineEnds e.2))] where
  write rest _ := by
    rw [List.flatMap_singleton, ← lineEnds_openTag htag.1 hattributes]
    simp [Html.writeAll, Html.write]
  proper := List.forall_mem_singleton.2 ⟨htag.1, List.forall_mem_map.2 hattributes⟩
  nested outer := by simp [tags, Token.tag?, nest, htag.2]

theorem says_around (h : SaysInside p content tokens) (htag : IsName tag ∧ tag ∉ voids) :
    Says p [.element tag [] content] (around tag tokens) := says_element h htag (by simp)

theorem says_around_text (s : String) (htag : IsName tag ∧ tag ∉ voids) :
    Says p [Html.around tag s] (around tag (letters p s)) := says_around (says_text_inside s) htag

theorem says_linked (h : SaysInside p content tokens) (target : String) :
    Says p [Html.link target content] (linked p target tokens) :=
  says_element h (by decide) (List.forall_mem_singleton.2 (show IsName "href" by decide))

theorem says_lineFeed : Says p [.text "\n"] (letters p "\n") := says_plain (by decide)

theorem says_block (h : Says p content tokens) (htag : IsName tag ∧ tag ∉ voids) :
    Says p [Html.block tag content] (block p tag tokens) := says_around (says_lineFeed.append h).inside htag

theorem says_marked (isSet : Bool) (name : String) : Says p (Html.mark isSet name) (marked p isSet name) := by
  cases isSet with
  | false => exact .nil
  | true => exact (says_plain (by decide)).append (says_around_text name (by decide))

/-- What is left out has no tokens. -/
theorem says_orNothing (isEmpty : Bool) (h : Says p content tokens) :
    Says p (if isEmpty then [] else content) (if isEmpty then [] else tokens) := by
  cases isEmpty with
  | false => exact h
  | true => exact .nil

theorem says_lines_cons {piece : Html} {pieces : List Html} {parts : List (List Token)} (h : Says p [piece] tokens)
    (hrest : Says p (Html.lines pieces) (lines p parts)) :
    Says p (Html.lines (piece :: pieces)) (lines p (tokens :: parts)) :=
  (h.append says_lineFeed).append hrest

theorem says_line {piece : Html} (h : Says p [piece] tokens) : Says p (Html.lines [piece]) (lines p [tokens]) :=
  says_lines_cons h .nil

theorem says_lines_append {front back : List Html} {rest : List Token} (hf : Says p (Html.lines front) tokens)
    (hb : Says p (Html.lines back) rest) : Says p (Html.lines (front ++ back)) (tokens ++ rest) := by
  rw [Html.lines, List.flatMap_append]
  exact hf.append hb

theorem says_lines_orNothing (isEmpty : Bool) {piece : Html} (h : Says p [piece] tokens) :
    Says p (Html.lines (if isEmpty then [] else [piece])) (if isEmpty then [] else lines p [tokens]) := by
  cases isEmpty with
  | false => exact says_line h
  | true => exact .nil

theorem says_attributeToken (token : String) (target : Option String) :
    Says p [Html.attributeToken token target] (linkedTo p target (around "code" (letters p token))) := by
  have hcode : Says p [Html.around "code" token] _ := says_around_text token (by decide)
  cases target with
  | none => exact hcode
  | some target =>
    rw [Html.attributeToken, linkedTo]
    split
    · exact hcode
    · exact says_linked hcode.inside target

mutual

theorem says_attributeLines : ∀ a : Attribute, Says p (Html.lines (Html.attributeLines a)) (a.tokens p)
  | ⟨name, token, required, readOnly, deprecated, description, default, target, children⟩ => by
    simp only [Html.attributeLines, Attribute.tokens]
    have hname : Says p [Html.around "strong" name] _ := says_around_text name (by decide)
    have hmarks : Says p (Html.mark required "required" ++ Html.mark readOnly "readOnly" ++
        Html.mark deprecated "deprecated") _ :=
      ((says_marked _ _).append (says_marked _ _)).append (says_marked _ _)
    have hhead : Says p [.element "dt" [] _] _ := says_around (hname.append hmarks).inside (by decide)
    have htoken : Says p [.element "p" [] _] _ := says_around (says_attributeToken token target).inside (by decide)
    have hdefault : Says p (Html.lines (match default with
        | none => []
        | some default => [.element "p" [] [.text "Default: ", Html.around "code" default]])) (match default with
        | none => []
        | some default => lines p [around "p" (letters p "Default: " ++ around "code" (letters p default))]) := by
      cases default with
      | none => exact .nil
      | some default =>
        have hlabel : Says p [.text "Default: "] _ := says_plain (by decide)
        have hcode : Says p [Html.around "code" default] _ := says_around_text default (by decide)
        exact says_line (says_around (hlabel.append hcode).inside (by decide))
    have hdescription : Says p [Html.around "p" description] _ := says_around_text description (by decide)
    have hchildren : Says p [Html.block "dl" _] _ := says_block (says_attributeListLines children) (by decide)
    have hbody : Says p [Html.block "dd" _] _ := says_block (says_lines_append (says_lines_append
      (says_lines_append (says_line htoken) hdefault) (says_lines_orNothing description.isEmpty hdescription))
      (says_lines_orNothing children.isEmpty hchildren)) (by decide)
    exact says_lines_cons hhead (says_line hbody)

theorem says_attributeListLines : ∀ attributes : List Attribute,
    Says p (Html.lines (Html.attributeListLines attributes)) (Attribute.tokensOf p attributes)
  | [] => .nil
  | a :: rest => says_lines_append (says_attributeLines a) (says_attributeListLines rest)

end

theorem says_exampleText (e : Example) : Says p (Html.exampleText e) (e.tokens p) := by
  obtain ⟨summary, description, value⟩ := e
  have hsummary : Says p [Html.around "h4" summary] _ := says_around_text summary (by decide)
  have hdescription : Says p [Html.around "p" description] _ := says_around_text description (by decide)
  have hcode : Says p [Html.around "code" value] _ := says_around_text value (by decide)
  have hvalue : Says p [.element "pre" [] _] _ := says_around hcode.inside (by decide)
  have hlines : Says p (Html.lines (Html.exampleLines ⟨summary, description, value⟩)) _ :=
    says_lines_append (says_lines_append (says_lines_orNothing summary.isEmpty hsummary)
      (says_lines_orNothing description.isEmpty hdescription)) (says_lines_orNothing value.isEmpty hvalue)
  have hempty : (Html.exampleLines ⟨summary, description, value⟩).isEmpty =
      (summary.isEmpty && description.isEmpty && value.isEmpty) := by
    simp only [Html.exampleLines]
    cases summary.isEmpty <;> cases description.isEmpty <;> cases value.isEmpty <;> rfl
  rw [Html.exampleText, Example.tokens, hempty]
  split
  · exact says_lineFeed
  · exact hlines

theorem says_examples (examples : List Example) :
    Says p (examples.flatMap Html.exampleText) (examples.flatMap (Example.tokens p)) := by
  induction examples with
  | nil => exact .nil
  | cons e rest ih => exact (says_exampleText e).append ih

/-! ### Documents -/

theorem says_indexItem (entry : IndexEntry) : Says p [Html.indexItem entry] (entry.tokens p) := by
  obtain ⟨name, target, aliasOf, deprecated⟩ := entry
  rw [Html.indexItem, IndexEntry.tokens]
  have hlink : Says p [Html.link target [.text name]] _ := says_linked (says_text_inside name) target
  refine says_around (hlink.append (SaysBefore.append ?_ (says_marked deprecated "deprecated"))).inside (by decide)
  cases aliasOf with
  | none => exact .nil
  | some origin =>
    have hstart : Says p [.text " (re-exported from "] _ := says_plain (by decide)
    have hend : Says p [.text ")"] _ := says_plain (by decide)
    exact says_orNothing origin.isEmpty (hstart.append ((says_around_text origin (by decide)).append hend))

theorem says_packageLink (item : PackageLink) :
    Says p [.element "li" [] [Html.link item.link [.text item.name]]] (item.tokens p) :=
  says_around (says_linked (says_text_inside item.name) item.link).inside (by decide)

theorem says_lines_map {α : Type} {piece : α → Html} {part : α → List Token}
    (h : ∀ a, Says p [piece a] (part a)) :
    ∀ items : List α, Says p (Html.lines (items.map piece)) (lines p (items.map part))
  | [] => .nil
  | a :: rest => says_lines_cons (h a) (says_lines_map h rest)

theorem says_indexList {α : Type} (title : String) {piece : α → Html} {part : α → List Token}
    (h : ∀ a, Says p [piece a] (part a)) (items : List α) :
    Says p (Html.indexList title (items.map piece)) (listTokens p title (items.map part)) := by
  rw [Html.indexList, listTokens, List.isEmpty_map, List.isEmpty_map]
  exact says_orNothing items.isEmpty (says_lines_cons (says_around_text title (by decide))
    (says_line (says_block (says_lines_map h items) (by decide))))

/-- A tag whose attributes are not texts of a page is written as it is. -/
theorem says_void_of_plain {tag name value : String} (htag : IsName tag ∧ tag ∈ voids) (hname : IsName name)
    (hvalue : '\r' ∉ value.toList ∧ '\n' ∉ value.toList) :
    Says p [.void tag [(name, value)]] [.opening tag [(name, value)]] := by
  have h := says_void (p := p) htag (List.forall_mem_singleton.2 (show IsName (name, value).1 from hname))
  rwa [List.map_singleton, p.withLineEnds_of_not_mem hvalue.1 hvalue.2] at h

theorem toList_declaration_append (pieces : List Html) : ("<!DOCTYPE html>\n" ++ Html.writeAll pieces).toList =
    "<!DOCTYPE html>".toList ++ (Html.writeAll ([.text "\n"] ++ pieces)).toList := by
  have hline : (Html.writeAll [.text "\n"]).toList = ['\n'] := by
    simp [Html.writeAll, Html.write, Text.escapeMarkup, Text.escapeMarkupChar]
  rw [Html.writeAll_append, String.toList_append, String.toList_append, hline, ← List.append_assoc]
  congr 1

/-- **A document is what its body says**, between the tags that every document has. -/
theorem written_of_says {title : String} {body : List Html} {tokens : List Token} (h : Says p body tokens) :
    Written (p.withLineEnds (Html.document title body)) (documentTokens p title tokens) := by
  have hmeta : Says p [.void "meta" [("charset", "utf-8")]] _ :=
    says_void_of_plain (by decide) (by decide) (by decide)
  have htitle : Says p [Html.around "title" title] _ := says_around_text title (by decide)
  have hhead : Says p [Html.block "head" _] _ := says_block (says_lines_cons hmeta (says_line htitle)) (by decide)
  have hbody : Says p [Html.block "body" body] _ := says_block h (by decide)
  have hhtml : Says p [Html.block "html" _] _ := says_block (says_lines_cons hhead (says_line hbody)) (by decide)
  have hpieces := says_lineFeed.append (says_line hhtml)
  refine ⟨?_, List.forall_mem_cons.2 ⟨trivial, hpieces.proper⟩, hpieces.nested⟩
  have hdeclaration : '\r' ∉ "<!DOCTYPE html>".toList ∧ '\n' ∉ "<!DOCTYPE html>".toList := by decide
  have hwrite := hpieces.write [] trivial
  rw [List.append_nil, p.lineEnds_nil, List.append_nil] at hwrite
  have htext : (Html.document title body).toList = "<!DOCTYPE html>".toList ++ _ := toList_declaration_append _
  rw [p.toList_withLineEnds, htext]
  exact (p.lineEnds_plain hdeclaration.1 hdeclaration.2 _).trans (congrArg ("<!DOCTYPE html>".toList ++ ·) hwrite)

/-- An element with an attribute that is no text of a page. -/
theorem says_element_of_plain {tag name value : String} {content : List Html} {tokens : List Token}
    (h : SaysInside p content tokens) (htag : IsName tag ∧ tag ∉ voids) (hname : IsName name)
    (hvalue : '\r' ∉ value.toList ∧ '\n' ∉ value.toList) : Says p [.element tag [(name, value)] content]
      (.opening tag [(name, value)] :: tokens ++ [.closing tag]) := by
  have helement := says_element h htag (List.forall_mem_singleton.2 (show IsName (name, value).1 from hname))
  rwa [List.map_singleton, p.withLineEnds_of_not_mem hvalue.1 hvalue.2] at helement

/-- The document of a schema is what its page says. -/
theorem written_schemaDocument (page : SchemaPage) :
    Written (p.withLineEnds (Html.schemaDocument page)) (page.tokens p) := by
  have htitle : Says p [Html.around "h2" ("Schema " ++ page.name)] _ := says_around_text _ (by decide)
  have hdeprecation : Says p (match page.deprecation with
      | none => []
      | some notice => Html.lines [.element "p" [("class", "deprecated")] [Html.around "em" notice]])
      (match page.deprecation with
      | none => []
      | some notice => lines p [
          .opening "p" [("class", "deprecated")] :: around "em" (letters p notice) ++ [.closing "p"]]) := by
    cases page.deprecation with
    | none => exact .nil
    | some notice =>
      have hnotice : Says p [Html.around "em" notice] _ := says_around_text notice (by decide)
      exact says_line (says_element_of_plain hnotice.inside (by decide) (by decide) (by decide))
  have hdescription : Says p [Html.around "p" page.description] _ := says_around_text page.description (by decide)
  have hattributes : Says p (Html.lines [Html.around "h3" "Attributes", Html.block "dl" _]) _ :=
    says_lines_cons (says_around_text "Attributes" (by decide))
      (says_line (says_block (says_attributeListLines page.attributes) (by decide)))
  have hexamples : Says p (Html.lines [Html.around "h3" "Examples"]) _ :=
    says_line (says_around_text "Examples" (by decide))
  have hsource : Says p [.element "li" [] [Html.link page.sourcePath [.text page.sourceLabel]]] _ :=
    says_around (says_linked (says_text_inside page.sourceLabel) page.sourcePath).inside (by decide)
  have hsources : Says p (Html.lines [Html.around "h2" "Source Files", Html.block "ul" _]) _ :=
    says_lines_cons (says_around_text "Source Files" (by decide))
      (says_line (says_block (says_line hsource) (by decide)))
  have hbody := (((((says_line htitle).append hdeprecation).append
    (says_orNothing page.description.isEmpty (says_line hdescription))).append
    (says_orNothing page.attributes.isEmpty hattributes)).append
    (says_orNothing page.examples.isEmpty (hexamples.append (says_examples page.examples)))).append hsources
  exact written_of_says hbody

/-- The index of a package is what its page says. -/
theorem written_indexDocument (page : IndexPage) :
    Written (p.withLineEnds (Html.indexDocument page)) (page.tokens p) := by
  have htitle : Says p [Html.around "h1" ("Package " ++ page.name)] _ := says_around_text _ (by decide)
  have hdescription : Says p [Html.around "p" page.description] _ := says_around_text page.description (by decide)
  exact written_of_says ((((says_line htitle).append
    (says_orNothing page.description.isEmpty (says_line hdescription))).append
    (says_indexList "Schemas" says_indexItem page.entries)).append
    (says_indexList "Packages" says_packageLink page.subpackages))

/-- The document of a schema is faithful to its page. -/
theorem faithful_schemaDocument (page : SchemaPage) :
    Faithful (p.withLineEnds (Html.schemaDocument page)) (page.tokens p) (page.shape.tokens .unix) :=
  (written_schemaDocument page).faithful (tags_schemaPage p .unix page)

/-- The index of a package is faithful to its page. -/
theorem faithful_indexDocument (page : IndexPage) :
    Faithful (p.withLineEnds (Html.indexDocument page)) (page.tokens p) (page.shape.tokens .unix) :=
  (written_indexDocument page).faithful (tags_indexPage p .unix page)

end Markup

/-- **No text of a schema or of an index breaks an HTML document.** -/
theorem Options.faithful_of_html (o : Options) (h : o.format = .html) :
    (∀ (link : Schema → Option String) (s : Schema), match o.document link s with
      | .ok text => ∃ modelType, s.modelType = some modelType ∧
          Markup.Faithful text ((s.page o.platform (o.view link) modelType).tokens o.platform)
            ((s.page o.platform (o.view link) modelType).shape.tokens .unix)
      | .error _ => s.modelType = none ∨ s.problem? ≠ none) ∧
    ∀ page : IndexPage,
      Markup.Faithful (o.indexDocument page) (page.tokens o.platform) (page.shape.tokens .unix) := by
  refine ⟨fun link s => ?_, fun page => ?_⟩
  · rw [Options.document]
    cases hm : s.modelType with
    | none => exact .inl rfl
    | some modelType =>
      cases hp : s.problem? with
      | some problem => exact .inr (by simp)
      | none =>
        refine ⟨modelType, rfl, ?_⟩
        simp only [Options.schemaDocument, h]
        exact Markup.faithful_schemaDocument _
  · simp only [Options.indexDocument, h]
    exact Markup.faithful_indexDocument page

/-- A schema whose texts are full of markup. -/
def Schema.scripted : Schema where
  description := "</p><script src=\"x\">a && b</script>"
  modelType := some ⟨"A<b>", "", "\"><a.k"⟩

theorem Options.faithful_of_scripted : ({ format := .html } : Options).format = .html ∧
    ∃ text, ({ format := .html } : Options).document (fun _ => none) Schema.scripted = .ok text ∧
      ∃ modelType, Schema.scripted.modelType = some modelType ∧ Markup.Faithful text
        ((Schema.scripted.page .unix ⟨false, fun _ => none⟩ modelType).tokens .unix)
        ((Schema.scripted.page .unix ⟨false, fun _ => none⟩ modelType).shape.tokens .unix) :=
  ⟨rfl, _, rfl, (Options.faithful_of_html { format := .html } rfl).1 (fun _ => none) Schema.scripted⟩

end SchemaDocs