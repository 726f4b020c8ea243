import SchemaDocs.Proofs.SameLines
import SchemaDocs.Proofs.HtmlPages

/-!
# Pages with line feeds

What becomes of the document of a page if the lines of its descriptions end in line feeds alone. In HTML nothing does:
the letters of a description are those with the line ends of the platform (`Html.schemaDocument_withLineFeeds`). In
Markdown the documents are alike before their line ends are settled, and a block quote is where they differ: there is a
space more for every line of a description that is blank but for a carriage return, and nothing else
(`Markdown.sameClosed_schemaDocument`).
-/

namespace SchemaDocs

namespace Text

variable {s : String}

/-- The text holds two carriage returns in a row. -/
def Doubled (s : String) : Prop := ['\r', '\r'] <:+: s.toList

theorem infix_of_mem_splitList {sep : Char} {cs piece : List Char} (h : piece ∈ splitList sep cs) : piece <:+: cs := by
  obtain ⟨front, back, hsplit⟩ := List.append_of_mem h
  refine ⟨joinList [sep] (front ++ [[]]), back.flatMap ([sep] ++ ·), ?_⟩
  have hjoin := joinList_append [sep] [] piece front back
  rw [List.nil_append, ← hsplit, joinList_splitList] at hjoin
  rw [← hjoin, joinList_cons, List.append_assoc]

theorem isTidy_of_not_doubled (h : ¬ Doubled s) : IsTidy s :=
  fun _ hline hends => h (hends.isInfix.trans (infix_of_mem_splitList hline))

theorem not_overlong_of_not_doubled (h : ¬ Doubled s) : ¬ Overlong s.toList :=
  fun hoverlong => h (List.IsInfix.trans ⟨[], ['\n'], rfl⟩ hoverlong)

@[simp]
theorem isEmpty_unifyLineEnds (s : String) : (unifyLineEnds s).isEmpty = s.isEmpty := by
  have hlists := isEmpty_unifyLineEndsList s.toList
  rw [Bool.eq_iff_iff, List.isEmpty_iff, List.isEmpty_iff] at hlists
  rw [Bool.eq_iff_iff, String.isEmpty_iff, String.isEmpty_iff, ← String.toList_eq_nil_iff, ← String.toList_eq_nil_iff,
    unifyLineEnds, String.toList_ofList, hlists]

/-- What has been settled is not settled again. -/
theorem unifyLineEnds_unifyLineEnds (h : ¬ Overlong s.toList) : unifyLineEnds (unifyLineEnds s) = unifyLineEnds s := by
  have hlists : unifyLineEndsList (unifyLineEndsList s.toList) = unifyLineEndsList s.toList := by
    rwa [unifyLineEndsList_eq_self, pair_infix_unifyLineEndsList]
  rw [← String.toList_inj, unifyLineEnds, unifyLineEnds, String.toList_ofList, String.toList_ofList, hlists]

end Text

namespace Platform

variable (p : Platform)

/-- On every platform line ends are settled to the same if they are so on Unix. -/
theorem withLineEnds_inj {s t : String} :
    p.withLineEnds s = p.withLineEnds t ↔ Text.unifyLineEnds s = Text.unifyLineEnds t := by
  cases p with
  | unix => rfl
  | windows =>
    refine ⟨fun h => ?_, fun h => congrArg Text.pairLineEnds h⟩
    rw [← String.toList_inj, toList_withLineEnds, toList_withLineEnds] at h
    have hunified := congrArg Text.unifyLineEndsList h
    rw [lineEnds, lineEnds, Text.unifyLineEndsList_pairLineEndsList,
      Text.unifyLineEndsList_pairLineEndsList] at hunified
    rw [Text.unifyLineEnds, Text.unifyLineEnds, hunified]

end Platform

/-! ## Pages -/

def SchemaPage.withLineFeeds (inExamples : Bool) (page : SchemaPage) : SchemaPage :=
  { page with
    description := Text.unifyLineEnds page.description
    attributes := Attribute.withLineFeedsOf page.attributes
    examples := page.examples.map (Example.withLineFeeds inExamples) }

/-- No description holds two carriage returns in a row, at any depth. -/
structure SchemaPage.HasSingleReturns (inExamples : Bool) (page : SchemaPage) : Prop where
  description : ¬ Text.Doubled page.description
  attributes : ∀ a : Attribute, a.In page.attributes → ¬ Text.Doubled a.description
  examples : inExamples = true → ∀ e ∈ page.examples, ¬ Text.Doubled e.description

namespace Attribute

@[simp]
theorem isEmpty_withLineFeedsOf (attributes : List Attribute) :
    (withLineFeedsOf attributes).isEmpty = attributes.isEmpty := by
  cases attributes <;> rfl

/-- How many lines of the descriptions of the attributes are blank but for a carriage return. -/
def ownReturns : List Attribute → Nat
  | [] => 0
  | a :: rest => Text.returnLines a.description + ownReturns rest

theorem ownReturns_eq_zero {attributes : List Attribute} :
    ownReturns attributes = 0 ↔ ∀ a ∈ attributes, Text.returnLines a.description = 0 := by
  induction attributes with
  | nil => simp [ownReturns]
  | cons a rest ih => rw [ownReturns, Nat.add_eq_zero_iff, ih, List.forall_mem_cons]

mutual

/-- How many lines of the descriptions below the attribute are blank but for a carriage return. -/
def quotedReturns : Attribute → Nat
  | ⟨_, _, _, _, _, _, _, _, children⟩ => ownReturns children + quotedReturnsOf children

/-- How many lines of the descriptions below the attributes are blank but for a carriage return. -/
def quotedReturnsOf : List Attribute → Nat
  | [] => 0
  | a :: rest => a.quotedReturns + quotedReturnsOf rest

end

mutual

theorem quotedReturns_eq_zero : ∀ a : Attribute,
    a.quotedReturns = 0 ↔ ∀ b, In b a.children → Text.returnLines b.description = 0
  | ⟨_, _, _, _, _, _, _, _, children⟩ => by
    rw [quotedReturns, Nat.add_eq_zero_iff, ownReturns_eq_zero, quotedReturnsOf_eq_zero children]
    constructor
    · rintro ⟨hown, hbelow⟩ b (⟨mem⟩ | ⟨mem, deep⟩)
      · exact hown b mem
      · exact hbelow _ mem b deep
    · exact fun h => ⟨fun c hc => h c (.here hc), fun a ha b hb => h b (.inside ha hb)⟩

theorem quotedReturnsOf_eq_zero : ∀ attributes : List Attribute, quotedReturnsOf attributes = 0 ↔
    ∀ a ∈ attributes, ∀ b, In b a.children → Text.returnLines b.description = 0
  | [] => by simp [quotedReturnsOf]
  | a :: rest => by
    rw [quotedReturnsOf, Nat.add_eq_zero_iff, quotedReturns_eq_zero a, quotedReturnsOf_eq_zero rest,
      List.forall_mem_cons]

end

end Attribute

/-! ## HTML -/

namespace Markup

variable (p : Platform) {inExamples : Bool}

theorem letters_unifyLineEnds {s : String} (h : ¬ Text.Doubled s) : letters p (Text.unifyLineEnds s) = letters p s := by
  rw [letters, letters, p.withLineEnds_inj.2 (Text.unifyLineEnds_unifyLineEnds (Text.not_overlong_of_not_doubled h))]

mutual

theorem tokens_withLineFeeds : ∀ a : Attribute, ¬ Text.Doubled a.description →
    (∀ b, Attribute.In b a.children → ¬ Text.Doubled b.description) → a.withLineFeeds.tokens p = a.tokens p
  | ⟨name, token, required, readOnly, deprecated, description, default, link, children⟩, h, hchildren => by
    have hletters : letters p (Text.unifyLineEnds description) = letters p description := letters_unifyLineEnds p h
    simp only [Attribute.withLineFeeds, Attribute.tokens, Text.isEmpty_unifyLineEnds, hletters,
      Attribute.isEmpty_withLineFeedsOf, tokensOf_withLineFeeds children hchildren]

theorem tokensOf_withLineFeeds : ∀ attributes : List Attribute,
    (∀ b, Attribute.In b attributes → ¬ Text.Doubled b.description) →
      Attribute.tokensOf p (Attribute.withLineFeedsOf attributes) = Attribute.tokensOf p attributes
  | [], _ => rfl
  | a :: rest, h => by
    rw [Attribute.withLineFeedsOf, Attribute.tokensOf, Attribute.tokensOf,
      tokens_withLineFeeds a (h a (.here List.mem_cons_self)) fun b hb => h b (Attribute.in_of_children hb),
      tokensOf_withLineFeeds rest fun b hb => h b (Attribute.in_of_rest hb)]

end

theorem tokens_exampleWithLineFeeds {e : Example} (h : inExamples = true → ¬ Text.Doubled e.description) :
    (e.withLineFeeds inExamples).tokens p = e.tokens p := by
  rw [Example.withLineFeeds]
  split
  · next hasked => rw [Example.tokens, Example.tokens, Text.isEmpty_unifyLineEnds, letters_unifyLineEnds p (h hasked)]
  · rfl

/-- **A page says the same with line feeds for the line ends of its descriptions.** -/
theorem tokens_pageWithLineFeeds {page : SchemaPage} (h : page.HasSingleReturns inExamples) :
    (page.withLineFeeds inExamples).tokens p = page.tokens p := by
  have hexamples : (page.examples.map (Example.withLineFeeds inExamples)).flatMap (Example.tokens p) =
      page.examples.flatMap (Example.tokens p) := by
    rw [List.flatMap_map, List.flatMap_def, List.flatMap_def]
    exact congrArg List.flatten (List.map_congr_left fun e he =>
      tokens_exampleWithLineFeeds p fun hasked => h.examples hasked e he)
  rw [SchemaPage.withLineFeeds, SchemaPage.tokens, SchemaPage.tokens, Text.isEmpty_unifyLineEnds,
    letters_unifyLineEnds p h.description, Attribute.isEmpty_withLineFeedsOf, tokensOf_withLineFeeds p _ h.attributes,
    List.isEmpty_map, hexamples]

end Markup

/-- The HTML document of a page is the same with line feeds for the line ends of its descriptions. -/
theorem Html.schemaDocument_withLineFeeds (p : Platform) {inExamples : Bool} {page : SchemaPage}
    (h : page.HasSingleReturns inExamples) :
    p.withLineEnds (schemaDocument (page.withLineFeeds inExamples)) = p.withLineEnds (schemaDocument page) := by
  have hwritten := Markup.written_schemaDocument (p := p) (page.withLineFeeds inExamples)
  rw [Markup.tokens_pageWithLineFeeds p h] at hwritten
  exact hwritten.text_eq (Markup.written_schemaDocument page)

/-! ## Markdown -/

namespace Markdown

open Text (SameLines SameClosed returnLines unifyLineEnds sameLines_refl)

variable (escape : Bool) {inExamples : Bool}

theorem freeText_unifyLineEnds (s : String) :
    freeText escape (unifyLineEnds s) = unifyLineEnds (freeText escape s) := by
  cases escape with
  | false => rfl
  | true =>
    have hescaped := Text.unifyLineEndsList_escape s.toList
    simp only [freeText, ↓reduceIte, Text.escapeMarkup, unifyLineEnds, String.toList_ofList, hescaped]

/-- Lines are blank but for a carriage return when they are escaped exactly if they are so unescaped. -/
theorem returnLines_freeText (s : String) : returnLines (freeText escape s) = returnLines s := by
  cases escape with
  | false => rfl
  | true =>
    have hline (line : List Char) : line.flatMap Text.escapeMarkupChar = ['\r'] ↔ line = ['\r'] := by
      refine ⟨fun h => ?_, fun h => by rw [h]; rfl⟩
      rw [← List.nil_append ['\r']] at h
      obtain ⟨before, rfl, hbefore⟩ := Text.eq_concat_of_escape h
      cases before with
      | nil => rfl
      | cons c rest =>
        rw [List.flatMap_cons, List.append_eq_nil_iff] at hbefore
        exact absurd hbefore.1 (Text.escapeMarkupChar_ne_nil c)
    simp only [returnLines, freeText, ↓reduceIte, Text.lines_escapeMarkup, ← List.map_dropLast, List.count_eq_countP,
      List.countP_map]
    exact List.countP_congr fun line _ => by simpa using hline line

/-- A description is like the one with line feeds for its line ends. -/
theorem sameLines_freeText {s : String} (h : ¬ Text.Doubled s) :
    SameLines (returnLines s) 0 (freeText escape s) (freeText escape (unifyLineEnds s)) := by
  rw [freeText_unifyLineEnds, ← returnLines_freeText escape]
  exact Text.sameLines_unifyLineEnds (isTidy_freeText (Text.isTidy_of_not_doubled h))

/-- The block of a description, if it is not empty. -/
theorem tallied_description {s : String} (h : ¬ Text.Doubled s) : Tallied SameLines (returnLines s) 0
    (if s.isEmpty then [] else [freeText escape s])
    (if (unifyLineEnds s).isEmpty then [] else [freeText escape (unifyLineEnds s)]) := by
  rw [Text.isEmpty_unifyLineEnds]
  split
  · next hempty =>
    rw [String.isEmpty_iff.1 hempty]
    exact .nil
  · exact .one (sameLines_freeText escape h)

mutual

/-- **The fragment about an attribute is like the one with line feeds in the descriptions.** The blank lines that have
been quoted are those of the attributes below it. -/
theorem sameLines_attributeText : ∀ a : Attribute, ¬ Text.Doubled a.description →
    (∀ b, Attribute.In b a.children → ¬ Text.Doubled b.description) →
      SameLines (returnLines a.description) a.quotedReturns (attributeText escape a)
        (attributeText escape a.withLineFeeds)
  | ⟨name, token, required, readOnly, deprecated, description, default, link, children⟩, h, hchildren => by
    have hquote : Tallied SameLines 0
        (Attribute.quotedReturns ⟨name, token, required, readOnly, deprecated, description, default, link, children⟩)
        (if children.isEmpty then [] else [blockQuote (joinBlocks (attributeTexts escape children))])
        (if children.isEmpty then []
          else [blockQuote (joinBlocks (attributeTexts escape (Attribute.withLineFeedsOf children)))]) := by
      rw [Attribute.quotedReturns]
      split
      · next hempty =>
        rw [List.isEmpty_iff.1 hempty]
        exact .nil
      · exact .one (sameLines_blockQuote (sameLines_joinBlocks (tallied_attributeTexts children hchildren)))
    simp only [Attribute.withLineFeeds, attributeText, Attribute.isEmpty_withLineFeedsOf]
    have hblocks (fixed : List String) :=
      ((Tallied.same sameLines_refl fixed).append (tallied_description escape h)).append hquote
    simp only [Nat.zero_add, Nat.add_zero] at hblocks
    exact sameLines_joinBlocks (hblocks _)

theorem tallied_attributeTexts : ∀ attributes : List Attribute,
    (∀ b, Attribute.In b attributes → ¬ Text.Doubled b.description) →
      Tallied SameLines (Attribute.ownReturns attributes) (Attribute.quotedReturnsOf attributes)
        (attributeTexts escape attributes) (attributeTexts escape (Attribute.withLineFeedsOf attributes))
  | [], _ => .nil
  | a :: rest, h =>
    .cons (sameLines_attributeText a (h a (.here List.mem_cons_self)) fun b hb => h b (Attribute.in_of_children hb))
      (tallied_attributeTexts rest fun b hb => h b (Attribute.in_of_rest hb))

end

theorem sameLines_exampleText {e : Example} (h : inExamples = true → ¬ Text.Doubled e.description) :
    ∃ blanks, SameLines blanks 0 (exampleText escape e) (exampleText escape (e.withLineFeeds inExamples)) := by
  rw [Example.withLineFeeds]
  split
  · next hasked =>
    have hblocks := ((Tallied.same sameLines_refl
      (if e.summary.isEmpty then [] else ["#### " ++ freeText escape e.summary])).append
        (tallied_description escape (h hasked))).append
          (.same sameLines_refl (if e.value.isEmpty then [] else ["```python\n" ++ e.value ++ "\n```"]))
    exact ⟨_, sameLines_joinBlocks hblocks⟩
  · exact ⟨0, sameLines_refl _⟩

theorem tallied_exampleTexts : ∀ examples : List Example,
    (∀ e ∈ examples, inExamples = true → ¬ Text.Doubled e.description) → ∃ blanks, Tallied SameLines blanks 0
      (examples.map (exampleText escape)) ((examples.map (Example.withLineFeeds inExamples)).map (exampleText escape))
  | [], _ => ⟨0, .nil⟩
  | e :: rest, h => by
    rw [List.forall_mem_cons] at h
    obtain ⟨blanks, he⟩ := sameLines_exampleText escape h.1
    obtain ⟨others, hrest⟩ := tallied_exampleTexts rest h.2
    exact ⟨blanks + others, .cons he hrest⟩

theorem sameClosed_deprecation (deprecation : Option String) : SameClosed 0
    (match deprecation with
      | none => ""
      | some notice => paragraph ("*" ++ freeText escape notice ++ "*"))
    (match deprecation with
      | none => ""
      | some notice => paragraph ("*" ++ freeText escape notice ++ "*")) := by
  cases deprecation with
  | none => exact .empty
  | some notice => exact sameClosed_paragraph (sameLines_refl _)

/-- **The Markdown document of a page is like the one with line feeds for the line ends of its descriptions**, but for
the blank lines that have been quoted. -/
theorem sameClosed_schemaDocument {page : SchemaPage} (h : page.HasSingleReturns inExamples) :
    SameClosed (Attribute.quotedReturnsOf page.attributes) (schemaDocument escape page)
      (schemaDocument escape (page.withLineFeeds inExamples)) := by
  have hparagraph (s : String) : SameClosed 0 (paragraph s) (paragraph s) := sameClosed_paragraph (sameLines_refl s)
  have hdeprecation := sameClosed_deprecation escape page.deprecation
  have hdescription : SameClosed 0
      (if page.description.isEmpty then "" else paragraph (freeText escape page.description))
      (if (unifyLineEnds page.description).isEmpty then ""
        else paragraph (freeText escape (unifyLineEnds page.description))) := by
    rw [Text.isEmpty_unifyLineEnds]
    split
    · exact .empty
    · exact sameClosed_paragraph (sameLines_freeText escape h.description)
  have hattributes := sameClosed_titled "### Attributes" (tallied_attributeTexts escape page.attributes h.attributes)
  have hexamples : SameClosed 0 (titled "### Examples" (page.examples.map fun e => paragraph (exampleText escape e)))
      (titled "### Examples" ((page.examples.map (Example.withLineFeeds inExamples)).map fun e =>
        paragraph (exampleText escape e))) := by
    obtain ⟨blanks, htexts⟩ := tallied_exampleTexts escape page.examples fun e he hasked => h.examples hasked e he
    simpa only [List.map_map, Function.comp_def] using sameClosed_titled "### Examples" htexts
  have hfeed : SameClosed 0 "\n" "\n" := by simpa using Text.sameClosed_line ""
  have htold := ((((Text.sameClosed_line ("## Schema " ++ page.name)).append hdeprecation).append hdescription).append
    hattributes).append hexamples
  have hdocument := ((htold.append hfeed).append (hparagraph "## Source Files")).append
    (hparagraph (linkItem page.sourceLabel page.sourcePath))
  simp only [Nat.zero_add, Nat.add_zero] at hdocument
  delta schemaDocument
  exact hdocument

end Markdown

end SchemaDocs
