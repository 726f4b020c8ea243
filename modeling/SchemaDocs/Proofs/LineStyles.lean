import SchemaDocs.Document.Basic
import SchemaDocs.Proofs.Outcomes
import SchemaDocs.Proofs.SamePages

/-!
# The line ends of descriptions

The document of a schema is the same whether the lines of its descriptions end in carriage return and line feed or in
line feeds alone, unless it is a Markdown document and there is a blank line in a description that is told in a block
quote (`Options.documentUnlessIgnored_withLineFeeds`). What quotes the line sees the carriage return that is in it, and
quotes it with a space, so in that case the documents differ.
-/

namespace SchemaDocs

namespace Text

variable {s : String}

/-- Every carriage return stands directly in front of a line feed, so that none stands behind another one. -/
def IsPaired (s : String) : Prop :=
  ∀ i < s.toList.length, s.toList[i]? = some '\r' → s.toList[i + 1]? = some '\n'

instance (s : String) : Decidable (IsPaired s) :=
  inferInstanceAs (Decidable (∀ i < s.toList.length, s.toList[i]? = some '\r' → s.toList[i + 1]? = some '\n'))

theorem IsPaired.not_doubled (h : IsPaired s) : ¬ Doubled s := by
  rintro ⟨front, back, hs⟩
  have hfeed := h front.length (by simp [← hs]) (by simp [← hs])
  simp [← hs] at hfeed

theorem not_doubled_trimBlanks (h : ¬ Doubled s) : ¬ Doubled (trimBlanks s) := by
  have htrimmed : (trimBlanks s).toList <:+: s.toList := by
    rw [trimBlanks, trim, trimList, String.toList_ofList]
    exact (List.rdropWhile_prefix isBlank _).isInfix.trans (List.dropWhile_suffix isBlank).isInfix
  exact fun hdoubled => h (hdoubled.trans htrimmed)

end Text

namespace Schema

variable {inExamples : Bool} {view : View} {s : Schema}

/-- Every line end in the description of a schema is a pair or a line feed, and so it is in the descriptions of its
examples, if these are asked for. -/
def HasPairedEnds (inExamples : Bool) (s : Schema) : Prop :=
  Text.IsPaired s.description ∧ (inExamples = true → ∀ e ∈ s.examples, Text.IsPaired e.description)

theorem page_withLineFeeds (hlink : ∀ t : Schema, view.link (t.withLineFeeds inExamples) = view.link t)
    (platform : Platform) (modelType : ModelType) (s : Schema) :
    (s.withLineFeeds inExamples).page platform view modelType =
      (s.page platform view modelType).withLineFeeds inExamples := by
  have hdeprecation : (s.withLineFeeds inExamples).deprecation? = s.deprecation? := by
    rw [withLineFeeds_eq]
    rfl
  have hexamples : (s.withLineFeeds inExamples).examples = s.examples.map (Example.withLineFeeds inExamples) := by
    rw [withLineFeeds_eq]
  rw [page, attributes_withLineFeeds hlink, hdeprecation, hexamples, description_withLineFeeds,
    qualifiedName_withLineFeeds]
  rfl

/-- The descriptions that a page tells are those of nodes. -/
theorem hasSingleReturns_page (h : ∀ t, s.Reaches t → t.HasPairedEnds inExamples) (platform : Platform)
    (modelType : ModelType) : (s.page platform view modelType).HasSingleReturns inExamples where
  description := (h s (.refl s)).1.not_doubled
  attributes a ha := by
    obtain ⟨t, ht⟩ := in_attributes_iff.1 ha
    rw [ht.description_eq]
    exact Text.not_doubled_trimBlanks (h t ht.reaches).1.not_doubled
  examples hasked e he := ((h s (.refl s)).2 hasked e he).not_doubled

end Schema

namespace Options

variable (o : Options) {link : Schema → Option String} {inExamples : Bool} {s : Schema}

/-- The document is in Markdown, and the description of an attribute that is told below another one holds a line that
is blank but for the carriage return at its end. -/
def QuotesReturns (link : Schema → Option String) (s : Schema) : Prop :=
  o.format = .markdown ∧ ∃ a ∈ s.attributes (o.view link), ∃ b, Attribute.In b a.children ∧
    0 < Text.returnLines b.description

theorem schemaDocument_withLineFeeds {page : SchemaPage} (h : page.HasSingleReturns inExamples) :
    o.schemaDocument page = o.schemaDocument (page.withLineFeeds inExamples) ↔
      ¬ (o.format = .markdown ∧ ∃ a ∈ page.attributes, ∃ b, Attribute.In b a.children ∧
        0 < Text.returnLines b.description) := by
  rw [schemaDocument, schemaDocument]
  cases o.format with
  | html => simp [Html.schemaDocument_withLineFeeds o.platform h]
  | markdown =>
    rw [Platform.withLineEnds_inj, (Markdown.sameClosed_schemaDocument o.escapeHtml h).unifyLineEnds_eq_iff,
      Attribute.quotedReturnsOf_eq_zero]
    simp [Nat.pos_iff_ne_zero]

theorem document_withLineFeeds (h : ∀ t, s.Reaches t → t.HasPairedEnds inExamples)
    (hlink : ∀ t : Schema, link (t.withLineFeeds inExamples) = link t) :
    (¬ o.QuotesReturns link s → o.document link (s.withLineFeeds inExamples) = o.document link s) ∧
      (o.QuotesReturns link s → ∀ text, o.document link s = .ok text →
        o.document link (s.withLineFeeds inExamples) ≠ .ok text) := by
  rw [document, document, Schema.modelType_withLineFeeds, Schema.qualifiedName_withLineFeeds,
    Schema.problem?_withLineFeeds]
  cases s.modelType with
  | none => simp
  | some modelType =>
    cases s.problem? with
    | some problem => simp
    | none =>
      have hpage : (s.withLineFeeds inExamples).page o.platform (o.view link) modelType = _ :=
        Schema.page_withLineFeeds hlink o.platform modelType s
      have hreturns : (s.page o.platform (o.view link) modelType).HasSingleReturns inExamples :=
        Schema.hasSingleReturns_page h o.platform modelType
      have hsame := o.schemaDocument_withLineFeeds hreturns
      simp only [hpage]
      refine ⟨fun hquotes => congrArg Except.ok (hsame.2 hquotes).symm, fun hquotes text htext heq => ?_⟩
      exact hsame.1 (Except.ok.inj (htext.trans heq.symm)) hquotes

/-- **The line ends of descriptions make no difference** to the document of a schema, at whatever depth they are, in
either format, on every platform and with every option; unless the document quotes a line that is blank but for the
carriage return at its end, in which case it is not the one with line feeds. -/
theorem documentUnlessIgnored_withLineFeeds (h : ∀ t, s.Reaches t → t.HasPairedEnds inExamples)
    (hlink : ∀ t : Schema, link (t.withLineFeeds inExamples) = link t) :
    (¬ o.QuotesReturns link s →
      o.documentUnlessIgnored link (s.withLineFeeds inExamples) = o.documentUnlessIgnored link s) ∧
    (o.QuotesReturns link s → ∀ text, o.documentUnlessIgnored link s = .ok (some text) →
      o.documentUnlessIgnored link (s.withLineFeeds inExamples) ≠ .ok (some text)) := by
  obtain ⟨hsame, hother⟩ := o.document_withLineFeeds h hlink
  rw [documentUnlessIgnored, documentUnlessIgnored, Schema.isDeprecated_withLineFeeds]
  split
  · simp
  · refine ⟨fun hquotes => by rw [hsame hquotes], fun hquotes text htext heq => ?_⟩
    simp only [except_map_ok, Option.some.injEq, exists_eq_right] at htext heq
    exact hother hquotes text htext heq

end Options

/-! ## A description in a block quote -/

/-- A schema with an inline object, the attribute of which has the given description. -/
def Schema.noted (description : String) : Schema where
  modelType := some ⟨"A", "", "a.k"⟩
  properties := [("o", { properties := [("p", { type := "string", description := description })] })]

namespace Schema

theorem attributes_noted (view : View) (description : String) : (noted description).attributes view =
    [⟨"o", "dict", false, false, false, "", none, none,
      [⟨"p", "str", false, false, false, Text.trimBlanks description, none, none, []⟩]⟩] := by
  obtain ⟨_ | _, link⟩ := view <;> rfl

theorem hasPairedEnds_noted {description : String} (h : Text.IsPaired description) :
    ∀ t, (noted description).Reaches t → t.HasPairedEnds true := by
  have hempty : Text.IsPaired "" := by decide
  refine forall_reaches ⟨hempty, by simp [noted]⟩ fun object hobject => ?_
  obtain rfl : object = { properties := [("p", { type := "string", description := description })] } := by
    simpa [noted, parts, checkedParts] using hobject
  refine forall_reaches ⟨hempty, by simp⟩ fun inner hinner => ?_
  obtain rfl : inner = { type := "string", description := description } := by
    simpa [parts, checkedParts] using hinner
  exact forall_reaches ⟨h, by simp⟩ fun t ht => by simp [parts, checkedParts] at ht

end Schema

namespace Options

theorem quotesReturns_noted (o : Options) (link : Schema → Option String) (description : String) :
    o.QuotesReturns link (.noted description) ↔
      o.format = .markdown ∧ 0 < Text.returnLines (Text.trimBlanks description) := by
  have hin {b c : Attribute} (hc : c.children = []) : Attribute.In b [c] ↔ b = c := by
    refine ⟨?_, fun h => .here (by simp [h])⟩
    rintro (⟨mem⟩ | ⟨mem, deep⟩)
    · exact List.mem_singleton.1 mem
    · rw [List.mem_singleton.1 mem, hc] at deep
      rcases deep with ⟨⟨⟩⟩ | ⟨⟨⟩, -⟩
  rw [QuotesReturns, Schema.attributes_noted]
  simp [hin]

/-- A description with two lines, neither of which is blank. -/
theorem documentUnlessIgnored_withLineFeeds_of_text :
    ({ platform := .windows : Options }).documentUnlessIgnored (fun _ => none) (.noted "first\nlast") =
      ({ platform := .windows : Options }).documentUnlessIgnored (fun _ => none) (.noted "first\r\nlast") := by
  have hfeeds : (Schema.noted "first\r\nlast").withLineFeeds true = .noted "first\nlast" := rfl
  rw [← hfeeds]
  refine (documentUnlessIgnored_withLineFeeds _ (Schema.hasPairedEnds_noted (by decide)) fun _ => rfl).1 fun h => ?_
  have hlines := ((quotesReturns_noted _ _ _).1 h).2
  exact absurd hlines (by decide)

theorem document_noted (o : Options) (link : Schema → Option String) (description : String) :
    o.document link (.noted description) =
      .ok (o.schemaDocument ((Schema.noted description).page o.platform (o.view link) ⟨"A", "", "a.k"⟩)) := by
  have hproblem : (Schema.noted description).problem? = none := rfl
  rw [document, hproblem]
  rfl

/-- **A blank line is quoted with its carriage return**, so that there is a space in the document which is not in the
one with line feeds. -/
theorem not_same_of_blank :
    (∀ t, (Schema.noted "first\r\n\r\nlast").Reaches t → t.HasPairedEnds true) ∧
      (Schema.noted "first\r\n\r\nlast").withLineFeeds true = .noted "first\n\nlast" ∧
      ({ platform := .unix : Options }).documentUnlessIgnored (fun _ => none) (.noted "first\n\nlast") ≠
        ({ platform := .unix : Options }).documentUnlessIgnored (fun _ => none) (.noted "first\r\n\r\nlast") := by
  have hpaired : ∀ t, (Schema.noted "first\r\n\r\nlast").Reaches t → t.HasPairedEnds true :=
    Schema.hasPairedEnds_noted (by decide)
  have hfeeds : (Schema.noted "first\r\n\r\nlast").withLineFeeds true = .noted "first\n\nlast" := rfl
  have hquotes : QuotesReturns { platform := .unix } (fun _ => none) (Schema.noted "first\r\n\r\nlast") :=
    (quotesReturns_noted _ _ _).2 ⟨rfl, by decide⟩
  refine ⟨hpaired, hfeeds, fun heq => ?_⟩
  have hdocument := document_noted { platform := .unix } (fun _ => none) "first\r\n\r\nlast"
  have hother := (document_withLineFeeds _ hpaired fun _ => rfl).2 hquotes _ hdocument
  rw [hfeeds, document_noted] at hother
  simp only [documentUnlessIgnored, hdocument, document_noted] at heq
  exact hother (congrArg Except.ok (Option.some_inj.1 (Except.ok.inj heq)))

end Options

end SchemaDocs
