import Mathlib.Data.List.DropRight
import SchemaDocs.Proofs.LineEnds
import SchemaDocs.Proofs.Outline
import SchemaDocs.Schema.Check

/-!
# Schemas with line feeds

A schema whose descriptions have line feeds for their line ends, at every depth, and is the same schema otherwise: its
forms and types, what the check finds, and what it tells of its attributes but for the descriptions
(`attributes_withLineFeeds`). A description is trimmed before it is told; whether its line ends are settled before or
after that makes no difference (`unifyLineEnds_trimBlanks`).
-/

namespace SchemaDocs

/-! ## Blanks and line ends -/

namespace Text

theorem isEmpty_unifyLineEndsList (cs : List Char) : (unifyLineEndsList cs).isEmpty = cs.isEmpty := by
  induction cs using unifyLineEndsList.induct with
  | case1 => rfl
  | case2 rest => rfl
  | case3 c rest hpair =>
    rw [unifyLineEndsList]
    · rfl
    · exact hpair

theorem unifyLineEndsList_dropBlanks (cs : List Char) :
    unifyLineEndsList (cs.dropWhile isBlank) = (unifyLineEndsList cs).dropWhile isBlank := by
  induction cs using unifyLineEndsList.induct with
  | case1 => rfl
  | case2 rest ih =>
    have hreturn : isBlank '\r' = true := by decide
    have hfeed : isBlank '\n' = true := by decide
    rw [unifyLineEndsList, List.dropWhile_cons_of_pos hreturn, List.dropWhile_cons_of_pos hfeed,
      List.dropWhile_cons_of_pos hfeed, ih]
  | case3 c rest hpair ih =>
    have hstep : unifyLineEndsList (c :: rest) = c :: unifyLineEndsList rest := by
      rw [unifyLineEndsList]
      exact hpair
    by_cases hc : isBlank c = true
    · rw [hstep, List.dropWhile_cons_of_pos hc, List.dropWhile_cons_of_pos hc, ih]
    · rw [List.dropWhile_cons_of_neg hc, hstep, List.dropWhile_cons_of_neg hc]

theorem unifyLineEndsList_singleton (c : Char) : unifyLineEndsList [c] = [c] := by
  rw [unifyLineEndsList]
  · rfl
  · simp

/-- A pair at the end of a list. -/
theorem unifyLineEndsList_append_pair (cs : List Char) :
    unifyLineEndsList (cs ++ ['\r', '\n']) = unifyLineEndsList cs ++ ['\n'] :=
  unifyLineEndsList_append (.inr (by decide))

theorem unifyLineEndsList_dropBlanksAtEnd (cs : List Char) :
    unifyLineEndsList (cs.rdropWhile isBlank) = (unifyLineEndsList cs).rdropWhile isBlank := by
  have hreturn : isBlank '\r' = true := by decide
  have hfeed : isBlank '\n' = true := by decide
  induction cs using List.reverseRecOn with
  | nil => rfl
  | append_singleton cs c ih =>
    by_cases hpair : cs.getLast? = some '\r' ∧ c = '\n'
    · -- the pair becomes a line feed, and all of them are blank
      obtain ⟨hlast, rfl⟩ := hpair
      obtain ⟨front, rfl⟩ := List.getLast?_eq_some_iff.1 hlast
      have hfront : unifyLineEndsList (front ++ ['\r']) = unifyLineEndsList front ++ ['\r'] :=
        unifyLineEndsList_append (.inr (by decide))
      rw [List.rdropWhile_concat_pos _ _ _ hfeed, ih, hfront, List.rdropWhile_concat_pos _ _ _ hreturn,
        List.append_assoc, List.singleton_append, unifyLineEndsList_append_pair,
        List.rdropWhile_concat_pos _ _ _ hfeed]
    · have hseam : Seamless cs [c] := by
        by_cases hlast : cs.getLast? = some '\r'
        · exact .inr fun hc => hpair ⟨hlast, Option.some_inj.1 hc⟩
        · exact .inl hlast
      rw [unifyLineEndsList_append hseam, unifyLineEndsList_singleton]
      by_cases hc : isBlank c = true
      · rw [List.rdropWhile_concat_pos _ _ _ hc, List.rdropWhile_concat_pos _ _ _ hc, ih]
      · rw [List.rdropWhile_concat_neg _ _ _ hc, List.rdropWhile_concat_neg _ _ _ hc,
          unifyLineEndsList_append hseam, unifyLineEndsList_singleton]

/-- **A text is trimmed the same whether its line ends are settled before or after that.** -/
theorem unifyLineEnds_trimBlanks (s : String) : unifyLineEnds (trimBlanks s) = trimBlanks (unifyLineEnds s) := by
  have hends := unifyLineEndsList_dropBlanksAtEnd (s.toList.dropWhile isBlank)
  rw [List.rdropWhile, List.rdropWhile, unifyLineEndsList_dropBlanks] at hends
  rw [trimBlanks, trimBlanks, trim, trim, unifyLineEnds, unifyLineEnds, String.toList_ofList, String.toList_ofList,
    trimList, trimList, hends]

end Text

/-! ## Attributes and examples -/

namespace Attribute

mutual

/-- The attribute with line feeds in its description, and in those of the attributes below it. -/
def withLineFeeds : Attribute → Attribute
  | ⟨name, token, required, readOnly, deprecated, description, default, link, children⟩ =>
    ⟨name, token, required, readOnly, deprecated, Text.unifyLineEnds description, default, link,
      withLineFeedsOf children⟩

def withLineFeedsOf : List Attribute → List Attribute
  | [] => []
  | a :: rest => a.withLineFeeds :: withLineFeedsOf rest

end

theorem withLineFeeds_eq (a : Attribute) : a.withLineFeeds =
    { a with description := Text.unifyLineEnds a.description, children := withLineFeedsOf a.children } := by
  cases a
  rfl

theorem withLineFeedsOf_eq_map (attributes : List Attribute) :
    withLineFeedsOf attributes = attributes.map withLineFeeds := by
  induction attributes with
  | nil => rfl
  | cons a rest ih => rw [withLineFeedsOf, ih, List.map_cons]

end Attribute

/-- The example with line feeds in its description, if that is asked for. -/
def Example.withLineFeeds (inExamples : Bool) (e : Example) : Example :=
  if inExamples then { e with description := Text.unifyLineEnds e.description } else e

/-! ## Schemas -/

namespace Schema

variable (inExamples : Bool)

mutual

/-- The schema with line feeds for the line ends of its descriptions at every depth, those of its examples included if
that is asked for. -/
def withLineFeeds : Schema → Schema
  | ⟨facts, properties, items, additional, keyType, members, number⟩ =>
    ⟨{ facts with
        description := Text.unifyLineEnds facts.description
        examples := facts.examples.map (Example.withLineFeeds inExamples) },
      propertiesWithLineFeeds properties, elementWithLineFeeds items, elementWithLineFeeds additional,
      elementWithLineFeeds keyType, membersWithLineFeeds members, number⟩
termination_by structural schema => schema

def propertiesWithLineFeeds : List (String × Schema) → List (String × Schema)
  | [] => []
  | (name, schema) :: rest => (name, withLineFeeds schema) :: propertiesWithLineFeeds rest
termination_by structural properties => properties

def elementWithLineFeeds : Option Schema → Option Schema
  | none => none
  | some schema => some (withLineFeeds schema)
termination_by structural element => element

/-- The members of a union with line feeds in their descriptions. -/
def membersWithLineFeeds : List Schema → List Schema
  | [] => []
  | schema :: rest => withLineFeeds schema :: membersWithLineFeeds rest
termination_by structural members => members

end

theorem propertiesWithLineFeeds_eq : ∀ properties : List (String × Schema),
    propertiesWithLineFeeds inExamples properties = properties.map fun e => (e.1, e.2.withLineFeeds inExamples)
  | [] => rfl
  | (name, s) :: rest => by rw [propertiesWithLineFeeds, propertiesWithLineFeeds_eq rest]; rfl

theorem elementWithLineFeeds_eq (element : Option Schema) :
    elementWithLineFeeds inExamples element = element.map (withLineFeeds inExamples) := by
  cases element <;> rfl

theorem membersWithLineFeeds_eq : ∀ members : List Schema,
    membersWithLineFeeds inExamples members = members.map (withLineFeeds inExamples)
  | [] => rfl
  | s :: rest => by rw [membersWithLineFeeds, membersWithLineFeeds_eq rest]; rfl

theorem withLineFeeds_eq (s : Schema) : s.withLineFeeds inExamples =
    { s with
      description := Text.unifyLineEnds s.description
      examples := s.examples.map (Example.withLineFeeds inExamples)
      properties := s.properties.map fun e => (e.1, e.2.withLineFeeds inExamples)
      items := s.items.map (withLineFeeds inExamples)
      additional := s.additional.map (withLineFeeds inExamples)
      keyType := s.keyType.map (withLineFeeds inExamples)
      members := s.members.map (withLineFeeds inExamples) } := by
  obtain ⟨facts, properties, items, additional, keyType, members, number⟩ := s
  simp only [withLineFeeds, propertiesWithLineFeeds_eq, elementWithLineFeeds_eq, membersWithLineFeeds_eq]

@[simp] theorem modelType_withLineFeeds (s : Schema) : (s.withLineFeeds inExamples).modelType = s.modelType := by
  rw [withLineFeeds_eq]

@[simp] theorem description_withLineFeeds (s : Schema) :
    (s.withLineFeeds inExamples).description = Text.unifyLineEnds s.description := by
  rw [withLineFeeds_eq]

@[simp] theorem default_withLineFeeds (s : Schema) : (s.withLineFeeds inExamples).default = s.default := by
  rw [withLineFeeds_eq]

@[simp] theorem readOnly_withLineFeeds (s : Schema) : (s.withLineFeeds inExamples).readOnly = s.readOnly := by
  rw [withLineFeeds_eq]

@[simp] theorem isDeprecated_withLineFeeds (s : Schema) :
    (s.withLineFeeds inExamples).isDeprecated = s.isDeprecated := by
  rw [withLineFeeds_eq]
  rfl

@[simp] theorem qualifiedName_withLineFeeds (s : Schema) :
    (s.withLineFeeds inExamples).qualifiedName = s.qualifiedName := by
  rw [withLineFeeds_eq]
  rfl

@[simp] theorem kind_withLineFeeds (s : Schema) : (s.withLineFeeds inExamples).kind = s.kind := by
  rw [withLineFeeds_eq]
  simp [kind, Facts.kind]

/-! ## Types and elements -/

theorem map_withLineFeeds {β : Type} {f : Schema → β} {element : Option Schema}
    (h : ∀ t ∈ element, f (t.withLineFeeds inExamples) = f t) :
    (element.map (withLineFeeds inExamples)).map f = element.map f := by
  cases element with
  | none => rfl
  | some t => exact congrArg some (h t rfl)

/-- Types do not depend on descriptions. -/
@[simp] theorem token_withLineFeeds (s : Schema) : (s.withLineFeeds inExamples).token = s.token := by
  induction s using Schema.inductionOn with
  | step s _ ihItems ihAdditional ihKeyType ihMembers =>
    have hmembers : (s.members.map (withLineFeeds inExamples)).map token = s.members.map token := by
      rw [List.map_map]
      exact List.map_congr_left ihMembers
    rw [token_eq, token_eq s, kind_withLineFeeds, withLineFeeds_eq]
    simp only [map_withLineFeeds inExamples ihItems, map_withLineFeeds inExamples ihAdditional,
      map_withLineFeeds inExamples ihKeyType, hmembers]

theorem element_withLineFeeds (s : Schema) :
    (s.withLineFeeds inExamples).element = s.element.withLineFeeds inExamples := by
  induction s using Schema.inductionOn with
  | step s _ ihItems ihAdditional =>
    rw [element_eq, element_eq s, kind_withLineFeeds]
    have hitems : (s.withLineFeeds inExamples).items = s.items.map (withLineFeeds inExamples) := by
      rw [withLineFeeds_eq]
    have hadditional : (s.withLineFeeds inExamples).additional = s.additional.map (withLineFeeds inExamples) := by
      rw [withLineFeeds_eq]
    cases s.kind with
    | array =>
      simp only [hitems]
      cases hi : s.items with
      | none => rfl
      | some t => exact ihItems t hi
    | map =>
      simp only [hadditional]
      cases ha : s.additional with
      | none => rfl
      | some t => exact ihAdditional t ha
    | _ => rfl

/-! ## What is told of attributes -/

variable {inExamples} {view : View}

theorem toAttribute_withLineFeeds (hlink : ∀ t : Schema, view.link (t.withLineFeeds inExamples) = view.link t)
    (required : List String) (name : String) (s : Schema) (children : List Attribute) :
    toAttribute view required name (s.withLineFeeds inExamples) (Attribute.withLineFeedsOf children) =
      (toAttribute view required name s children).withLineFeeds := by
  simp only [Attribute.withLineFeeds_eq, toAttribute, token_withLineFeeds, element_withLineFeeds, kind_withLineFeeds,
    hlink, isDeprecated_withLineFeeds, readOnly_withLineFeeds, default_withLineFeeds, description_withLineFeeds,
    Text.unifyLineEnds_trimBlanks]

theorem propertyAttributes_withLineFeeds
    (hlink : ∀ t : Schema, view.link (t.withLineFeeds inExamples) = view.link t) (required : List String)
    {properties : List (String × Schema)} (h : ∀ e ∈ properties,
      (e.2.withLineFeeds inExamples).elementAttributes view = Attribute.withLineFeedsOf (e.2.elementAttributes view)) :
    propertyAttributes view required (properties.map fun e => (e.1, e.2.withLineFeeds inExamples)) =
      Attribute.withLineFeedsOf (propertyAttributes view required properties) := by
  induction properties with
  | nil => rfl
  | cons e rest ih =>
    obtain ⟨name, s⟩ := e
    obtain ⟨hs, hrest⟩ := List.forall_mem_cons.1 h
    have htold : isTold view (s.withLineFeeds inExamples) = isTold view s := by
      rw [isTold, isTold, isDeprecated_withLineFeeds]
    rw [List.map_cons, propertyAttributes, propertyAttributes, htold, ih hrest, hs, toAttribute_withLineFeeds hlink]
    cases isTold view s <;> rfl

theorem attributes_withLineFeeds_of (hlink : ∀ t : Schema, view.link (t.withLineFeeds inExamples) = view.link t)
    {s : Schema} (h : ∀ e ∈ s.properties,
      (e.2.withLineFeeds inExamples).elementAttributes view = Attribute.withLineFeedsOf (e.2.elementAttributes view)) :
    (s.withLineFeeds inExamples).attributes view = Attribute.withLineFeedsOf (s.attributes view) := by
  have hname : (fun a : Attribute => a.name) ∘ Attribute.withLineFeeds = fun a => a.name := by
    funext a
    rw [Function.comp_apply, Attribute.withLineFeeds_eq]
  rw [attributes, attributes, withLineFeeds_eq, propertyAttributes_withLineFeeds hlink _ h,
    Attribute.withLineFeedsOf_eq_map, Attribute.withLineFeedsOf_eq_map, Assoc.sortByName_map, hname]

theorem elementAttributes_withLineFeeds (hlink : ∀ t : Schema, view.link (t.withLineFeeds inExamples) = view.link t)
    (s : Schema) : (s.withLineFeeds inExamples).elementAttributes view =
      Attribute.withLineFeedsOf (s.elementAttributes view) := by
  induction s using Schema.inductionOn with
  | step s ihProperties ihItems ihAdditional =>
    rw [elementAttributes_step, elementAttributes_step, kind_withLineFeeds]
    cases s.kind with
    | array =>
      rw [withLineFeeds_eq]
      cases hi : s.items with
      | none => rfl
      | some t => exact ihItems t hi
    | map =>
      rw [withLineFeeds_eq]
      cases ha : s.additional with
      | none => rfl
      | some t => exact ihAdditional t ha
    | object => exact attributes_withLineFeeds_of hlink ihProperties
    | _ => rfl

/-- **With line feeds in its descriptions a schema tells the same attributes**, with line feeds in theirs. -/
theorem attributes_withLineFeeds (hlink : ∀ t : Schema, view.link (t.withLineFeeds inExamples) = view.link t)
    (s : Schema) : (s.withLineFeeds inExamples).attributes view = Attribute.withLineFeedsOf (s.attributes view) :=
  attributes_withLineFeeds_of hlink fun e _ => elementAttributes_withLineFeeds hlink e.2

/-! ## The check -/

variable (inExamples)

mutual

theorem visit_withLineFeeds : ∀ (s : Schema) (location : String) (seen : Visited),
    visit location seen (s.withLineFeeds inExamples) = visit location seen s
  | ⟨facts, properties, items, additional, keyType, members, number⟩, location, seen => by
    have hnames : (propertiesWithLineFeeds inExamples properties).map (·.1) = properties.map (·.1) := by
      rw [propertiesWithLineFeeds_eq, List.map_map]
      rfl
    simp only [withLineFeeds, visit, hnames, visitProperties_withLineFeeds properties,
      visitElement_withLineFeeds items, visitElement_withLineFeeds additional, visitMembers_withLineFeeds members]

theorem visitProperties_withLineFeeds : ∀ (properties : List (String × Schema)) (location : String) (seen : Visited),
    visitProperties location seen (propertiesWithLineFeeds inExamples properties) =
      visitProperties location seen properties
  | [], _, _ => rfl
  | (name, s) :: rest, location, seen => by
    simp only [propertiesWithLineFeeds, visitProperties, visit_withLineFeeds s, visitProperties_withLineFeeds rest]

theorem visitElement_withLineFeeds : ∀ (element : Option Schema) (location : String) (seen : Visited),
    visitElement location seen (elementWithLineFeeds inExamples element) = visitElement location seen element
  | none, _, _ => rfl
  | some s, location, seen => by
    simp only [elementWithLineFeeds, visitElement, visit_withLineFeeds s]

theorem visitMembers_withLineFeeds : ∀ (members : List Schema) (location : String) (index : Nat) (seen : Visited),
    visitMembers location index seen (membersWithLineFeeds inExamples members) =
      visitMembers location index seen members
  | [], _, _, _ => rfl
  | s :: rest, location, index, seen => by
    simp only [membersWithLineFeeds, visitMembers, visit_withLineFeeds s, visitMembers_withLineFeeds rest]

end

/-- The check does not look at descriptions. -/
theorem problem?_withLineFeeds (s : Schema) : (s.withLineFeeds inExamples).problem? = s.problem? := by
  rw [problem?, problem?, visit_withLineFeeds]

end Schema

end SchemaDocs
