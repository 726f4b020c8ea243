import Mathlib.Data.List.Basic
import SchemaDocs.Schema.Token
import SchemaDocs.Proofs.Attributes

/-!
# Outlines

What documents tell about a schema is less than the schema. Of a node that carries a model type only the reference is
told, and the order of attributes does not matter. The `outline` of a schema keeps just what is told: two schemas with
one outline have the same type tokens and the same attributes (`attributes_outline`), however much of the schemas
referred to was known when they were read.
-/

namespace SchemaDocs

/-- The links of a view depend on model types only. -/
def View.IsNominal (view : View) : Prop := ∀ s t : Schema, s.modelType = t.modelType → view.link s = view.link t

namespace Schema

/-- What is told about a node inside another one: of a named schema no more than the reference to it. -/
def tip (s : Schema) : Schema :=
  match s.modelType with
  | none => s
  | some m => {
      modelType := some m
      description := s.description
      default := s.default
      readOnly := s.readOnly
      decorators := s.decorators }

mutual

/-- The schema with its attributes in the order of their names, without numbers, and without what is below the named
schemas in it. -/
def outline : Schema → Schema
  | ⟨facts, properties, items, additional, keyType, members, _⟩ =>
    ⟨facts, Assoc.sortByName (·.1) (outlineProperties properties), outlineElement items, outlineElement additional,
      outlineElement keyType, outlineMembers members, none⟩
termination_by structural schema => schema

def outlineProperties : List (String × Schema) → List (String × Schema)
  | [] => []
  | (name, schema) :: rest => (name, (outline schema).tip) :: outlineProperties rest
termination_by structural properties => properties

def outlineElement : Option Schema → Option Schema
  | none => none
  | some schema => some (outline schema).tip
termination_by structural element => element

def outlineMembers : List Schema → List Schema
  | [] => []
  | schema :: rest => (outline schema).tip :: outlineMembers rest
termination_by structural members => members

end

/-- What is told about a schema inside another one. -/
def told (s : Schema) : Schema := s.outline.tip

/-! ## Parts of an outline -/

theorem outlineProperties_eq : ∀ properties : List (String × Schema),
    outlineProperties properties = properties.map fun e => (e.1, e.2.told)
  | [] => rfl
  | (name, s) :: rest => by rw [outlineProperties, outlineProperties_eq rest]; rfl

theorem outlineElement_eq (element : Option Schema) : outlineElement element = element.map told := by
  cases element <;> rfl

theorem outlineMembers_eq : ∀ members : List Schema, outlineMembers members = members.map told
  | [] => rfl
  | s :: rest => by rw [outlineMembers, outlineMembers_eq rest]; rfl

theorem map_eq_of_toList {α β : Type} {f : α → β} {a b : Option α} (h : a.toList.map f = b.toList.map f) :
    a.map f = b.map f := by
  cases a <;> cases b <;> simp_all

theorem outline_eq (s : Schema) : s.outline =
    { s.toFacts with
      properties := Assoc.sortByName (·.1) (s.properties.map fun e => (e.1, e.2.told))
      items := s.items.map told
      additional := s.additional.map told
      keyType := s.keyType.map told
      members := s.members.map told } := by
  obtain ⟨facts, properties, items, additional, keyType, members, number⟩ := s
  simp only [outline, outlineProperties_eq, outlineElement_eq, outlineMembers_eq]

@[simp] theorem toFacts_outline (s : Schema) : s.outline.toFacts = s.toFacts := by
  rw [outline_eq]

theorem tip_of_none {s : Schema} (h : s.modelType = none) : s.tip = s := by
  rw [tip, h]

theorem told_of_none {s : Schema} (h : s.modelType = none) : s.told = s.outline := by
  rw [told, tip_of_none (by rw [outline_eq]; exact h)]

@[simp] theorem modelType_told (s : Schema) : s.told.modelType = s.modelType := by
  rw [told, tip, outline_eq]
  cases h : s.modelType <;> simp [h]

@[simp] theorem description_told (s : Schema) : s.told.description = s.description := by
  rw [told, tip, outline_eq]
  cases h : s.modelType <;> rfl

@[simp] theorem default_told (s : Schema) : s.told.default = s.default := by
  rw [told, tip, outline_eq]
  cases h : s.modelType <;> rfl

@[simp] theorem readOnly_told (s : Schema) : s.told.readOnly = s.readOnly := by
  rw [told, tip, outline_eq]
  cases h : s.modelType <;> rfl

@[simp] theorem decorators_told (s : Schema) : s.told.decorators = s.decorators := by
  rw [told, tip, outline_eq]
  cases h : s.modelType <;> rfl

@[simp] theorem isDeprecated_told (s : Schema) : s.told.isDeprecated = s.isDeprecated := by
  rw [Facts.isDeprecated, Facts.deprecation?, decorators_told]
  rfl

theorem sortByName_eq_nil {α : Type} {name : α → String} {l : List α} : Assoc.sortByName name l = [] ↔ l = [] := by
  have h := (Assoc.sortByName_perm name l).length_eq
  rw [← List.length_eq_zero_iff, h, List.length_eq_zero_iff]

@[simp] theorem kind_outline (s : Schema) : s.outline.kind = s.kind := by
  rw [kind, kind, outline_eq]
  have hproperties : (Assoc.sortByName (·.1) (s.properties.map fun e => (e.1, e.2.told))).isEmpty =
      s.properties.isEmpty := by
    rw [Bool.eq_iff_iff, List.isEmpty_iff, List.isEmpty_iff, sortByName_eq_nil, List.map_eq_nil_iff]
  simp [hproperties]

@[simp] theorem kind_told (s : Schema) : s.told.kind = s.kind := by
  cases h : s.modelType with
  | none => rw [told_of_none h, kind_outline]
  | some m =>
    have hs : s.kind = .reference := by simp [kind, Facts.kind, h]
    have ht : s.told.kind = .reference := by
      rw [kind, Facts.kind, modelType_told, h]
      rfl
    rw [hs, ht]

theorem told_of_some {s : Schema} {m : ModelType} (h : s.modelType = some m) : s.told = {
    modelType := some m
    description := s.description
    default := s.default
    readOnly := s.readOnly
    decorators := s.decorators } := by
  rw [told, tip, toFacts_outline, h]

/-- Of two nodes that refer to one schema the same is told if the same stands next to the references. -/
theorem told_congr {s t : Schema} {m : ModelType} (hs : s.modelType = some m) (ht : t.modelType = some m)
    (hdescription : s.description = t.description) (hdefault : s.default = t.default)
    (hreadOnly : s.readOnly = t.readOnly) (hdecorators : s.decorators = t.decorators) : s.told = t.told := by
  rw [told_of_some hs, told_of_some ht, hdescription, hdefault, hreadOnly, hdecorators]

theorem kind_of_some {s : Schema} {m : ModelType} (h : s.modelType = some m) : s.kind = .reference :=
  kind_eq_reference.2 (by rw [h]; rfl)

/-! ## Types of attributes -/

theorem memberTokens_eq : ∀ members : List Schema, memberTokens members = members.map token
  | [] => rfl
  | s :: rest => by rw [memberTokens, memberTokens_eq rest, List.map_cons]

theorem tokenOr_eq (absent : String) (element : Option Schema) :
    tokenOr absent element = (element.map token).getD absent := by
  cases element <;> rfl

theorem token_eq (s : Schema) : s.token =
    match s.kind with
    | .reference => (s.modelType.map ModelType.name).getD (scalarToken s.type)
    | .union => Text.join " | " (s.members.map token)
    | .enum => match s.enum with
      | some (value :: values) => Text.join " | " ((value :: values).map Value.literal)
      | _ => scalarToken s.type
    | .array => "[" ++ (s.items.map token).getD "any" ++ "]"
    | .map => "\x7b" ++ (s.keyType.map token).getD "str" ++ ":" ++ (s.additional.map token).getD "any" ++ "\x7d"
    | .object => "dict"
    | .scalar => scalarToken s.type := by
  obtain ⟨facts, properties, items, additional, keyType, members, number⟩ := s
  rw [token, memberTokens_eq]
  simp only [tokenOr_eq, kind]
  cases facts.kind additional.isSome (!properties.isEmpty) (!members.isEmpty) with
  | reference => cases facts.modelType <;> rfl
  | _ => rfl

theorem map_told {β : Type} {f : Schema → β} {element : Option Schema} (h : ∀ t ∈ element, f t.told = f t) :
    (element.map told).map f = element.map f := by
  cases element with
  | none => rfl
  | some t => exact congrArg some (h t rfl)

@[simp] theorem token_told (s : Schema) : s.told.token = s.token := by
  induction s using Schema.inductionOn with
  | step s _ ihItems ihAdditional ihKeyType ihMembers =>
    rw [token_eq, token_eq s, kind_told]
    cases hm : s.modelType with
    | some m => simp [kind_of_some hm, hm]
    | none =>
      have hmembers : (s.members.map told).map token = s.members.map token := by
        rw [List.map_map]
        exact List.map_congr_left ihMembers
      rw [told_of_none hm, outline_eq]
      simp only [hm, map_told ihItems, map_told ihAdditional, map_told ihKeyType, hmembers]

@[simp] theorem modelType_element_told (s : Schema) : s.told.element.modelType = s.element.modelType := by
  induction s using Schema.inductionOn with
  | step s _ ihItems ihAdditional =>
    cases hm : s.modelType with
    | some m => rw [element_eq, element_eq s, kind_told, kind_of_some hm, modelType_told]
    | none =>
      rw [element_eq, element_eq s, kind_told, told_of_none hm, outline_eq]
      cases s.kind with
      | array =>
        cases hi : s.items with
        | none => rfl
        | some t => exact ihItems t hi
      | map =>
        cases ha : s.additional with
        | none => rfl
        | some t => exact ihAdditional t ha
      | _ => rfl

/-! ## Attributes -/

variable {view : View}

@[simp] theorem isTold_told (view : View) (s : Schema) : isTold view s.told = isTold view s := by
  rw [isTold, isTold, isDeprecated_told]

theorem toAttribute_told (hv : view.IsNominal) (required : List String) (name : String) (s : Schema)
    (children : List Attribute) :
    toAttribute view required name s.told children = toAttribute view required name s children := by
  have hkind : (s.told.element.kind = .reference) = (s.element.kind = .reference) := by
    rw [kind_eq_reference, kind_eq_reference, modelType_element_told]
  simp only [toAttribute, token_told, readOnly_told, isDeprecated_told, description_told, default_told, hkind,
    hv _ _ (modelType_element_told s)]

/-- The attributes of a schema are those of its outline if so are the attributes inside them. -/
theorem attributes_outline_of (hv : view.IsNominal) {s : Schema}
    (h : ∀ e ∈ s.properties, e.2.told.elementAttributes view = e.2.elementAttributes view) :
    s.outline.attributes view = s.attributes view := by
  have hmap : (s.properties.map fun e => (e.1, e.2.told)).filterMap (fun e =>
        if isTold view e.2 then some (toAttribute view s.required e.1 e.2 (e.2.elementAttributes view)) else none) =
      s.properties.filterMap (fun e =>
        if isTold view e.2 then some (toAttribute view s.required e.1 e.2 (e.2.elementAttributes view)) else none) := by
    rw [List.filterMap_map]
    refine List.filterMap_congr fun e he => ?_
    simp only [Function.comp_apply, isTold_told, h e he, toAttribute_told hv]
  rw [attributes, attributes, propertyAttributes_eq, propertyAttributes_eq, ← hmap, outline_eq]
  refine Assoc.sortByName_filterMap_sortByName (fun e a ha => ?_) _
  split at ha
  · cases ha
    rfl
  · simp at ha

theorem elementAttributes_told (hv : view.IsNominal) (s : Schema) :
    s.told.elementAttributes view = s.elementAttributes view := by
  induction s using Schema.inductionOn with
  | step s ihProperties ihItems ihAdditional =>
    rw [elementAttributes_step, elementAttributes_step view s, kind_told]
    cases hm : s.modelType with
    | some m => rw [kind_of_some hm]
    | none =>
      rw [told_of_none hm, attributes_outline_of hv ihProperties, outline_eq]
      simp only [map_told ihItems, map_told ihAdditional]

/-- **The outline of a schema tells its attributes**, with everything below them. -/
theorem attributes_outline (hv : view.IsNominal) (s : Schema) : s.outline.attributes view = s.attributes view :=
  attributes_outline_of hv fun e _ => elementAttributes_told hv e.2

end Schema

end SchemaDocs
