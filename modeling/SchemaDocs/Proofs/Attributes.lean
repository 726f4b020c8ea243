import SchemaDocs.Schema.Attribute
import SchemaDocs.Proofs.Table

/-!
# The attributes that are told

What a page tells about the attributes of a schema is a tree of attributes, built together with the element of every
attribute in one recursion. Taken apart, the children of an attribute are the attributes of its element, if that is
an inline object (`elementAttributes_eq`); so every attribute of the tree, at whatever depth, stands for a node
(`in_attributes_iff`).
-/

namespace SchemaDocs

namespace Schema

/-! ## Parts -/

/-- The schemas below a schema that the check looks at. -/
def checkedParts (s : Schema) : List Schema :=
  s.properties.map (·.2) ++ s.items.toList ++ s.additional.toList ++ s.members

def parts (s : Schema) : List Schema := s.checkedParts ++ s.keyType.toList

theorem forall_checkedParts {s : Schema} {P : Schema → Prop} : (∀ t ∈ s.checkedParts, P t) ↔
    (∀ e ∈ s.properties, P e.2) ∧ (∀ t ∈ s.items, P t) ∧ (∀ t ∈ s.additional, P t) ∧ ∀ t ∈ s.members, P t := by
  simp only [checkedParts, List.forall_mem_append, List.forall_mem_map, Option.mem_toList, Option.mem_def, and_assoc]

theorem sizeOf_lt_of_mem_toList {s t : Schema} {o : Option Schema} (h : t ∈ o.toList) (ho : sizeOf o < sizeOf s) :
    sizeOf t < sizeOf s := by
  rw [Option.mem_toList] at h
  rw [h, Option.some.sizeOf_spec] at ho
  omega

/-- What lies directly below a schema is smaller. -/
theorem sizeOf_lt_of_mem_parts {s t : Schema} (h : t ∈ s.parts) : sizeOf t < sizeOf s := by
  obtain ⟨facts, properties, items, additional, keyType, members, number⟩ := s
  simp only [parts, checkedParts, List.mem_append] at h
  rcases h with (((hm | hm) | hm) | hm) | hm
  · obtain ⟨⟨name, t⟩, he, rfl⟩ := List.mem_map.1 hm
    have := List.sizeOf_lt_of_mem he
    simp only [Prod.mk.sizeOf_spec, Schema.mk.sizeOf_spec] at this ⊢
    omega
  · exact sizeOf_lt_of_mem_toList hm (by simp only [Schema.mk.sizeOf_spec]; omega)
  · exact sizeOf_lt_of_mem_toList hm (by simp only [Schema.mk.sizeOf_spec]; omega)
  · have := List.sizeOf_lt_of_mem hm
    simp only [Schema.mk.sizeOf_spec]
    omega
  · exact sizeOf_lt_of_mem_toList hm (by simp only [Schema.mk.sizeOf_spec]; omega)

/-- What holds of a schema whenever it holds of the schemas below it holds of every schema. -/
theorem inductionOn {P : Schema → Prop} (s : Schema) (step : ∀ s : Schema, (∀ e ∈ s.properties, P e.2) →
    (∀ t ∈ s.items, P t) → (∀ t ∈ s.additional, P t) → (∀ t ∈ s.keyType, P t) → (∀ t ∈ s.members, P t) → P s) :
    P s := by
  have hparts : ∀ t ∈ s.parts, P t := fun t ht => inductionOn t step
  simp only [parts, List.forall_mem_append, forall_checkedParts, Option.mem_toList] at hparts
  obtain ⟨⟨properties, items, additional, members⟩, keyType⟩ := hparts
  exact step s properties items additional keyType members
termination_by sizeOf s
decreasing_by exact sizeOf_lt_of_mem_parts ht

/-- The second schema is the first one or lies below it: an attribute, the items of an array, the values or the keys of
a map, or a member of a union, at any depth. -/
inductive Reaches : Schema → Schema → Prop
  | refl (s : Schema) : Reaches s s
  | part {s t u : Schema} (part : t ∈ s.parts) (below : Reaches t u) : Reaches s u

theorem Reaches.trans {s t u : Schema} (h : Reaches s t) (h' : Reaches t u) : Reaches s u := by
  induction h with
  | refl => exact h'
  | part part _ ih => exact .part part (ih h')

/-- What holds of a schema and of all schemas below its parts holds of all schemas below it. -/
theorem forall_reaches {s : Schema} {P : Schema → Prop} (own : P s) (below : ∀ t ∈ s.parts, ∀ u, t.Reaches u → P u) :
    ∀ u, s.Reaches u → P u := by
  rintro u (_ | ⟨part, h⟩)
  · exact own
  · exact below _ part u h

/-! ## Elements -/

theorem kind_eq_reference {s : Schema} : s.kind = .reference ↔ s.modelType.isSome = true := by
  rw [kind, Facts.kind]
  cases s.modelType with
  | some m => simp
  | none =>
    simp only [Option.isSome_none, Bool.false_eq_true, ↓reduceIte, iff_false]
    repeat' split
    all_goals simp

theorem element_eq (s : Schema) : s.element =
    match s.kind with
    | .array => (s.items.map element).getD s
    | .map => (s.additional.map element).getD s
    | _ => s := by
  obtain ⟨facts, properties, items, additional, keyType, members, number⟩ := s
  rw [element]
  simp only [kind]
  cases facts.kind additional.isSome (!properties.isEmpty) (!members.isEmpty) with
  | array => cases items <;> rfl
  | map => cases additional <;> rfl
  | _ => rfl

/-- The element of a schema is the schema or lies below it. -/
theorem reaches_element (s : Schema) : Reaches s s.element := by
  induction s using Schema.inductionOn with
  | step s _ ihItems ihAdditional =>
    rw [element_eq]
    cases s.kind with
    | array =>
      cases hi : s.items with
      | none => exact .refl s
      | some t => exact .part (by simp [parts, checkedParts, hi]) (ihItems t hi)
    | map =>
      cases ha : s.additional with
      | none => exact .refl s
      | some t => exact .part (by simp [parts, checkedParts, ha]) (ihAdditional t ha)
    | _ => exact .refl s

theorem propertyAttributes_eq (view : View) (required : List String) : ∀ properties : List (String × Schema),
    propertyAttributes view required properties = properties.filterMap fun e =>
      if isTold view e.2 then some (toAttribute view required e.1 e.2 (e.2.elementAttributes view)) else none
  | [] => rfl
  | (name, t) :: rest => by
    rw [propertyAttributes, propertyAttributes_eq view required rest, List.filterMap_cons]
    cases isTold view t <;> rfl

theorem elementAttributes_step (view : View) (s : Schema) : s.elementAttributes view =
    match s.kind with
    | .array => (s.items.map (elementAttributes view)).getD []
    | .map => (s.additional.map (elementAttributes view)).getD []
    | .object => s.attributes view
    | _ => [] := by
  obtain ⟨facts, properties, items, additional, keyType, members, number⟩ := s
  rw [elementAttributes]
  simp only [kind]
  cases facts.kind additional.isSome (!properties.isEmpty) (!members.isEmpty) with
  | array => cases items <;> rfl
  | map => cases additional <;> rfl
  | _ => rfl

/-- **What is told below an attribute are the attributes of its element**, if that is an inline object. -/
theorem elementAttributes_eq (view : View) (s : Schema) :
    s.elementAttributes view = if s.element.kind = .object then s.element.attributes view else [] := by
  induction s using Schema.inductionOn with
  | step s _ ihItems ihAdditional =>
    rw [elementAttributes_step, element_eq]
    cases hk : s.kind with
    | array =>
      cases hi : s.items with
      | none => simp [hk]
      | some t => exact ihItems t hi
    | map =>
      cases ha : s.additional with
      | none => simp [hk]
      | some t => exact ihAdditional t ha
    | _ => simp [hk]

theorem mem_attributes {view : View} {s : Schema} {a : Attribute} : a ∈ s.attributes view ↔
    ∃ name t, (name, t) ∈ s.properties ∧ isTold view t = true ∧
      a = toAttribute view s.required name t (t.elementAttributes view) := by
  rw [attributes, Assoc.mem_sortByName, propertyAttributes_eq, List.mem_filterMap]
  constructor
  · rintro ⟨⟨name, t⟩, hm, h⟩
    split at h
    · rename_i ht
      exact ⟨name, t, hm, ht, (Option.some_inj.1 h).symm⟩
    · simp at h
  · rintro ⟨name, t, hm, ht, rfl⟩
    exact ⟨(name, t), hm, if_pos ht⟩

end Schema

/-! ## At every depth -/

/-- The attribute is one of a list, or is told below one of them. -/
inductive Attribute.In (a : Attribute) : List Attribute → Prop
  | here {as : List Attribute} (mem : a ∈ as) : In a as
  | inside {as : List Attribute} {b : Attribute} (mem : b ∈ as) (deep : In a b.children) : In a as

namespace Attribute

variable {a b : Attribute} {rest : List Attribute}

theorem in_of_children (h : In a b.children) : In a (b :: rest) := .inside List.mem_cons_self h

theorem in_of_rest (h : In a rest) : In a (b :: rest) := by
  rcases h with ⟨mem⟩ | ⟨mem, deep⟩
  · exact .here (List.mem_cons_of_mem _ mem)
  · exact .inside (List.mem_cons_of_mem _ mem) deep

end Attribute

namespace Schema

/-- The page of the schema tells an attribute for a node: a property, or one of an inline object in a property. -/
inductive Shows (view : View) : Schema → Attribute → Schema → Prop
  | here {s t : Schema} {name : String} (mem : (name, t) ∈ s.properties) (told : isTold view t = true) :
    Shows view s (toAttribute view s.required name t (t.elementAttributes view)) t
  | inside {s t u : Schema} {name : String} {a : Attribute} (mem : (name, t) ∈ s.properties)
    (told : isTold view t = true) (object : t.element.kind = .object) (deep : Shows view t.element a u) :
    Shows view s a u

variable {view : View} {s t : Schema} {a : Attribute}

/-- **Every attribute of a page, at whatever depth, stands for a node, and every node that is shown has one.** -/
theorem in_attributes_iff : Attribute.In a (s.attributes view) ↔ ∃ t, Shows view s a t := by
  constructor
  · intro h
    generalize has : s.attributes view = as at h
    induction h generalizing s with
    | here mem =>
      subst has
      obtain ⟨name, t, hm, ht, rfl⟩ := mem_attributes.1 mem
      exact ⟨t, .here hm ht⟩
    | inside mem deep ih =>
      subst has
      obtain ⟨name, t, hm, ht, rfl⟩ := mem_attributes.1 mem
      have hchildren := elementAttributes_eq view t
      by_cases hk : t.element.kind = .object
      · rw [if_pos hk] at hchildren
        obtain ⟨u, hu⟩ := ih hchildren.symm
        exact ⟨u, .inside hm ht hk hu⟩
      · rw [if_neg hk] at hchildren
        simp only [toAttribute, hchildren] at deep
        rcases deep with ⟨⟨⟩⟩ | ⟨⟨⟩, -⟩
  · rintro ⟨t, h⟩
    induction h with
    | here mem told => exact .here (mem_attributes.2 ⟨_, _, mem, told, rfl⟩)
    | inside mem told object deep ih =>
      refine .inside (mem_attributes.2 ⟨_, _, mem, told, rfl⟩) ?_
      rw [toAttribute, elementAttributes_eq, if_pos object]
      exact ih

/-- The link of an attribute is the one that the view has for the element of its node, if that refers to a schema. -/
theorem Shows.link_eq (h : Shows view s a t) :
    a.link = if t.element.kind = .reference then view.link t.element else none := by
  induction h with
  | here => rfl
  | inside _ _ _ _ ih => exact ih

/-- The node that an attribute stands for lies below the schema. -/
theorem Shows.reaches (h : Shows view s a t) : s.Reaches t := by
  have hpart {s t : Schema} {name : String} (mem : (name, t) ∈ s.properties) : t ∈ s.parts := by
    simp only [parts, checkedParts, List.mem_append]
    exact .inl (.inl (.inl (.inl (List.mem_map_of_mem mem))))
  induction h with
  | here mem => exact .part (hpart mem) (.refl _)
  | inside mem _ _ _ ih => exact .part (hpart mem) ((reaches_element _).trans ih)

/-- The description of an attribute is that of its node, trimmed. -/
theorem Shows.description_eq (h : Shows view s a t) : a.description = Text.trimBlanks t.description := by
  induction h with
  | here => rfl
  | inside _ _ _ _ ih => exact ih

end Schema

/-! ## Links -/

namespace Attribute

mutual

/-- An attribute with what `f` makes of its link, and of the links of its children. -/
def mapLink (f : Option String → Option String) : Attribute → Attribute
  | ⟨name, token, required, readOnly, deprecated, description, default, link, children⟩ =>
    ⟨name, token, required, readOnly, deprecated, description, default, f link, mapLinks f children⟩

/-- Attributes with what `f` makes of their links. -/
def mapLinks (f : Option String → Option String) : List Attribute → List Attribute
  | [] => []
  | a :: rest => a.mapLink f :: mapLinks f rest

end

variable {f : Option String → Option String}

theorem mapLinks_eq_map (f : Option String → Option String) (attributes : List Attribute) :
    mapLinks f attributes = attributes.map (mapLink f) := by
  induction attributes with
  | nil => rfl
  | cons a rest ih => exact congrArg (a.mapLink f :: ·) ih

mutual

theorem mapLink_of_fixed : ∀ a : Attribute, f a.link = a.link → (∀ b, In b a.children → f b.link = b.link) →
    a.mapLink f = a
  | ⟨name, token, required, readOnly, deprecated, description, default, link, children⟩, hlink, h => by
    rw [mapLink, mapLinks_of_fixed children h, show f link = link from hlink]

/-- Attributes stay as they are if all links among them do, at every depth. -/
theorem mapLinks_of_fixed : ∀ attributes : List Attribute, (∀ a, In a attributes → f a.link = a.link) →
    mapLinks f attributes = attributes
  | [], _ => rfl
  | a :: rest, h => by
    rw [mapLinks, mapLinks_of_fixed rest fun b hb => h b (in_of_rest hb),
      mapLink_of_fixed a (h a (.here List.mem_cons_self)) fun b hb => h b (in_of_children hb)]

end

end Attribute

namespace Schema

variable {v w : View} {f : Option String → Option String}

theorem toAttribute_mapLink (hf : f none = none) (hl : ∀ s, w.link s = f (v.link s)) (required : List String)
    (name : String) (s : Schema) (children : List Attribute) :
    toAttribute w required name s (Attribute.mapLinks f children) =
      (toAttribute v required name s children).mapLink f := by
  simp only [toAttribute, Attribute.mapLink, hl, Attribute.mk.injEq, true_and, and_true]
  split
  · rfl
  · exact hf.symm

theorem propertyAttributes_mapLinks (hf : f none = none) (hl : ∀ s, w.link s = f (v.link s))
    (hi : w.ignoreDeprecated = v.ignoreDeprecated) (required : List String) {properties : List (String × Schema)}
    (h : ∀ e ∈ properties, e.2.elementAttributes w = Attribute.mapLinks f (e.2.elementAttributes v)) :
    propertyAttributes w required properties = Attribute.mapLinks f (propertyAttributes v required properties) := by
  induction properties with
  | nil => rfl
  | cons e rest ih =>
    rw [List.forall_mem_cons] at h
    rw [propertyAttributes, propertyAttributes, ih h.2, h.1, toAttribute_mapLink hf hl, isTold, isTold, hi]
    split <;> rfl

theorem sortByName_mapLinks (attributes : List Attribute) :
    Assoc.sortByName (·.name) (Attribute.mapLinks f attributes) =
      Attribute.mapLinks f (Assoc.sortByName (·.name) attributes) := by
  have hname : (fun a : Attribute => a.name) ∘ Attribute.mapLink f = (·.name) := funext fun a => by cases a; rfl
  rw [Attribute.mapLinks_eq_map, Attribute.mapLinks_eq_map, Assoc.sortByName_map, hname]

theorem elementAttributes_mapLinks (hf : f none = none) (hl : ∀ s, w.link s = f (v.link s))
    (hi : w.ignoreDeprecated = v.ignoreDeprecated) (s : Schema) :
    s.elementAttributes w = Attribute.mapLinks f (s.elementAttributes v) := by
  induction s using Schema.inductionOn with
  | step s ihProperties ihItems ihAdditional =>
    rw [elementAttributes_step, elementAttributes_step]
    cases hk : s.kind with
    | array =>
      cases hs : s.items with
      | none => rfl
      | some t => exact ihItems t hs
    | map =>
      cases hs : s.additional with
      | none => rfl
      | some t => exact ihAdditional t hs
    | object =>
      simp only [attributes]
      rw [propertyAttributes_mapLinks hf hl hi _ ihProperties, sortByName_mapLinks]
    | _ => rfl

/-- **The attributes of a schema, at every depth, differ in their links only if the views do.** -/
theorem attributes_mapLinks (hf : f none = none) (hl : ∀ s, w.link s = f (v.link s))
    (hi : w.ignoreDeprecated = v.ignoreDeprecated) (s : Schema) :
    s.attributes w = Attribute.mapLinks f (s.attributes v) := by
  rw [attributes, attributes, propertyAttributes_mapLinks hf hl hi _ fun e _ => elementAttributes_mapLinks hf hl hi e.2,
    sortByName_mapLinks]

end Schema

end SchemaDocs
