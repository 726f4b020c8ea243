import SchemaDocs.Proofs.Attributes

/-!
# Leaving out deprecated attributes

A view can leave out what is marked as deprecated. It does so at every depth and in no other way: what it tells are the
attributes of the full view without those that are marked and without whatever is told below these
(`attributes_ignoreDeprecated`). The form and the type of a schema are those of its node, so an inline object stays one
when all of its attributes are left out.
-/

namespace SchemaDocs

namespace Attribute

mutual

def withoutDeprecated : Attribute → Attribute
  | ⟨name, token, required, readOnly, deprecated, description, default, link, children⟩ =>
    ⟨name, token, required, readOnly, deprecated, description, default, link, dropDeprecated children⟩

/-- Attributes without the deprecated ones, at every depth. -/
def dropDeprecated : List Attribute → List Attribute
  | [] => []
  | a :: rest => if a.deprecated then dropDeprecated rest else a.withoutDeprecated :: dropDeprecated rest

end

theorem withoutDeprecated_eq (a : Attribute) :
    a.withoutDeprecated = { a with children := dropDeprecated a.children } := by
  cases a
  rfl

/-- The attribute without the deprecated ones below it, unless it is deprecated itself. -/
def undeprecated? (a : Attribute) : Option Attribute := if a.deprecated then none else some a.withoutDeprecated

theorem dropDeprecated_eq_filterMap (attributes : List Attribute) :
    dropDeprecated attributes = attributes.filterMap undeprecated? := by
  induction attributes with
  | nil => rfl
  | cons a rest ih =>
    rw [dropDeprecated, ih, List.filterMap_cons, undeprecated?]
    split <;> rfl

theorem name_of_undeprecated? {a b : Attribute} (h : a.undeprecated? = some b) : b.name = a.name := by
  rw [undeprecated?] at h
  split at h
  · cases h
  · cases h
    rw [withoutDeprecated_eq]

end Attribute

namespace Schema

variable (link : Schema → Option String)

/-- The view that tells all attributes. -/
abbrev fullView : View := { ignoreDeprecated := false, link := link }

abbrev keptView : View := { ignoreDeprecated := true, link := link }

/-- What is told of an attribute that is kept differs in what is told below it only. -/
theorem toAttribute_keptView (required : List String) (name : String) (s : Schema) (children : List Attribute) :
    toAttribute (keptView link) required name s (Attribute.dropDeprecated children) =
      (toAttribute (fullView link) required name s children).withoutDeprecated := by
  rw [Attribute.withoutDeprecated_eq]
  rfl

theorem propertyAttributes_keptView (required : List String) {properties : List (String × Schema)}
    (h : ∀ e ∈ properties, e.2.elementAttributes (keptView link) =
      Attribute.dropDeprecated (e.2.elementAttributes (fullView link))) :
    propertyAttributes (keptView link) required properties =
      Attribute.dropDeprecated (propertyAttributes (fullView link) required properties) := by
  induction properties with
  | nil => rfl
  | cons e rest ih =>
    rw [List.forall_mem_cons] at h
    obtain ⟨name, s⟩ := e
    have hfull : isTold (fullView link) s = true := rfl
    have hkept : isTold (keptView link) s = !s.isDeprecated := rfl
    rw [propertyAttributes, propertyAttributes, hfull, hkept, if_pos rfl, Attribute.dropDeprecated, ih h.2, h.1,
      toAttribute_keptView]
    -- an attribute is deprecated when its schema is
    show _ = if s.isDeprecated = true then _ else _
    cases s.isDeprecated <;> rfl

/-- Listing by name and leaving out may change places. -/
theorem sortByName_dropDeprecated (attributes : List Attribute) :
    Assoc.sortByName (·.name) (Attribute.dropDeprecated attributes) =
      Attribute.dropDeprecated (Assoc.sortByName (·.name) attributes) := by
  rw [Attribute.dropDeprecated_eq_filterMap, Attribute.dropDeprecated_eq_filterMap,
    Assoc.filterMap_sortByName fun _ _ => Attribute.name_of_undeprecated?]

theorem elementAttributes_keptView (s : Schema) : s.elementAttributes (keptView link) =
    Attribute.dropDeprecated (s.elementAttributes (fullView link)) := by
  induction s using Schema.inductionOn with
  | step s ihProperties ihItems ihAdditional =>
    rw [elementAttributes_step, elementAttributes_step]
    cases hk : s.kind with
    | array =>
      cases hs : s.items with
      | none => rfl
      | some t => exact ihItems t hs
    | map =>
      cases hs : s.additional with
      | none => rfl
      | some t => exact ihAdditional t hs
    | object =>
      simp only [attributes]
      rw [propertyAttributes_keptView link _ ihProperties, sortByName_dropDeprecated]
    | _ => rfl

/-- **A view that leaves deprecated attributes out tells the same as the full view** but for those that are marked and
what is told below them, at every depth. -/
theorem attributes_ignoreDeprecated (link : Schema → Option String) (s : Schema) :
    s.attributes { ignoreDeprecated := true, link := link } =
      Attribute.dropDeprecated (s.attributes { ignoreDeprecated := false, link := link }) := by
  rw [attributes, propertyAttributes_keptView link _ fun e _ => elementAttributes_keptView link e.2,
    sortByName_dropDeprecated, attributes]

end Schema

end SchemaDocs
