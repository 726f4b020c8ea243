import Mathlib.Data.List.Basic
import SchemaDocs.Document.Site
import SchemaDocs.Proofs.Attributes
import SchemaDocs.Proofs.Outcomes

/-!
# Values that cannot be written

A document writes out values: the default of each attribute, and what the enumerations in its type list. They are the
values of the nodes that it shows (`Schema.mem_shownValues_iff`), whatever its links are, and the document can be written
when each of them has a literal (`Schema.literalFault?_eq_none`). A collection that lies in itself has none, and
`format_literal` follows it without end: the documents of a plan are then not written, though every declaration has its
page (`ImportPlan.written_eq_ok`).
-/

namespace SchemaDocs

namespace Schema

variable {view w : View} {s t : Schema} {v : Value}

/-! ## Values that are shown -/

theorem propertyValues_eq (view : View) : ∀ properties : List (String × Schema), propertyValues view properties =
    properties.filterMap fun e => if isTold view e.2 then
      some (e.1, e.2.elementValues view ++ e.2.tokenValues ++ e.2.default.toList) else none
  | [] => rfl
  | (name, t) :: rest => by
    rw [propertyValues, propertyValues_eq view rest, List.filterMap_cons]
    cases isTold view t <;> rfl

theorem elementValues_step (view : View) (s : Schema) : s.elementValues view =
    match s.kind with
    | .array => (s.items.map (elementValues view)).getD []
    | .map => (s.additional.map (elementValues view)).getD []
    | .object => s.shownValues view
    | _ => [] := by
  obtain ⟨facts, properties, items, additional, keyType, members, number⟩ := s
  rw [elementValues]
  simp only [kind]
  cases facts.kind additional.isSome (!properties.isEmpty) (!members.isEmpty) with
  | array => cases items <;> rfl
  | map => cases additional <;> rfl
  | _ => rfl

/-- The values below an attribute are those that its element shows, if that is an inline object. -/
theorem elementValues_eq (view : View) (s : Schema) :
    s.elementValues view = if s.element.kind = .object then s.element.shownValues view else [] := by
  induction s using Schema.inductionOn with
  | step s _ ihItems ihAdditional =>
    rw [elementValues_step, element_eq]
    cases hk : s.kind with
    | array =>
      cases hi : s.items with
      | none => simp [hk]
      | some t => exact ihItems t hi
    | map =>
      cases ha : s.additional with
      | none => simp [hk]
      | some t => exact ihAdditional t ha
    | _ => simp [hk]

theorem mem_shownValues : v ∈ s.shownValues view ↔ ∃ name t, (name, t) ∈ s.properties ∧ isTold view t = true ∧
    (v ∈ t.elementValues view ∨ v ∈ t.tokenValues ∨ t.default = some v) := by
  simp only [shownValues, List.mem_flatMap, Assoc.mem_sortByName, propertyValues_eq, List.mem_filterMap,
    Option.ite_none_right_eq_some, Option.some_inj, Prod.exists]
  constructor
  · rintro ⟨name, _, ⟨_, t, hm, htold, rfl, rfl⟩, hv⟩
    exact ⟨_, t, hm, htold, by simpa [or_assoc] using hv⟩
  · rintro ⟨name, t, hm, htold, hv⟩
    exact ⟨name, _, ⟨name, t, hm, htold, rfl⟩, by simpa [or_assoc] using hv⟩

/-- A value that is shown belongs to a node that is shown. -/
theorem exists_shows (s : Schema) : ∀ u, s.Reaches u → ∀ v ∈ u.shownValues view,
    ∃ a t, u.Shows view a t ∧ (v ∈ t.tokenValues ∨ t.default = some v) := by
  induction s using Schema.inductionOn with
  | step s ihProperties ihItems ihAdditional ihKeyType ihMembers =>
    refine forall_reaches (fun v hv => ?_) ?_
    · obtain ⟨name, t, hm, htold, hv⟩ := mem_shownValues.1 hv
      rcases hv with hbelow | hown
      · rw [elementValues_eq] at hbelow
        split at hbelow
        · rename_i hobject
          obtain ⟨a, u, hu, hv⟩ := ihProperties _ hm t.element t.reaches_element v hbelow
          exact ⟨a, u, .inside hm htold hobject hu, hv⟩
        · cases hbelow
      · exact ⟨_, t, .here hm htold, hown⟩
    · rw [parts, List.forall_mem_append, forall_checkedParts]
      exact ⟨⟨ihProperties, ihItems, ihAdditional, ihMembers⟩, fun t ht => ihKeyType t (Option.mem_toList.1 ht)⟩

/-- **The values of a document are those of the nodes that it shows**: what their types list, and their defaults. -/
theorem mem_shownValues_iff : v ∈ s.shownValues view ↔
    ∃ a t, s.Shows view a t ∧ (v ∈ t.tokenValues ∨ t.default = some v) := by
  refine ⟨s.exists_shows s (.refl s) v, ?_⟩
  rintro ⟨a, t, h, hv⟩
  induction h with
  | here hm htold => exact mem_shownValues.2 ⟨_, _, hm, htold, .inr hv⟩
  | inside hm htold hobject _ ih =>
    refine mem_shownValues.2 ⟨_, _, hm, htold, .inl ?_⟩
    rw [elementValues_eq, if_pos hobject]
    exact ih hv

/-! ## Links do not matter -/

theorem propertyValues_congr (h : w.ignoreDeprecated = view.ignoreDeprecated) {properties : List (String × Schema)}
    (hbelow : ∀ e ∈ properties, e.2.elementValues w = e.2.elementValues view) :
    propertyValues w properties = propertyValues view properties := by
  rw [propertyValues_eq, propertyValues_eq]
  refine List.filterMap_congr fun e he => ?_
  rw [hbelow e he, isTold, isTold, h]

/-- Where links lead has no part in what values are shown. -/
theorem shownValues_congr (h : w.ignoreDeprecated = view.ignoreDeprecated) (s : Schema) :
    s.shownValues w = s.shownValues view := by
  have hbelow (s : Schema) : s.elementValues w = s.elementValues view := by
    induction s using Schema.inductionOn with
    | step s ihProperties ihItems ihAdditional =>
      rw [elementValues_step, elementValues_step]
      cases s.kind with
      | array =>
        cases hi : s.items with
        | none => rfl
        | some t => exact ihItems t hi
      | map =>
        cases ha : s.additional with
        | none => rfl
        | some t => exact ihAdditional t ha
      | object => rw [shownValues, shownValues, propertyValues_congr h ihProperties]
      | _ => rfl
  rw [shownValues, shownValues, propertyValues_congr h fun e _ => hbelow e.2]

/-- **The attributes of a schema can be written when each value that they show has a literal.** -/
theorem literalFault?_eq_none : s.literalFault? view = none ↔ ∀ v ∈ s.shownValues view, v.literalFault? = none := by
  rw [literalFault?, List.findSome?_eq_none_iff]

theorem exists_of_literalFault? {fault : Value.LiteralFault} (h : s.literalFault? view = some fault) :
    ∃ v ∈ s.shownValues view, v.literalFault? = some fault :=
  List.exists_of_findSome?_eq_some h

end Schema

namespace Value

theorem literal?_eq_ok {v : Value} {text : String} : v.literal? = .ok text ↔ v.literalFault? = none ∧ v.literal = text := by
  rw [literal?]
  cases v.literalFault? <;> simp

theorem literal?_eq_error {v : Value} {fault : LiteralFault} : v.literal? = .error fault ↔ v.literalFault? = some fault := by
  rw [literal?]
  cases v.literalFault? <;> simp

end Value

/-! ## Documents -/

namespace Options

variable {o : Options} {link : Schema → Option String} {s : Schema}

/-- A document is written if it can be made and its values have literals. -/
theorem written_eq_ok {shown : Option String} : o.written link s = .ok shown ↔
    o.documentUnlessIgnored link s = .ok shown ∧ (shown.isSome = true → o.literalFault? s = none) := by
  rw [written]
  rcases o.documentUnlessIgnored link s with e | _ | text
  · simp
  · simp only [Except.ok.injEq]
    exact ⟨fun h => ⟨h, by simp [← h]⟩, fun h => h.1⟩
  · cases o.literalFault? s with
    | none => simp
    | some fault =>
      simp only [reduceCtorEq, Except.ok.injEq, imp_false, Bool.not_eq_true, false_iff, not_and]
      rintro rfl
      simp

/-- A document that can be made is written, unless it shows a value that has no literal. -/
theorem written_cases {shown : Option String} (h : o.documentUnlessIgnored link s = .ok shown) :
    o.written link s = .ok shown ∨
      shown.isSome = true ∧ ∃ fault, o.literalFault? s = some fault ∧ o.written link s = .error (.literal fault) := by
  rw [written, h]
  cases shown with
  | none => exact .inl rfl
  | some text => cases o.literalFault? s with
    | none => exact .inl rfl
    | some fault => exact .inr ⟨rfl, fault, rfl, rfl⟩

/-- A document on its own is not written for a value that it shows. -/
theorem exists_of_written {fault : Value.LiteralFault} (h : o.written link s = .error (.literal fault)) :
    ∃ v ∈ s.shownValues (o.view fun _ => none), v.literalFault? = some fault := by
  unfold written at h
  split at h
  · cases h
  · cases h
  · split at h
    · rename_i hfault
      cases h
      exact Schema.exists_of_literalFault? hfault
    · cases h

end Options

namespace ImportPlan

variable {o : Options} {plan : ImportPlan} {root : Package} {documents : Documents}

open PackageOutcome (Flaw flaw?)

/-- **The documents of a plan are written if they can be made and nothing in them is flawed.** -/
theorem written_eq_ok : plan.written o root = .ok documents ↔
    flaw? o (plan.packageOutcomes o root) = none ∧ plan.documents o root = .ok documents := by
  rw [written, PackageOutcome.written, ImportPlan.documents]
  cases flaw? o (plan.packageOutcomes o root) with
  | none => simp [except_mapError_ok]
  | some flaw => simp

end ImportPlan

end SchemaDocs
