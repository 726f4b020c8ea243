import SchemaDocs.Proofs.Checking
import SchemaDocs.Proofs.OrderIndependence
import SchemaDocs.Proofs.Wording

/-!
# Refused dumps

A document that is no dump is refused with an error that says why. No reading of a document ends in another way: its
names are texts, so examples have an order and keys can be split, and no node of it lies in itself (`not_defect`).
Together with the grammar this settles how the reading of every document ends (`accepted_iff_isDump`).
-/

namespace SchemaDocs.Dump

variable {raw document : List (Value × Value)}

theorem isJson_of_mem_nodesAt {fields : List (Value × Value)} (h : Value.entriesAreJson fields = true) {value : Value} :
    ∀ {step : Nat}, value ∈ nodesAt fields step → value.isJson = true
  | 0, hm => by
    obtain ⟨e, he, rfl⟩ := List.mem_map.1 hm
    cases hf : field "properties" fields with
    | map entries =>
      rw [hf] at he
      exact Value.isJson_of_mem (entriesAreJson_of_field h hf) he
    | knot mark inner =>
      have := isJson_field h "properties"
      rw [hf] at this
      cases this
    | _ => simp [hf, Value.entriesOf] at he
  | 1, hm | 3, hm => Value.isJson_of_lookup h (Option.mem_toList.1 hm)
  | 2, hm => Value.isJson_of_lookup h (Option.mem_toList.1 (List.mem_of_mem_filter hm))
  | 4, hm => by
    cases hf : field "x-kcl-union-types" fields with
    | list items =>
      simp only [nodesAt, writtenMembers, hf] at hm
      exact Value.isJson_of_mem_items (itemsAreJson_of_field h hf) hm
    | knot mark inner =>
      have := isJson_field h "x-kcl-union-types"
      rw [hf] at this
      cases this
    | _ => simp [nodesAt, writtenMembers, hf, Value.itemsOf] at hm
  | _ + 5, hm => by simp [nodesAt] at hm

theorem entriesAreJson_of_mem (hraw : Value.entriesAreJson raw = true) {key definition : Value}
    {fields : List (Value × Value)} (hm : (key, definition) ∈ raw) (hmapping : definition.unmarked = .map fields) :
    Value.entriesAreJson fields = true := by
  have hjson : definition.isJson = true := Value.isJson_of_mem hraw hm
  rw [Value.unmarked_of_isJson hjson] at hmapping
  rwa [hmapping] at hjson

theorem ReadWithin.isJson (hraw : Value.entriesAreJson raw = true) {around below : List (Nat × Nat)} {value : Value}
    (h : ReadWithin raw around below value) : value.isJson = true := by
  induction h with
  | part mem mapping part => exact isJson_of_mem_nodesAt (entriesAreJson_of_mem hraw mem mapping) part
  | marked _ ih => cases ih
  | deeper _ _ part ih => exact isJson_of_mem_nodesAt ih part

/-- The definitions of a document have no defect. -/
theorem not_defect (hraw : Value.entriesAreJson raw = true) : ¬ Defect raw := by
  rintro (⟨mem, notText⟩ | ⟨⟨⟨_, definition⟩, mem, mapping⟩ | ⟨around, below, node, -⟩, unordered⟩ | ⟨node, -⟩)
  · obtain ⟨name, hname, -⟩ := Value.exists_name hraw mem
    dsimp only at hname
    rw [hname] at notText
    cases notText
  · exact not_unorderedExamples (entriesAreJson_of_mem hraw mem mapping) unordered
  · exact not_unorderedExamples (node.isJson hraw) unordered
  · cases node.isJson hraw

/-- Every error with which a document is refused has a wording. -/
theorem isWorded_of_packageOf (hdocument : Value.entriesAreJson document = true) {defaultName : String} {e : Error}
    (h : packageOf defaultName document = .error e) : e.IsWorded :=
  (isWorded_or_defect h).resolve_right fun ⟨_, hr, hdefect⟩ =>
    not_defect (entriesAreJson_of_readDefinitions hdocument hr) hdefect

/-- **A document is accepted when it is a dump, and refused with a worded error otherwise.** -/
theorem accepted_iff_isDump (hdocument : Value.entriesAreJson document = true) (hnamed : AttributesNamed document)
    (defaultName : String) : ((∃ root, packageOf defaultName document = .ok root) ↔ IsDump document) ∧
      (¬ IsDump document → ∃ e, packageOf defaultName document = .error e ∧ e.IsWorded) := by
  have hiff := packageOf_isOk_iff_isDump hdocument hnamed defaultName
  refine ⟨hiff, fun hnot => ?_⟩
  cases h : packageOf defaultName document with
  | ok root => exact absurd (hiff.1 ⟨root, h⟩) hnot
  | error e => exact ⟨e, rfl, isWorded_of_packageOf hdocument h⟩

/-! ## A cycle -/

theorem attributesNamed_cyclic : AttributesNamed cyclic := by
  intro raw hl key fields hm
  obtain rfl := Value.map.inj (Option.some.inj hl)
  simp only [List.mem_cons, Prod.mk.injEq, List.not_mem_nil, or_false] at hm
  rcases hm with ⟨-, h⟩ | ⟨-, h⟩
  all_goals
    obtain rfl := Value.map.inj h
    rfl

theorem isDump_cyclic : IsDump cyclic :=
  (accepted_iff_isDump (by decide) attributesNamed_cyclic "main").1.1
    (exists_ok_of_isOk (by decide +kernel : (packageOf "main" cyclic).isOk = true))

end SchemaDocs.Dump
