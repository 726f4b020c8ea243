import SchemaDocs.Proofs.Grammar

/-!
# The check in terms of the grammar

What the check finds in the schema that a node describes is decided by the node as it is written: the schema is sound
when the nodes that the check looks at require only names of their own attributes (`soundIff_isChecked`). So the
definitions of a dump are good when each has the form of a definition (`allGood_iff_isDefinition`), and a document is
accepted when it is a dump (`packageOf_isOk_iff_isDump`).
-/

namespace SchemaDocs

open Schema (Sound)

/-- What corresponds to each other has properties that correspond. -/
theorem forall_mem_iff_of_forall₂ {α β : Type} {R : α → β → Prop} {P : α → Prop} {Q : β → Prop} {l : List α}
    {r : List β} (h : List.Forall₂ R l r) (hR : ∀ a ∈ l, ∀ b, R a b → (P a ↔ Q b)) : (∀ a ∈ l, P a) ↔ ∀ b ∈ r, Q b := by
  induction h with
  | nil => simp
  | cons hab _ ih =>
    rw [List.forall_mem_cons, List.forall_mem_cons, hR _ List.mem_cons_self _ hab,
      ih fun a ha => hR a (List.mem_cons_of_mem _ ha)]

theorem Value.lookup_isSome_iff {name : String} {entries : List (Value × Value)} (h : entriesAreJson entries = true) :
    (lookup name entries).isSome = true ↔ name ∈ entries.map fun e => e.1.plain := by
  rw [Option.isSome_iff_exists, List.mem_map]
  constructor
  · rintro ⟨value, hl⟩
    exact ⟨_, mem_of_lookup hl, rfl⟩
  · rintro ⟨e, he, rfl⟩
    obtain ⟨name, hname, hl⟩ := exists_name h he
    rw [hname]
    exact ⟨_, hl⟩

namespace Dump

variable {location : String} {fields : List (Value × Value)} {value : Value} {raw : List (Value × Value)}

/-! ## What stands where in a description -/

/-- The schema is what the node describes at some location. -/
def DescribesAs (raw : List (Value × Value)) (node : Value) (o : Schema) : Prop :=
  ∃ location, describe raw node location = .ok o

/-- The attribute has the plain form of the name of the entry, and its schema is what the entry describes. -/
def AttributeAs (raw : List (Value × Value)) (entry : Value × Value) (property : String × Schema) : Prop :=
  property.1 = entry.1.plain ∧ DescribesAs raw entry.2 property.2

theorem names_of_forall₂ {entries : List (Value × Value)} {listed : List (String × Schema)}
    (h : List.Forall₂ (AttributeAs raw) entries listed) : listed.map (·.1) = entries.map fun e => e.1.plain := by
  induction h with
  | nil => rfl
  | cons h _ ih => rw [List.map_cons, List.map_cons, h.1, ih]

theorem readAttributes_forall₂ : ∀ {attributes : List (Value × Value)} {listed : List (String × Schema)},
    RawFields.readAttributes location (attributes.map fun e => (e.1, describe raw e.2)) = .ok listed →
      List.Forall₂ (AttributeAs raw) attributes listed
  | [], _, h => by
    cases h
    exact .nil
  | e :: rest, _, h => by
    simp only [List.map_cons, RawFields.readAttributes, except_bind_ok] at h
    obtain ⟨s, hs, below, hbelow, h⟩ := h
    cases h
    exact .cons ⟨rfl, _, hs⟩ (readAttributes_forall₂ hbelow)

theorem readMembers_forall₂ : ∀ {items : List Value} {index : Nat} {members : List Schema},
    RawFields.readMembers location index (items.map (describe raw)) = .ok members →
      List.Forall₂ (DescribesAs raw) items members
  | [], _, _, h => by
    cases h
    exact .nil
  | node :: rest, _, _, h => by
    simp only [List.map_cons, RawFields.readMembers, except_bind_ok] at h
    obtain ⟨s, hs, below, hbelow, h⟩ := h
    cases h
    exact .cons ⟨_, hs⟩ (readMembers_forall₂ hbelow)

theorem node?_forall₂ {name : String} {element : Option Schema}
    (h : (rawFields (describeMapping raw) [] fields).node? name location = .ok element) :
    List.Forall₂ (DescribesAs raw) (Value.lookup name fields).toList element.toList := by
  rw [RawFields.node?_rawFields] at h
  cases hl : Value.lookup name fields with
  | none =>
    rw [hl] at h
    cases h
    exact .nil
  | some node =>
    rw [hl] at h
    obtain ⟨s, hs, rfl⟩ := except_map_ok.1 h
    exact .cons ⟨_, hs⟩ .nil

theorem additional_forall₂ (hjson : Value.entriesAreJson fields = true) {element : Option Schema}
    (h : (rawFields (describeMapping raw) [] fields).additional location = .ok element) :
    List.Forall₂ (DescribesAs raw) (additionalIn fields) element.toList := by
  rw [RawFields.additional_rawFields _ hjson] at h
  split at h
  · rename_i hl
    obtain ⟨s, hs, rfl⟩ := except_map_ok.1 h
    simp only [additionalIn, hl]
    exact .cons ⟨_, hs⟩ .nil
  · rename_i hl
    cases h
    have hnone : additionalIn fields = [] := by
      unfold additionalIn
      split
      · exact absurd ‹_› (hl _)
      · rfl
    rw [hnone]
    exact .nil

theorem properties_forall₂ (hjson : Value.entriesAreJson fields = true) {listed : List (String × Schema)}
    (h : (rawFields (describeMapping raw) [] fields).properties location = .ok listed) :
    List.Forall₂ (AttributeAs raw) (attributesIn fields) listed := by
  rw [RawFields.properties_rawFields _ hjson] at h
  unfold attributesIn
  cases hl : Value.lookup "properties" fields with
  | none =>
    rw [hl] at h
    cases h
    exact .nil
  | some value =>
    have hvalue := Value.isJson_of_lookup hjson hl
    simp only [hl] at h
    cases value with
    | map attributes =>
      split at h
      · rename_i hfalsy
        have hnil : attributes = [] := by simpa [Value.isTruthy] using hfalsy
        cases h
        rw [hnil]
        exact .nil
      · obtain ⟨ss, hss, rfl⟩ := except_map_ok.1 h
        have hnodup : (ss.map (·.1)).Nodup := by
          rw [names_readAttributes hss]
          exact Value.nodup_plain hvalue
        rw [Assoc.ofList_of_nodup hnodup]
        exact readAttributes_forall₂ hss
    | _ =>
      split at h
      · cases h
        exact .nil
      · cases h

theorem members_forall₂ (hjson : Value.entriesAreJson fields = true) {members : List Schema}
    (h : (rawFields (describeMapping raw) [] fields).members location = .ok members) :
    List.Forall₂ (DescribesAs raw) (membersIn fields) members := by
  rw [RawFields.members_rawFields _ hjson] at h
  unfold membersIn
  cases hl : Value.lookup "x-kcl-union-types" fields with
  | none =>
    rw [hl] at h
    cases h
    exact .nil
  | some value =>
    simp only [hl] at h
    cases value with
    | list items =>
      split at h
      · rename_i hfalsy
        have hnil : items = [] := by simpa [Value.isTruthy] using hfalsy
        cases h
        rw [hnil]
        exact .nil
      · exact readMembers_forall₂ h
    | _ =>
      split at h
      · cases h
        exact .nil
      · cases h

/-- The required names of a description are those that the node lists. -/
theorem mem_required (hjson : Value.entriesAreJson fields = true) {names : List String}
    (h : required location fields = .ok names) {name : String} : name ∈ names ↔
      ∃ items, Value.lookup "required" fields = some (.list items) ∧ .str name ∈ items := by
  rw [mem_required_iff h, field]
  cases hl : Value.lookup "required" fields with
  | none => simp [Value.itemsOf]
  | some value =>
    have hvalue : value.isJson = true := Value.isJson_of_lookup hjson hl
    cases value with
    | knot mark inner => cases hvalue
    | _ => simp [Value.itemsOf]

theorem entriesAreJson_attributesIn (hjson : Value.entriesAreJson fields = true) :
    Value.entriesAreJson (attributesIn fields) = true := by
  unfold attributesIn
  split
  · rename_i hl
    exact Value.isJson_of_lookup hjson hl
  · rfl

/-! ## Soundness -/

def SoundIff (raw : List (Value × Value)) (node : Value) : Prop :=
  ∀ o, DescribesAs raw node o → (Sound false o ↔ IsChecked node)

section Described

variable {start o : Schema} (hjson : Value.entriesAreJson fields = true)
  (hd : Describes location (rawFields (describeMapping raw) [] fields) start o)
include hjson hd

theorem Describes.listed_attributes : ∃ listed, List.Forall₂ (AttributeAs raw) (attributesIn fields) listed ∧
    ∀ e, e ∈ o.properties ↔ e ∈ listed := by
  obtain ⟨listed, hlisted, hsorted⟩ := hd.listed
  refine ⟨listed, properties_forall₂ hjson hlisted, fun e => ?_⟩
  rw [hsorted]
  exact Assoc.mem_sortByName _

/-- The attributes of the description have the names of the attributes that are written in the node. -/
theorem Describes.mem_names {name : String} :
    name ∈ o.names ↔ (Value.lookup name (attributesIn fields)).isSome = true := by
  obtain ⟨listed, hlisted, hmem⟩ := hd.listed_attributes hjson
  have hmap : name ∈ o.names ↔ name ∈ listed.map (·.1) := by simp only [Schema.names, List.mem_map, hmem]
  rw [hmap, names_of_forall₂ hlisted, Value.lookup_isSome_iff (entriesAreJson_attributesIn hjson)]

theorem Describes.requiresOwn : (∀ name ∈ o.required, name ∈ o.names) ↔ RequiresOwn fields := by
  have hrequired := hd.required
  rw [RawFields.values_rawFields] at hrequired
  simp only [hd.mem_names hjson, mem_required hjson hrequired, RequiresOwn]
  constructor
  · exact fun h items name hl hm => h name ⟨items, hl, hm⟩
  · rintro h name ⟨items, hl, hm⟩
    exact h items name hl hm

/-- What is below the description is sound when the nodes are checked that the check looks at. -/
theorem Describes.checked (hbelow : ∀ node ∈ checkedIn fields, SoundIff raw node) :
    ((∀ e ∈ o.properties, Sound false e.2) ∧ (∀ t ∈ o.items, Sound false t) ∧ (∀ t ∈ o.additional, Sound false t) ∧
      ∀ t ∈ o.members, Sound false t) ↔ ∀ node ∈ checkedIn fields, IsChecked node := by
  obtain ⟨hattributes, hitems, hadditional, hmembers⟩ := forall_checkedIn.1 hbelow
  obtain ⟨listed, hlisted, hmem⟩ := hd.listed_attributes hjson
  rw [forall_checkedIn, forall_mem_iff_of_forall₂ hlisted fun e he t ht => (hattributes e he _ ht.2).symm,
    forall_mem_iff_of_forall₂ (node?_forall₂ hd.items) fun node hm t ht => (hitems node hm t ht).symm,
    forall_mem_iff_of_forall₂ (additional_forall₂ hjson hd.additional)
      fun node hm t ht => (hadditional node hm t ht).symm,
    forall_mem_iff_of_forall₂ (members_forall₂ hjson hd.members) fun node hm t ht => (hmembers node hm t ht).symm]
  simp only [hmem, Option.mem_toList, Option.mem_def]

omit hjson in
/-- The description has a model type when the node does. -/
theorem Describes.named : o.modelType.isSome = (Value.lookup "x-kcl-type" fields).isSome := by
  have hhead := hd.head
  rw [RawFields.values_rawFields] at hhead
  rw [hd.eq, ← isSome_of_modelTypeField (readHead_ok hhead)]

end Described

/-- A schema in which nothing is required and nothing lies below is sound. -/
theorem sound_of_describeReference {reference : Value} {o : Schema}
    (h : describeReference raw location reference fields = .ok o) : Sound false o := by
  obtain ⟨name, description, decorators, -, -, -, rfl⟩ := describeReference_ok.1 h
  exact .node (by simp) (by simp) (by simp) (by simp) (by simp)

/-- **The schema that a node describes is sound when the node is checked.** -/
theorem soundIff_isChecked (raw : List (Value × Value)) : ∀ value : Value, value.isJson = true → SoundIff raw value
  | .map fields, hjson => by
    rintro o ⟨location, ho⟩
    rw [describe_map] at ho
    by_cases hplain : field "$ref" fields = .null
    · rw [hplain] at ho
      obtain ⟨start, hd⟩ := describeFields_ok.1 ho
      have hbelow := hd.checked hjson fun node hm =>
        soundIff_isChecked raw node (below_of_mem_nodesIn hjson (List.mem_append_left _ hm)).2
      have hown := hd.requiresOwn hjson
      have hnamed := hd.named
      constructor
      · intro h
        cases h with
        | reference required named => exact .named (hown.1 required) (hnamed ▸ named)
        | node required properties items additional members =>
          exact .written (hown.1 required) (hbelow.1 ⟨by simpa using properties, items, additional, members⟩)
      · intro h
        cases h with
        | reference refers => exact absurd hplain refers
        | named own named => exact .reference (hown.2 own) (hnamed.trans named)
        | written own below =>
          obtain ⟨properties, items, additional, members⟩ := hbelow.2 below
          exact .node (hown.2 own) (by simpa using properties) items additional members
    · refine iff_of_true ?_ (.reference hplain)
      cases hf : field "$ref" fields with
      | null => exact absurd hf hplain
      | _ =>
        rw [hf] at ho
        exact sound_of_describeReference ho
  | .null, _ | .bool _, _ | .int _, _ | .float _, _ | .str _, _ | .list _, _ => by
    rintro o ⟨location, ho⟩
    cases ho
termination_by value => sizeOf value
decreasing_by exact (below_of_mem_nodesIn hjson (List.mem_append_left _ hm)).1

/-! ## Definitions -/

/-- The schema of a definition is sound when it requires only names of its own attributes and the nodes are checked that
the check looks at, provided that every attribute has a name. -/
theorem Describes.sound_iff (hjson : Value.entriesAreJson fields = true) {start o : Schema}
    (hd : Describes location (rawFields (describeMapping raw) [] fields) start o)
    (hnamed : Value.lookup "" (attributesIn fields) = none) :
    Sound true o ↔ RequiresOwn fields ∧ ∀ node ∈ checkedIn fields, IsChecked node := by
  have hbelow := hd.checked hjson fun node hm =>
    soundIff_isChecked raw node (below_of_mem_nodesIn hjson (List.mem_append_left _ hm)).2
  have hfilled : ∀ e ∈ o.properties, (true && e.1.isEmpty) = false := by
    intro e he
    have hname := (hd.mem_names hjson).1 (List.mem_map_of_mem he)
    rw [Bool.true_and, Bool.eq_false_iff, Ne, String.isEmpty_iff]
    intro hempty
    rw [hempty, hnamed] at hname
    cases hname
  rw [← hd.requiresOwn hjson, ← hbelow]
  constructor
  · intro h
    cases h with
    | node required properties items additional members =>
      exact ⟨required, fun e he => hfilled e he ▸ properties e he, items, additional, members⟩
  · rintro ⟨required, properties, items, additional, members⟩
    exact .node required (fun e he => (hfilled e he).symm ▸ properties e he) items additional members

/-- The fields of a definition describe a sound schema with a model type when they have the form of a definition. -/
theorem good_iff_isDefinition (hjson : Value.entriesAreJson fields = true)
    (hnamed : Value.lookup "" (attributesIn fields) = none) (key : String) :
    (∃ o, describeDefinition raw key fields = .ok o ∧ o.modelType.isSome = true ∧ Sound true o) ↔
      IsDefinition (isDefined raw) fields := by
  have hdescribed := exists_describeFields key hjson fun node hm =>
    describedIff_isNode raw node (below_of_mem_nodesIn hjson hm).2
  constructor
  · rintro ⟨o, ho, hmodel, hsound⟩
    obtain ⟨start, hd⟩ := describeFields_ok.1 ho
    obtain ⟨hf, hnodes⟩ := hdescribed.1 ⟨o, ho⟩
    obtain ⟨hown, hchecked⟩ := (hd.sound_iff hjson hnamed).1 hsound
    exact ⟨hd.named ▸ hmodel, hf, hnodes, hown, hchecked⟩
  · intro h
    obtain ⟨o, ho⟩ := hdescribed.2 ⟨h.fieldsInOrder, h.nodes⟩
    obtain ⟨start, hd⟩ := describeFields_ok.1 ho
    exact ⟨o, ho, hd.named.trans h.named, (hd.sound_iff hjson hnamed).2 ⟨h.own, h.checked⟩⟩

/-! ## Documents -/

variable {document : List (Value × Value)}

theorem exists_readInfo (hdocument : Value.entriesAreJson document = true) :
    (∃ info, readInfo document = .ok info) ↔ IfTruthy "info" Value.IsMapping document := by
  rw [ifTruthy_iff, readInfo, unmarked_field hdocument]
  by_cases htruthy : (field "info" document).isTruthy = true
  · simp only [htruthy, Bool.not_true, Bool.false_eq_true, ↓reduceIte, forall_const]
    cases field "info" document <;> simp [Value.IsMapping]
  · simp [htruthy]

theorem readDefinitions_ok (hdocument : Value.entriesAreJson document = true) : readDefinitions document = .ok raw ↔
    field "definitions" document = .null ∧ raw = [] ∨ Value.lookup "definitions" document = some (.map raw) := by
  rw [readDefinitions, unmarked_field hdocument, ← field_eq_map]
  cases field "definitions" document <;> simp [eq_comm]

theorem leadsToPackage_iff {key : String} : LeadsToPackage key ↔ "" ∉ segmentsOfKey key := by
  rw [LeadsToPackage, segmentsOfKey, Package.segmentsOf]
  by_cases hempty : (Text.splitLast '.' key).1 = ""
  · simp [hempty]
  · simp [hempty, String.isEmpty_iff]

def AttributesNamed (document : List (Value × Value)) : Prop :=
  ∀ raw, Value.lookup "definitions" document = some (.map raw) → ∀ key fields, (key, .map fields) ∈ raw →
    Value.lookup "" (attributesIn fields) = none

/-- Definitions are good when each has the form of a definition. -/
theorem allGood_iff_isDefinition (hraw : Value.entriesAreJson raw = true)
    (hnamed : ∀ key fields, (key, .map fields) ∈ raw → Value.lookup "" (attributesIn fields) = none) :
    AllGood raw ↔ ∀ key value, (.str key, value) ∈ raw → ∃ fields, value = .map fields ∧
      IsDefinition (isDefined raw) fields := by
  constructor
  · intro h key value hm
    obtain ⟨fields, o, rfl, ho⟩ := h key value ((Value.lookup_eq_some_iff hraw).2 hm)
    exact ⟨fields, rfl, (good_iff_isDefinition (Value.isJson_of_mem hraw hm) (hnamed _ _ hm) key).1 ⟨o, ho⟩⟩
  · intro h key value hl
    have hm := Value.mem_of_lookup hl
    obtain ⟨fields, rfl, hdefinition⟩ := h key value hm
    obtain ⟨o, ho⟩ := (good_iff_isDefinition (Value.isJson_of_mem hraw hm) (hnamed _ _ hm) key).2 hdefinition
    exact ⟨fields, o, rfl, ho⟩

theorem forall_keysOf_iff (hraw : Value.entriesAreJson raw = true) {P : String → Prop} :
    (∀ key ∈ keysOf raw, P key) ↔ ∀ key value, (.str key, value) ∈ raw → P key := by
  refine ⟨fun h key value hm => h key (mem_keysOf hm), fun h key hm => ?_⟩
  obtain ⟨⟨k, value⟩, he, rfl⟩ := List.mem_map.1 hm
  obtain ⟨name, hname, -⟩ := Value.exists_name hraw he
  obtain rfl : k = .str name := hname
  exact h name value he

/-- **A document is accepted when it is a dump.** -/
theorem packageOf_isOk_iff_isDump (hdocument : Value.entriesAreJson document = true) (hnamed : AttributesNamed document)
    (defaultName : String) : (∃ root, packageOf defaultName document = .ok root) ↔ IsDump document := by
  rw [packageOf_isOk_iff hdocument]
  -- what is asked of the definitions, when they are a mapping
  have heach : ∀ {raw}, Value.lookup "definitions" document = some (.map raw) →
      ((AllGood raw ∧ ∀ key ∈ keysOf raw, "" ∉ segmentsOfKey key) ↔ ∀ key value, (.str key, value) ∈ raw →
        ∃ fields, value = .map fields ∧ IsDefinition (isDefined raw) fields ∧ LeadsToPackage key) := by
    intro raw hl
    have hraw : Value.entriesAreJson raw = true := Value.isJson_of_lookup hdocument hl
    rw [allGood_iff_isDefinition hraw (hnamed raw hl), forall_keysOf_iff hraw]
    simp only [← leadsToPackage_iff]
    refine ⟨fun ⟨hforms, hkeys⟩ key value hm => ?_, fun h => ⟨fun key value hm => ?_, fun key value hm => ?_⟩⟩
    · obtain ⟨fields, rfl, hform⟩ := hforms key value hm
      exact ⟨fields, rfl, hform, hkeys key _ hm⟩
    · obtain ⟨fields, rfl, hform, -⟩ := h key value hm
      exact ⟨fields, rfl, hform⟩
    · obtain ⟨-, -, -, hkey⟩ := h key value hm
      exact hkey
  constructor
  · rintro ⟨info, raw, hinfo, hr, hgood⟩
    have hinfo : IfTruthy "info" Value.IsMapping document := (exists_readInfo hdocument).1 ⟨info, hinfo⟩
    rcases (readDefinitions_ok hdocument).1 hr with ⟨hnull, rfl⟩ | hl
    · refine ⟨hinfo, unlessNull_iff.2 fun hsome => absurd hnull hsome, fun raw hl => ?_⟩
      rw [field_eq_map.2 hl] at hnull
      cases hnull
    · refine ⟨hinfo, unlessNull_iff.2 fun _ => ⟨raw, field_eq_map.2 hl⟩, fun raw' hl' => ?_⟩
      obtain rfl : raw = raw' := Value.map.inj (Option.some.inj (hl.symm.trans hl'))
      exact (heach hl).1 hgood
  · intro h
    obtain ⟨info, hinfo⟩ := (exists_readInfo hdocument).2 h.info
    by_cases hnull : field "definitions" document = .null
    · exact ⟨info, [], hinfo, (readDefinitions_ok hdocument).2 (.inl ⟨hnull, rfl⟩), by simp [AllGood, Value.lookup],
        by simp [keysOf]⟩
    · obtain ⟨raw, hf⟩ := unlessNull_iff.1 h.definitions hnull
      have hl := field_eq_map.1 hf
      exact ⟨info, raw, hinfo, (readDefinitions_ok hdocument).2 (.inr hl), (heach hl).2 (h.each raw hl)⟩

end Dump

end SchemaDocs
