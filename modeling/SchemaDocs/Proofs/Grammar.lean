import SchemaDocs.Proofs.Acceptance
import SchemaDocs.Proofs.Forms

/-!
# The grammar of dumps

A dump is accepted when each of its definitions, taken by itself, has the form of a definition: every raw node that is
written in it has its fields in order, every reference names some definition, and the nodes that the check looks at
require only names of their own attributes (`packageOf_isOk_iff_isDump`). No reference is followed, so of the other
definitions it only matters which names they have.
-/

namespace SchemaDocs

namespace Dump

open Value (IsText IsMapping IsMappingOf IsList IsListOf)

variable {location : String} {fields attributes : List (Value × Value)} {value : Value} {raw : List (Value × Value)}

/-! ## Nodes in nodes -/

/-- The attributes that are written in a node. -/
def attributesIn (fields : List (Value × Value)) : List (Value × Value) :=
  match Value.lookup "properties" fields with
  | some (.map attributes) => attributes
  | _ => []

/-- The members of a union that are written in a node. -/
def membersIn (fields : List (Value × Value)) : List Value :=
  match Value.lookup "x-kcl-union-types" fields with
  | some (.list members) => members
  | _ => []

/-- The node of the values of a map; a field that holds no mapping stands for no node. -/
def additionalIn (fields : List (Value × Value)) : List Value :=
  match Value.lookup "additionalProperties" fields with
  | some (.map entries) => [.map entries]
  | _ => []

/-- The nodes in a node that the check looks at. -/
def checkedIn (fields : List (Value × Value)) : List Value :=
  (attributesIn fields).map (·.2) ++ (Value.lookup "items" fields).toList ++ additionalIn fields ++ membersIn fields

def nodesIn (fields : List (Value × Value)) : List Value :=
  checkedIn fields ++ (Value.lookup "x-kcl-dict-key-type" fields).toList

/-! ## Forms of nodes -/

/-- The fields of a node that hold no further nodes have their forms, and the others are collections where need be. -/
structure FieldsInOrder (fields : List (Value × Value)) : Prop where
  modelType : IfPresent "x-kcl-type" IsModelType fields
  type : UnlessNull "type" IsText fields
  description : UnlessNull "description" IsText fields
  properties : IfTruthy "properties" IsMapping fields
  required : IfTruthy "required" (IsListOf IsText) fields
  enum : IfPresent "enum" IsList fields
  members : IfTruthy "x-kcl-union-types" IsList fields
  decorators : UnlessNull "x-kcl-decorators" (IsListOf IsDecorator) fields
  examples : UnlessNull "examples" (IsMappingOf IsMapping) fields

/-- A value is a node among definitions with the given names. What a reference leads to is not looked at. -/
inductive IsNode (defined : String → Bool) : Value → Prop
  | reference {fields : List (Value × Value)} {name : String}
    (target : Value.lookup "$ref" fields = some (.str (referenceStart ++ name))) (known : defined name = true)
    (description : UnlessNull "description" IsText fields)
    (decorators : UnlessNull "x-kcl-decorators" (IsListOf IsDecorator) fields) : IsNode defined (.map fields)
  | written {fields : List (Value × Value)} (plain : field "$ref" fields = .null) (fieldsInOrder : FieldsInOrder fields)
    (below : ∀ node ∈ nodesIn fields, IsNode defined node) : IsNode defined (.map fields)

/-- A node requires only names of its own attributes. -/
def RequiresOwn (fields : List (Value × Value)) : Prop :=
  ∀ names name, Value.lookup "required" fields = some (.list names) → .str name ∈ names →
    (Value.lookup name (attributesIn fields)).isSome = true

/-- The nodes that the check looks at require only names of their own attributes. Nothing is looked at below a
reference, nor below a node with a model type of its own. -/
inductive IsChecked : Value → Prop
  | reference {fields : List (Value × Value)} (refers : field "$ref" fields ≠ .null) : IsChecked (.map fields)
  | named {fields : List (Value × Value)} (own : RequiresOwn fields)
    (named : (Value.lookup "x-kcl-type" fields).isSome = true) : IsChecked (.map fields)
  | written {fields : List (Value × Value)} (own : RequiresOwn fields)
    (below : ∀ node ∈ checkedIn fields, IsChecked node) : IsChecked (.map fields)

/-- The part of a key before its last dot is the path of a package: it is empty or has no empty part. -/
def LeadsToPackage (key : String) : Prop :=
  let path := (Text.splitLast '.' key).1
  path = "" ∨ "" ∉ Text.split '.' path

/-- The fields are those of a definition among definitions with the given names. -/
structure IsDefinition (defined : String → Bool) (fields : List (Value × Value)) : Prop where
  named : (Value.lookup "x-kcl-type" fields).isSome = true
  fieldsInOrder : FieldsInOrder fields
  nodes : ∀ node ∈ nodesIn fields, IsNode defined node
  own : RequiresOwn fields
  checked : ∀ node ∈ checkedIn fields, IsChecked node

/-- A document is a dump: its definitions are in order one by one. -/
structure IsDump (document : List (Value × Value)) : Prop where
  info : IfTruthy "info" IsMapping document
  definitions : UnlessNull "definitions" IsMapping document
  each : ∀ raw, Value.lookup "definitions" document = some (.map raw) → ∀ key value, (.str key, value) ∈ raw →
    ∃ fields, value = .map fields ∧ IsDefinition (isDefined raw) fields ∧ LeadsToPackage key

theorem forall_checkedIn {P : Value → Prop} : (∀ node ∈ checkedIn fields, P node) ↔
    (∀ e ∈ attributesIn fields, P e.2) ∧ (∀ node ∈ (Value.lookup "items" fields).toList, P node) ∧
      (∀ node ∈ additionalIn fields, P node) ∧ ∀ node ∈ membersIn fields, P node := by
  simp only [checkedIn, List.forall_mem_append, List.forall_mem_map, and_assoc]

theorem forall_nodesIn {P : Value → Prop} : (∀ node ∈ nodesIn fields, P node) ↔
    (∀ node ∈ checkedIn fields, P node) ∧ ∀ node ∈ (Value.lookup "x-kcl-dict-key-type" fields).toList, P node :=
  List.forall_mem_append

/-! ## Sizes -/

theorem mem_attributesIn {e : Value × Value} (he : e ∈ attributesIn fields) :
    ∃ attributes, Value.lookup "properties" fields = some (.map attributes) ∧ e ∈ attributes := by
  unfold attributesIn at he
  split at he
  · exact ⟨_, ‹_›, he⟩
  · simp at he

theorem mem_membersIn {node : Value} (hm : node ∈ membersIn fields) :
    ∃ members, Value.lookup "x-kcl-union-types" fields = some (.list members) ∧ node ∈ members := by
  unfold membersIn at hm
  split at hm
  · exact ⟨_, ‹_›, hm⟩
  · simp at hm

theorem mem_additionalIn {node : Value} (hm : node ∈ additionalIn fields) :
    Value.lookup "additionalProperties" fields = some node := by
  unfold additionalIn at hm
  split at hm
  · rw [List.mem_singleton.1 hm]
    assumption
  · simp at hm

/-- A node in a node is smaller, and it stands in the same document. -/
theorem below_of_mem_nodesIn (h : Value.entriesAreJson fields = true) {node : Value} (hm : node ∈ nodesIn fields) :
    sizeOf node < sizeOf (Value.map fields) ∧ node.isJson = true := by
  have hlookup : ∀ {name}, Value.lookup name fields = some node →
      sizeOf node < sizeOf (Value.map fields) ∧ node.isJson = true :=
    fun hl => ⟨Value.sizeOf_lt_of_lookup hl, Value.isJson_of_lookup h hl⟩
  simp only [nodesIn, checkedIn, List.mem_append, Option.mem_toList, List.mem_map] at hm
  rcases hm with (((⟨e, he, rfl⟩ | hl) | hm) | hm) | hl
  · obtain ⟨attributes, hl, he⟩ := mem_attributesIn he
    have hjson : Value.entriesAreJson attributes = true := Value.isJson_of_lookup h hl
    exact ⟨Nat.lt_trans (Value.sizeOf_lt_of_mem he) (Value.sizeOf_lt_of_lookup hl), Value.isJson_of_mem hjson he⟩
  · exact hlookup hl
  · exact hlookup (mem_additionalIn hm)
  · obtain ⟨members, hl, hm⟩ := mem_membersIn hm
    have hjson : Value.itemsAreJson members = true := Value.isJson_of_lookup h hl
    exact ⟨Nat.lt_trans (Value.sizeOf_lt_of_mem_items hm) (Value.sizeOf_lt_of_lookup hl),
      Value.isJson_of_mem_items hjson hm⟩
  · exact hlookup hl

/-! ## Nodes that are described -/

/-- A node is described, wherever it stands, when it has a form. -/
def DescribedIff (raw : List (Value × Value)) (form : Value → Prop) (node : Value) : Prop :=
  ∀ location, (∃ o, describe raw node location = .ok o) ↔ form node

section Described

variable {form : Value → Prop}

theorem exists_readAttributes (location : String) : ∀ {attributes : List (Value × Value)},
    (∀ e ∈ attributes, DescribedIff raw form e.2) →
    ((∃ ss, RawFields.readAttributes location (attributes.map fun e => (e.1, describe raw e.2)) = .ok ss) ↔
      ∀ e ∈ attributes, form e.2)
  | [], _ => by simp [RawFields.readAttributes, pure, Except.pure]
  | e :: rest, h => by
    rw [List.forall_mem_cons, ← h e List.mem_cons_self (location ++ "." ++ e.1.plain),
      ← exists_readAttributes location fun e he => h e (List.mem_cons_of_mem _ he)]
    simp only [List.map_cons, RawFields.readAttributes, exists_bind]
    constructor
    · rintro ⟨s, hs, ss, hss, -⟩
      exact ⟨⟨s, hs⟩, ss, hss⟩
    · rintro ⟨⟨s, hs⟩, ss, hss⟩
      exact ⟨s, hs, ss, hss, _, rfl⟩

theorem exists_readMembers (location : String) : ∀ {items : List Value} (index : Nat),
    (∀ node ∈ items, DescribedIff raw form node) →
    ((∃ ss, RawFields.readMembers location index (items.map (describe raw)) = .ok ss) ↔ ∀ node ∈ items, form node)
  | [], _, _ => by simp [RawFields.readMembers, pure, Except.pure]
  | node :: rest, index, h => by
    rw [List.forall_mem_cons, ← h node List.mem_cons_self (Location.member location index),
      ← exists_readMembers location (index + 1) fun n hn => h n (List.mem_cons_of_mem _ hn)]
    simp only [List.map_cons, RawFields.readMembers, exists_bind]
    constructor
    · rintro ⟨s, hs, ss, hss, -⟩
      exact ⟨⟨s, hs⟩, ss, hss⟩
    · rintro ⟨⟨s, hs⟩, ss, hss⟩
      exact ⟨s, hs, ss, hss, _, rfl⟩

theorem exists_node? (location : String) {name : String}
    (h : ∀ node ∈ (Value.lookup name fields).toList, DescribedIff raw form node) :
    (∃ s, (rawFields (describeMapping raw) [] fields).node? name location = .ok s) ↔
      ∀ node ∈ (Value.lookup name fields).toList, form node := by
  rw [RawFields.node?_rawFields]
  cases hl : Value.lookup name fields with
  | none => simp [pure, Except.pure]
  | some node =>
    rw [hl] at h
    simp only [exists_map, Option.toList_some, List.forall_mem_singleton]
    exact h node (by simp) location

theorem exists_additional (location : String) (hjson : Value.entriesAreJson fields = true)
    (h : ∀ node ∈ additionalIn fields, DescribedIff raw form node) :
    (∃ s, (rawFields (describeMapping raw) [] fields).additional location = .ok s) ↔
      ∀ node ∈ additionalIn fields, form node := by
  rw [RawFields.additional_rawFields _ hjson]
  unfold additionalIn at *
  cases hl : Value.lookup "additionalProperties" fields with
  | none => simp [pure, Except.pure]
  | some value =>
    rw [hl] at h
    cases value with
    | map entries =>
      simp only [exists_map, List.forall_mem_singleton]
      exact h _ (by simp) _
    | _ => simp [pure, Except.pure]

theorem exists_properties (location : String) (hjson : Value.entriesAreJson fields = true)
    (h : ∀ e ∈ attributesIn fields, DescribedIff raw form e.2) :
    (∃ ss, (rawFields (describeMapping raw) [] fields).properties location = .ok ss) ↔
      IfTruthy "properties" IsMapping fields ∧ ∀ e ∈ attributesIn fields, form e.2 := by
  rw [RawFields.properties_rawFields _ hjson, IfTruthy, IfPresent]
  unfold attributesIn at *
  cases hl : Value.lookup "properties" fields with
  | none => simp [pure, Except.pure]
  | some value =>
    rw [hl] at h
    by_cases htruthy : value.isTruthy = true
    · cases value with
      | map attributes =>
        simp only [htruthy, Bool.not_true, Bool.false_eq_true, ↓reduceIte, exists_map]
        exact (exists_readAttributes location h).trans (by simp [IsMapping])
      | _ => simp [htruthy, IsMapping, throw, throwThe, MonadExceptOf.throw]
    · cases value with
      | map attributes =>
        have hnil : attributes = [] := by simpa [Value.isTruthy] using htruthy
        simp [hnil, Value.isTruthy, pure, Except.pure]
      | _ => simp [htruthy, pure, Except.pure]

theorem exists_members (location : String) (hjson : Value.entriesAreJson fields = true)
    (h : ∀ node ∈ membersIn fields, DescribedIff raw form node) :
    (∃ ss, (rawFields (describeMapping raw) [] fields).members location = .ok ss) ↔
      IfTruthy "x-kcl-union-types" IsList fields ∧ ∀ node ∈ membersIn fields, form node := by
  rw [RawFields.members_rawFields _ hjson, IfTruthy, IfPresent]
  unfold membersIn at *
  cases hl : Value.lookup "x-kcl-union-types" fields with
  | none => simp [pure, Except.pure]
  | some value =>
    rw [hl] at h
    by_cases htruthy : value.isTruthy = true
    · cases value with
      | list members =>
        simp only [htruthy, Bool.not_true, Bool.false_eq_true, ↓reduceIte]
        exact (exists_readMembers location 0 h).trans (by simp [IsList])
      | _ => simp [htruthy, IsList, throw, throwThe, MonadExceptOf.throw]
    · cases value with
      | list members =>
        have hnil : members = [] := by simpa [Value.isTruthy] using htruthy
        simp [hnil, Value.isTruthy, pure, Except.pure]
      | _ => simp [htruthy, pure, Except.pure]

/-- A node that is written out is described when its fields are in order and the nodes in it have their form. -/
theorem exists_describeFields (location : String) (hjson : Value.entriesAreJson fields = true)
    (h : ∀ node ∈ nodesIn fields, DescribedIff raw form node) :
    (∃ o, describeFields location (rawFields (describeMapping raw) [] fields) = .ok o) ↔
      FieldsInOrder fields ∧ ∀ node ∈ nodesIn fields, form node := by
  obtain ⟨hchecked, hkey⟩ := forall_nodesIn.1 h
  obtain ⟨hattributes, hitems, hadditional, hmembers⟩ := forall_checkedIn.1 hchecked
  have hhead := exists_readHead location hjson
  have hproperties := exists_properties location hjson hattributes
  have hrequired := exists_required location hjson
  have hitem := exists_node? (location ++ "[items]") hitems
  have hmore := exists_additional location hjson hadditional
  have henum := exists_enumerated location hjson
  have hkeyType := exists_node? (location ++ "[key]") hkey
  have hunion := exists_members location hjson hmembers
  have hdecorators := exists_readDecorators location hjson
  have hexamples := exists_readExamples location hjson
  simp only [describeFields, exists_bind, RawFields.values_rawFields]
  constructor
  · rintro ⟨head, h1, properties, h2, names, h3, item, h4, more, h5, enum, h6, keyType, h7, members, h8, decorators, h9,
      examples, h10, -⟩
    obtain ⟨h11, h12, h13⟩ := hhead.1 ⟨_, h1⟩
    obtain ⟨h14, h15⟩ := hproperties.1 (exists_map.1 ⟨_, h2⟩)
    obtain ⟨h16, h17⟩ := hunion.1 ⟨_, h8⟩
    exact ⟨⟨h11, h12, h13, h14, hrequired.1 ⟨_, h3⟩, henum.1 ⟨_, h6⟩, h16, hdecorators.1 ⟨_, h9⟩, hexamples.1 ⟨_, h10⟩⟩,
      forall_nodesIn.2 ⟨forall_checkedIn.2 ⟨h15, hitem.1 ⟨_, h4⟩, hmore.1 ⟨_, h5⟩, h17⟩, hkeyType.1 ⟨_, h7⟩⟩⟩
  · rintro ⟨hf, hnodes⟩
    obtain ⟨hchecked, hkey⟩ := forall_nodesIn.1 hnodes
    obtain ⟨hattributes, hitems, hadditional, hmembers⟩ := forall_checkedIn.1 hchecked
    obtain ⟨head, h1⟩ := hhead.2 ⟨hf.modelType, hf.type, hf.description⟩
    obtain ⟨properties, h2⟩ := exists_map.2 (hproperties.2 ⟨hf.properties, hattributes⟩)
    obtain ⟨names, h3⟩ := hrequired.2 hf.required
    obtain ⟨item, h4⟩ := hitem.2 hitems
    obtain ⟨more, h5⟩ := hmore.2 hadditional
    obtain ⟨enum, h6⟩ := henum.2 hf.enum
    obtain ⟨keyType, h7⟩ := hkeyType.2 hkey
    obtain ⟨members, h8⟩ := hunion.2 ⟨hf.members, hmembers⟩
    obtain ⟨decorators, h9⟩ := hdecorators.2 hf.decorators
    obtain ⟨examples, h10⟩ := hexamples.2 hf.examples
    exact ⟨head, h1, properties, h2, names, h3, item, h4, more, h5, enum, h6, keyType, h7, members, h8, decorators, h9,
      examples, h10, _, rfl⟩

theorem exists_describeReference (hjson : Value.entriesAreJson fields = true) {reference : Value} :
    (∃ o, describeReference raw location reference fields = .ok o) ↔
      (∃ name, reference = .str (referenceStart ++ name) ∧ isDefined raw name = true) ∧
        UnlessNull "description" IsText fields ∧ UnlessNull "x-kcl-decorators" (IsListOf IsDecorator) fields := by
  rw [← exists_referenceName location, ← exists_textField location,
    ← exists_readDecorators location hjson]
  simp only [describeReference, exists_bind]
  constructor
  · rintro ⟨name, h1, description, h2, decorators, h3, -⟩
    exact ⟨⟨name, h1⟩, ⟨description, h2⟩, decorators, h3⟩
  · rintro ⟨⟨name, h1⟩, ⟨description, h2⟩, decorators, h3⟩
    exact ⟨name, h1, description, h2, decorators, h3, _, rfl⟩

end Described

theorem describe_map (location : String) : describe raw (.map fields) location =
    match field "$ref" fields with
    | .null => describeFields location (rawFields (describeMapping raw) [] fields)
    | reference => describeReference raw location reference fields := by
  show describeMapping raw (rawFields (describeMapping raw) [] fields) location = _
  rewrite [describeMapping, RawFields.values_rawFields]
  rfl

/-- A mapping is described when it is a node, if this holds of the nodes in it. -/
theorem describedIff_map (hjson : Value.entriesAreJson fields = true)
    (hbelow : ∀ node ∈ nodesIn fields, DescribedIff raw (IsNode (isDefined raw)) node) :
    DescribedIff raw (IsNode (isDefined raw)) (.map fields) := by
  intro location
  rw [describe_map]
  by_cases hplain : field "$ref" fields = .null
  · rw [hplain, exists_describeFields _ hjson hbelow]
    constructor
    · exact fun ⟨hf, hnodes⟩ => .written hplain hf hnodes
    · intro h
      cases h with
      | reference target _ _ _ => simp [field, target] at hplain
      | written _ hf hnodes => exact ⟨hf, hnodes⟩
  · have hreference : (∃ o, describeReference raw location (field "$ref" fields) fields = .ok o) ↔
        IsNode (isDefined raw) (.map fields) := by
      rw [exists_describeReference hjson]
      constructor
      · rintro ⟨⟨name, hname, hknown⟩, hdescription, hdecorators⟩
        exact .reference (field_eq_str.1 hname) hknown hdescription hdecorators
      · intro h
        cases h with
        | reference target known hdescription hdecorators =>
          exact ⟨⟨_, field_eq_str.2 target, known⟩, hdescription, hdecorators⟩
        | written hnull _ _ => exact absurd hnull hplain
    cases hf : field "$ref" fields with
    | null => exact absurd hf hplain
    | _ => simpa only [hf] using hreference

/-- **A value of a document is described when it is a node.** -/
theorem describedIff_isNode (raw : List (Value × Value)) : ∀ value : Value, value.isJson = true →
    DescribedIff raw (IsNode (isDefined raw)) value
  | .map _, hjson => describedIff_map hjson fun node hm =>
      describedIff_isNode raw node (below_of_mem_nodesIn hjson hm).2
  | .null, _ | .bool _, _ | .int _, _ | .float _, _ | .str _, _ | .list _, _ => by
    intro location
    constructor
    · rintro ⟨o, ho⟩
      cases ho
    · intro h
      cases h
termination_by value => sizeOf value
decreasing_by exact (below_of_mem_nodesIn hjson hm).1

end Dump

end SchemaDocs
