import SchemaDocs.Proofs.Json
import SchemaDocs.Proofs.Reading
import SchemaDocs.Proofs.Soundness

/-!
# What nodes describe

Read by itself, without a table of definitions, a node describes a schema in which every reference is a leaf: the model
type of the definition that it leads to, and what stands next to the reference. Nothing is entered or looked up, so the
description of a node depends on the node and on the model types of the definitions only (`describe`). A node is
described when all its parts are (`describeFields_ok`).
-/

namespace SchemaDocs.Dump

def isDefined (raw : List (Value × Value)) (name : String) : Bool := (Value.lookup name raw).isSome

def modelTypeOf? (raw : List (Value × Value)) (key : String) : Option ModelType :=
  match Value.lookup key raw with
  | some (.map fields) => (modelTypeField key fields).toOption.join
  | _ => none

def describeReference (raw : List (Value × Value)) (location : String) (reference : Value)
    (values : List (Value × Value)) : Except Error Schema := do
  let name ← referenceName (isDefined raw) location reference
  let description ← textField "description" location values
  let decorators ← readDecorators location values
  return {
    modelType := modelTypeOf? raw name
    description := Text.trimBlanks description
    default := Value.lookup "default" values
    readOnly := (field "readOnly" values).isTruthy
    decorators := decorators }

/-- The schema that the fields of a node describe, with its attributes in the order of their names. -/
def describeFields (location : String) (fields : RawFields (Except Error)) : Except Error Schema := do
  let head ← readHead location fields.values
  let properties ← Assoc.sortByName (·.1) <$> fields.properties location
  let required ← required location fields.values
  let items ← fields.node? "items" (location ++ "[items]")
  let additional ← fields.additional location
  let enumerated ← enumerated location fields.values
  let keyType ← fields.node? "x-kcl-dict-key-type" (location ++ "[key]")
  let members ← fields.members location
  let decorators ← readDecorators location fields.values
  let examples ← readExamples location fields.values
  return { head with
    properties := properties
    required := required
    items := items
    additional := additional
    enum := enumerated
    keyType := keyType
    members := members
    decorators := decorators
    examples := examples }

def describeMapping (raw : List (Value × Value)) (fields : RawFields (Except Error)) (location : String) :
    Except Error Schema :=
  match field "$ref" fields.values with
  | .null => describeFields location fields
  | reference => describeReference raw location reference fields.values

def describe (raw : List (Value × Value)) : Value → String → Except Error Schema := nodeReader (describeMapping raw)

def describeDefinition (raw : List (Value × Value)) (key : String) (fields : List (Value × Value)) :
    Except Error Schema :=
  describeFields key (rawFields (describeMapping raw) [] fields)

/-! ## Descriptions part by part -/

/-- What the fields of a node describe, part by part. -/
structure Describes (location : String) (fields : RawFields (Except Error)) (start o : Schema) : Prop where
  head : readHead location fields.values = .ok start
  properties : Assoc.sortByName (·.1) <$> fields.properties location = .ok o.properties
  required : required location fields.values = .ok o.required
  items : fields.node? "items" (location ++ "[items]") = .ok o.items
  additional : fields.additional location = .ok o.additional
  enum : enumerated location fields.values = .ok o.enum
  keyType : fields.node? "x-kcl-dict-key-type" (location ++ "[key]") = .ok o.keyType
  members : fields.members location = .ok o.members
  decorators : readDecorators location fields.values = .ok o.decorators
  examples : readExamples location fields.values = .ok o.examples
  eq : o = { start with
    properties := o.properties
    required := o.required
    items := o.items
    additional := o.additional
    enum := o.enum
    keyType := o.keyType
    members := o.members
    decorators := o.decorators
    examples := o.examples }

/-- The attributes as they are listed in the node. -/
theorem Describes.listed {location : String} {fields : RawFields (Except Error)} {start o : Schema}
    (h : Describes location fields start o) :
    ∃ listed, fields.properties location = .ok listed ∧ o.properties = Assoc.sortByName (·.1) listed := by
  obtain ⟨listed, hlisted, hsorted⟩ := except_map_ok.1 h.properties
  exact ⟨listed, hlisted, hsorted.symm⟩

/-- **A node is described when all its parts are.** -/
theorem describeFields_ok {location : String} {fields : RawFields (Except Error)} {o : Schema} :
    describeFields location fields = .ok o ↔ ∃ head, Describes location fields head o := by
  simp only [describeFields, except_bind_ok]
  constructor
  · rintro ⟨head, h1, properties, h2, required, h3, items, h4, additional, h5, enum, h6, keyType, h7, members, h8,
      decorators, h9, examples, h10, ⟨⟩⟩
    exact ⟨head, h1, h2, h3, h4, h5, h6, h7, h8, h9, h10, rfl⟩
  · rintro ⟨head, h1, h2, h3, h4, h5, h6, h7, h8, h9, h10, h⟩
    exact ⟨head, h1, _, h2, _, h3, _, h4, _, h5, _, h6, _, h7, _, h8, _, h9, _, h10, congrArg Except.ok h.symm⟩

/-- When a node is described, so is each of its parts. -/
theorem part_of_described {location : String} {fields : RawFields (Except Error)} {β : Type} {y : Except Error β}
    (h : ∀ {start o}, Describes location fields start o → ∃ b, y = .ok b) (o : Schema)
    (ho : describeFields location fields = .ok o) : ∃ b, y = .ok b := by
  obtain ⟨start, hd⟩ := describeFields_ok.1 ho
  exact h hd

theorem describeReference_ok {raw values : List (Value × Value)} {location : String} {reference : Value} {o : Schema} :
    describeReference raw location reference values = .ok o ↔ ∃ name description decorators,
      referenceName (isDefined raw) location reference = .ok name ∧
      textField "description" location values = .ok description ∧
      readDecorators location values = .ok decorators ∧ o = {
        modelType := modelTypeOf? raw name
        description := Text.trimBlanks description
        default := Value.lookup "default" values
        readOnly := (field "readOnly" values).isTruthy
        decorators := decorators } := by
  simp only [describeReference, except_bind_ok]
  constructor
  · rintro ⟨name, h1, description, h2, decorators, h3, ⟨⟩⟩
    exact ⟨name, description, decorators, h1, h2, h3, rfl⟩
  · rintro ⟨name, description, decorators, h1, h2, h3, rfl⟩
    exact ⟨name, h1, description, h2, decorators, h3, rfl⟩

/-- The model type of a definition is the one that its fields describe. -/
theorem modelTypeOf?_eq {raw fields : List (Value × Value)} {key : String} {head : Schema}
    (hl : Value.lookup key raw = some (.map fields)) (h : readHead key fields = .ok head) :
    modelTypeOf? raw key = head.modelType := by
  rw [modelTypeOf?, hl]
  simp only [readHead_ok h]
  rfl

/-- The model type of a definition is that of the schema which it describes. -/
theorem modelTypeOf?_of_described {raw fields : List (Value × Value)} {key : String} {o : Schema}
    (hl : Value.lookup key raw = some (.map fields)) (h : describeDefinition raw key fields = .ok o) :
    modelTypeOf? raw key = o.modelType := by
  obtain ⟨head, hd⟩ := describeFields_ok.1 h
  have hhead := hd.head
  rw [RawFields.values_rawFields] at hhead
  rw [modelTypeOf?_eq hl hhead, hd.eq]

/-- The attributes of a description have the names of those of the node. -/
theorem names_readAttributes {location : String} : ∀ {attributes : List (Value × Value)}
    {read : Value → String → Except Error Schema} {properties : List (String × Schema)},
    RawFields.readAttributes location (attributes.map fun e => (e.1, read e.2)) = .ok properties →
      properties.map (·.1) = attributes.map fun e => e.1.plain
  | [], _, _, h => by
    cases h
    rfl
  | e :: rest, read, properties, h => by
    simp only [List.map_cons, RawFields.readAttributes, except_bind_ok] at h
    obtain ⟨s, -, below, hb, h⟩ := h
    cases h
    rw [List.map_cons, List.map_cons, names_readAttributes hb]

/-! ## Good dumps -/

def Typed (raw : List (Value × Value)) : Prop := ∀ name, isDefined raw name = true → (modelTypeOf? raw name).isSome

/-- Every definition describes a sound schema with a model type. -/
def AllGood (raw : List (Value × Value)) : Prop := ∀ key value, Value.lookup key raw = some value →
  ∃ fields o, value = .map fields ∧ describeDefinition raw key fields = .ok o ∧ o.modelType.isSome = true ∧
    Schema.Sound true o

theorem AllGood.typed {raw : List (Value × Value)} (h : AllGood raw) : Typed raw := by
  intro name hname
  obtain ⟨value, hl⟩ := Option.isSome_iff_exists.1 hname
  obtain ⟨fields, o, rfl, ho, hm, -⟩ := h name value hl
  rwa [modelTypeOf?_of_described hl ho]

end SchemaDocs.Dump
