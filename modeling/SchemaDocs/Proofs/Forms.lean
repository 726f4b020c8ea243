import SchemaDocs.Proofs.Describe
import SchemaDocs.Proofs.ExampleOrder

/-!
# Forms of fields

The forms that the fields of a raw node have to have, as conditions on the node alone. A field has a form in one of
three ways: whenever it is there, unless it is null, or only if its value is truthy. Each reader of a field succeeds
when the field has its form, and a reader that fails names the node that it is about.
-/

namespace SchemaDocs

namespace Text

theorem afterList?_eq_some : ∀ {start cs rest : List Char}, afterList? start cs = some rest ↔ cs = start ++ rest
  | [], cs, rest => by simp [afterList?]
  | p :: ps, [], rest => by simp [afterList?]
  | p :: ps, c :: cs, rest => by
    rw [afterList?]
    split
    · rename_i h
      rw [afterList?_eq_some, h, List.cons_append, List.cons.injEq]
      simp
    · rename_i h
      simp [Ne.symm h]

theorem after?_eq_some {start s rest : String} : after? start s = some rest ↔ s = start ++ rest := by
  rw [after?, Option.map_eq_some_iff]
  constructor
  · rintro ⟨cs, h, rfl⟩
    rw [afterList?_eq_some] at h
    rw [← String.toList_inj, h, String.toList_append, String.toList_ofList]
  · rintro rfl
    exact ⟨rest.toList, afterList?_eq_some.2 (String.toList_append ..), String.ofList_toList⟩

end Text

namespace Value

def IsText (value : Value) : Prop := ∃ s, value = .str s

def IsMapping (value : Value) : Prop := ∃ entries, value = .map entries

def IsMappingOf (form : Value → Prop) (value : Value) : Prop :=
  ∃ entries, value = .map entries ∧ ∀ e ∈ entries, form e.2

def IsList (value : Value) : Prop := ∃ items, value = .list items

def IsListOf (form : Value → Prop) (value : Value) : Prop := ∃ items, value = .list items ∧ ∀ item ∈ items, form item

end Value

namespace Dump

open Value (IsText IsMapping IsMappingOf IsList IsListOf)

variable {name location : String} {form : Value → Prop} {fields : List (Value × Value)} {value : Value}

/-! ## Ways of having a form -/

def IfPresent (name : String) (form : Value → Prop) (fields : List (Value × Value)) : Prop :=
  ∀ value, Value.lookup name fields = some value → form value

def UnlessNull (name : String) (form : Value → Prop) : List (Value × Value) → Prop :=
  IfPresent name fun value => value ≠ .null → form value

def IfTruthy (name : String) (form : Value → Prop) : List (Value × Value) → Prop :=
  IfPresent name fun value => value.isTruthy = true → form value

theorem unlessNull_iff : UnlessNull name form fields ↔ (field name fields ≠ .null → form (field name fields)) := by
  rw [UnlessNull, IfPresent, field]
  cases Value.lookup name fields with
  | none => simp
  | some value => simp

theorem ifTruthy_iff :
    IfTruthy name form fields ↔ ((field name fields).isTruthy = true → form (field name fields)) := by
  rw [IfTruthy, IfPresent, field]
  cases Value.lookup name fields with
  | none => simp [Value.isTruthy]
  | some value => simp

theorem isJson_field (h : Value.entriesAreJson fields = true) (name : String) : (field name fields).isJson = true := by
  rw [field]
  cases hl : Value.lookup name fields with
  | none => rfl
  | some value => exact Value.isJson_of_lookup h hl

theorem unmarked_field (h : Value.entriesAreJson fields = true) (name : String) :
    (field name fields).unmarked = field name fields := Value.unmarked_of_isJson (isJson_field h name)

theorem entriesAreJson_of_field {entries : List (Value × Value)} (h : Value.entriesAreJson fields = true)
    (hf : field name fields = .map entries) : Value.entriesAreJson entries = true := by
  have := isJson_field h name
  rwa [hf] at this

theorem itemsAreJson_of_field {items : List Value} (h : Value.entriesAreJson fields = true)
    (hf : field name fields = .list items) : Value.itemsAreJson items = true := by
  have := isJson_field h name
  rwa [hf] at this

/-! ## Steps that succeed or blame a node -/

/-- Every error is about the node at a location. -/
structure Blames {α : Type} (location : String) (x : Except Error α) : Prop where
  node : ∀ e, x = .error e → ∃ fault, e = .node location fault

section Steps

variable {α β : Type} {x : Except Error α}

theorem Blames.ok {a : α} : Blames location (.ok a : Except Error α) := ⟨fun _ h => by simp at h⟩

theorem Blames.error {fault : Fault} : Blames location (.error (.node location fault) : Except Error α) :=
  ⟨fun _ h => ⟨fault, (Except.error.inj h).symm⟩⟩

theorem Blames.bind {f : α → Except Error β} (hx : Blames location x) (hf : ∀ a, x = .ok a → Blames location (f a)) :
    Blames location (x >>= f) := by
  cases x with
  | error e => exact ⟨fun e' h => hx.node e' (congrArg Except.error (Except.error.inj h))⟩
  | ok a => exact hf a rfl

theorem Blames.map {f : α → β} (hx : Blames location x) : Blames location (f <$> x) := by
  cases x with
  | error e => exact ⟨fun e' h => hx.node e' (congrArg Except.error (Except.error.inj h))⟩
  | ok a => exact .ok

theorem Blames.mapM {f : β → Except Error α} : ∀ {l : List β}, (∀ b ∈ l, Blames location (f b)) →
    Blames location (l.mapM f)
  | [], _ => .ok
  | b :: rest, h => by
    rw [List.mapM_cons]
    exact .bind (h b List.mem_cons_self) fun _ _ =>
      .bind (Blames.mapM fun b hb => h b (List.mem_cons_of_mem _ hb)) fun _ _ => .ok

theorem exists_mapM {f : β → Except Error α} : ∀ {l : List β},
    (∃ as, l.mapM f = .ok as) ↔ ∀ b ∈ l, ∃ a, f b = .ok a
  | [] => by simp [pure, Except.pure]
  | b :: rest => by
    rw [List.forall_mem_cons, ← exists_mapM]
    simp only [List.mapM_cons, except_bind_ok]
    constructor
    · rintro ⟨_, a, ha, as, has, -⟩
      exact ⟨⟨a, ha⟩, as, has⟩
    · rintro ⟨⟨a, ha⟩, as, has⟩
      exact ⟨_, a, ha, as, has, rfl⟩

theorem ok_bind (a : α) (f : α → Except Error β) : (Except.ok a >>= f) = f a := rfl

theorem error_bind (e : Error) (f : α → Except Error β) : (Except.error e >>= f) = .error e := rfl

theorem exists_bind {f : α → Except Error β} :
    (∃ b, (x >>= f) = .ok b) ↔ ∃ a, x = .ok a ∧ ∃ b, f a = .ok b := by
  cases x with
  | error e => simp [error_bind]
  | ok a => simp [ok_bind]

theorem exists_map {f : α → β} : (∃ b, f <$> x = .ok b) ↔ ∃ a, x = .ok a := by
  cases x <;> simp [Functor.map, Except.map]

end Steps

/-! ## Texts -/

theorem exists_textField (location : String) :
    (∃ s, textField name location fields = .ok s) ↔ UnlessNull name IsText fields := by
  rw [unlessNull_iff, textField]
  cases field name fields <;> simp [IsText]

theorem blames_textField (name location : String) (fields : List (Value × Value)) :
    Blames location (textField name location fields) := by
  unfold textField
  split
  · exact .ok
  · exact .ok
  · exact .error

theorem exists_importField (location : String) :
    (∃ s, importField name location fields = .ok s) ↔ IfTruthy name IsText fields := by
  rw [ifTruthy_iff, importField]
  by_cases h : (field name fields).isTruthy = true
  · simp only [h, ↓reduceIte, forall_const]
    cases field name fields <;> simp [IsText]
  · simp [h]

theorem blames_importField (name location : String) (fields : List (Value × Value)) :
    Blames location (importField name location fields) := by
  unfold importField
  dsimp only
  split
  · split
    · exact .ok
    · exact .error
  · exact .ok

/-! ## Lists and mappings -/

/-- The items of a field that holds a list, none if its value is not truthy. -/
def listField (name : String) (fault : Error) (fields : List (Value × Value)) : Except Error (List Value) :=
  if (field name fields).isTruthy then
    match (field name fields).unmarked with
    | .list items => .ok items
    | _ => .error fault
  else .ok []

/-- The entries of a field that holds a mapping, none if its value is not truthy. -/
def mapField (name : String) (fault : Error) (fields : List (Value × Value)) : Except Error (List (Value × Value)) :=
  if (field name fields).isTruthy then
    match (field name fields).unmarked with
    | .map entries => .ok entries
    | _ => .error fault
  else .ok []

theorem exists_listField (fault : Error) (h : Value.entriesAreJson fields = true) :
    (∃ items, listField name fault fields = .ok items) ↔ IfTruthy name IsList fields := by
  rw [ifTruthy_iff, listField, unmarked_field h]
  by_cases htruthy : (field name fields).isTruthy = true
  · simp only [htruthy, ↓reduceIte, forall_const]
    cases field name fields <;> simp [IsList]
  · simp [htruthy]

theorem exists_mapField (fault : Error) (h : Value.entriesAreJson fields = true) :
    (∃ entries, mapField name fault fields = .ok entries) ↔ IfTruthy name IsMapping fields := by
  rw [ifTruthy_iff, mapField, unmarked_field h]
  by_cases htruthy : (field name fields).isTruthy = true
  · simp only [htruthy, ↓reduceIte, forall_const]
    cases field name fields <;> simp [IsMapping]
  · simp [htruthy]

theorem blames_listField (name : String) (fault : Fault) (fields : List (Value × Value)) :
    Blames location (listField name (.node location fault) fields) := by
  unfold listField
  split
  · split
    · exact .ok
    · exact .error
  · exact .ok

theorem blames_mapField (name : String) (fault : Fault) (fields : List (Value × Value)) :
    Blames location (mapField name (.node location fault) fields) := by
  unfold mapField
  split
  · split
    · exact .ok
    · exact .error
  · exact .ok

theorem field_eq_str {s : String} : field name fields = .str s ↔ Value.lookup name fields = some (.str s) := by
  rw [field]
  cases Value.lookup name fields <;> simp

theorem field_eq_map {entries : List (Value × Value)} :
    field name fields = .map entries ↔ Value.lookup name fields = some (.map entries) := by
  rw [field]
  cases Value.lookup name fields <;> simp

/-! ## Model types -/

/-- An import names a package and a source file, each by a text if it is truthy. -/
def IsImport (value : Value) : Prop := ∃ entries, value = .map entries ∧ IfTruthy "package" IsText entries ∧
  IfTruthy "alias" IsText entries

/-- A model type has a name, and an import if that is truthy. -/
def IsModelType (value : Value) : Prop := ∃ fields name, value = .map fields ∧
  Value.lookup "type" fields = some (.str name) ∧ name ≠ "" ∧ IfTruthy "import" IsImport fields

theorem readModelType_map (location : String) (fields : List (Value × Value)) :
    readModelType location (.map fields) = match field "type" fields with
      | .str name =>
        if name.isEmpty then .error (.node location .modelTypeWithoutName)
        else do
          let origin ← mapField "import" (.node location .importNotObject) fields
          let package ← importField "package" location origin
          let sourceFile ← importField "alias" location origin
          return ⟨name, package, sourceFile⟩
      | _ => .error (.node location .modelTypeWithoutName) := by
  have hunmarked : (Value.map fields).unmarked = .map fields := rfl
  simp only [readModelType, hunmarked, mapField]
  cases field "type" fields with
  | str name =>
    by_cases hempty : name.isEmpty = true
    · simp only [hempty, ↓reduceIte]
      rfl
    · simp only [hempty, Bool.false_eq_true, ↓reduceIte, ok_bind]
      by_cases htruthy : (field "import" fields).isTruthy = true
      · simp only [htruthy, ↓reduceIte]
        cases (field "import" fields).unmarked <;> rfl
      · simp only [htruthy, Bool.false_eq_true, ↓reduceIte]
        rfl
  | _ => rfl

/-- An import is read when it has the form. -/
theorem exists_import (h : Value.entriesAreJson fields = true) {fault : Error} :
    (∃ origin, mapField "import" fault fields = .ok origin ∧ (∃ s, importField "package" location origin = .ok s) ∧
      ∃ s, importField "alias" location origin = .ok s) ↔ IfTruthy "import" IsImport fields := by
  rw [ifTruthy_iff, mapField, unmarked_field h]
  by_cases htruthy : (field "import" fields).isTruthy = true
  · simp only [htruthy, ↓reduceIte, forall_const, IsImport, ← exists_importField location]
    cases field "import" fields <;> simp
  · have hnone (name : String) : importField name location [] = .ok "" := rfl
    simp [htruthy, hnone]

theorem exists_readModelType (h : value.isJson = true) :
    (∃ m, readModelType location value = .ok m) ↔ IsModelType value := by
  cases value with
  | map fields =>
    rw [readModelType_map]
    simp only [IsModelType, Value.map.injEq, exists_and_left, exists_eq_left', ← field_eq_str]
    cases field "type" fields with
    | str name =>
      by_cases hempty : name.isEmpty = true
      · simp [String.isEmpty_iff.1 hempty]
      · have hne : name ≠ "" := by simpa [String.isEmpty_iff] using hempty
        simp only [hempty, Bool.false_eq_true, ↓reduceIte, exists_bind, Value.str.injEq, exists_eq_left', hne, ne_eq,
          not_false_eq_true, true_and]
        rw [← exists_import h]
        constructor
        · rintro ⟨origin, horigin, package, hpackage, sourceFile, hsource, -⟩
          exact ⟨origin, horigin, ⟨package, hpackage⟩, sourceFile, hsource⟩
        · rintro ⟨origin, horigin, ⟨package, hpackage⟩, sourceFile, hsource⟩
          exact ⟨origin, horigin, package, hpackage, sourceFile, hsource, _, rfl⟩
    | _ => simp
  | _ => simp [readModelType, Value.unmarked_of_isJson h, IsModelType]

theorem readModelType_of_unmarked (h : value.unmarked = .map fields) :
    readModelType location value = readModelType location (.map fields) := by
  unfold readModelType
  rw [h]
  rfl

theorem blames_readModelType (location : String) (value : Value) : Blames location (readModelType location value) := by
  cases hv : value.unmarked with
  | map fields =>
    rw [readModelType_of_unmarked hv, readModelType_map]
    split
    · split
      · exact .error
      · exact .bind (blames_mapField ..) fun _ _ => .bind (blames_importField "package" ..) fun _ _ =>
          .bind (blames_importField "alias" ..) fun _ _ => .ok
    · exact .error
  | _ =>
    simp only [readModelType, hv]
    exact .error

theorem exists_modelTypeField (location : String) (h : Value.entriesAreJson fields = true) :
    (∃ m, modelTypeField location fields = .ok m) ↔ IfPresent "x-kcl-type" IsModelType fields := by
  rw [modelTypeField, IfPresent]
  cases hl : Value.lookup "x-kcl-type" fields with
  | none => simp
  | some value =>
    simp only [Option.some.injEq, forall_eq']
    rw [exists_map, exists_readModelType (Value.isJson_of_lookup h hl)]

theorem blames_modelTypeField (location : String) (fields : List (Value × Value)) :
    Blames location (modelTypeField location fields) := by
  unfold modelTypeField
  split
  · exact .ok
  · exact (blames_readModelType location _).map

theorem exists_readHead (location : String) (h : Value.entriesAreJson fields = true) :
    (∃ head, readHead location fields = .ok head) ↔
    IfPresent "x-kcl-type" IsModelType fields ∧ UnlessNull "type" IsText fields ∧
      UnlessNull "description" IsText fields := by
  rw [← exists_modelTypeField location h, ← exists_textField location,
    ← exists_textField location, readHead]
  simp only [exists_bind]
  constructor
  · rintro ⟨m, hm, type, htype, description, hdescription, -⟩
    exact ⟨⟨m, hm⟩, ⟨type, htype⟩, description, hdescription⟩
  · rintro ⟨⟨m, hm⟩, ⟨type, htype⟩, description, hdescription⟩
    exact ⟨m, hm, type, htype, description, hdescription, _, rfl⟩

theorem blames_readHead (location : String) (fields : List (Value × Value)) :
    Blames location (readHead location fields) :=
  .bind (blames_modelTypeField location fields) fun _ _ => .bind (blames_textField "type" location fields) fun _ _ =>
    .bind (blames_textField "description" location fields) fun _ _ => .ok

/-! ## Decorators -/

/-- A decorator has a name, and a list of arguments and a mapping of keywords if these are truthy. -/
def IsDecorator (value : Value) : Prop := ∃ fields name, value = .map fields ∧
  Value.lookup "name" fields = some (.str name) ∧
    IfTruthy "arguments" IsList fields ∧ IfTruthy "keywords" IsMapping fields

theorem readDecorator_map (location : String) (fields : List (Value × Value)) :
    readDecorator location (.map fields) = match field "name" fields with
      | .str name => do
        let arguments ← listField "arguments" (.node location (.malformedDecorator name)) fields
        let keywords ← mapField "keywords" (.node location (.malformedDecorator name)) fields
        return {
          name := name
          arguments := arguments.map Value.plain
          keywords := Assoc.ofList (keywords.map fun entry => (entry.1.plain, entry.2.plain)) }
      | _ => .error (.node location .decoratorWithoutName) := by
  have hunmarked : (Value.map fields).unmarked = .map fields := rfl
  simp only [readDecorator, hunmarked, listField, mapField]
  cases field "name" fields with
  | str name =>
    have hkeywords (f : List (Value × Value) → Except Error Decorator) :
        (if (field "keywords" fields).isTruthy = true then
          match (field "keywords" fields).unmarked with
          | .map keywords => .ok keywords >>= f
          | _ => .error (.node location (.malformedDecorator name)) >>= f
        else .ok [] >>= f) =
        (if (field "keywords" fields).isTruthy = true then
          match (field "keywords" fields).unmarked with
          | .map keywords => .ok keywords
          | _ => .error (.node location (.malformedDecorator name))
        else .ok []) >>= f := by
      by_cases htruthy : (field "keywords" fields).isTruthy = true
      · simp only [htruthy, ↓reduceIte]
        cases (field "keywords" fields).unmarked <;> rfl
      · simp only [htruthy, Bool.false_eq_true, ↓reduceIte]
    by_cases harguments : (field "arguments" fields).isTruthy = true
    · simp only [harguments, ↓reduceIte]
      cases (field "arguments" fields).unmarked with
      | list arguments => exact hkeywords _
      | _ => rfl
    · simp only [harguments, Bool.false_eq_true, ↓reduceIte]
      exact hkeywords _
  | _ => rfl

theorem exists_readDecorator (h : value.isJson = true) :
    (∃ d, readDecorator location value = .ok d) ↔ IsDecorator value := by
  cases value with
  | map fields =>
    rw [readDecorator_map]
    simp only [IsDecorator, Value.map.injEq, exists_and_left, exists_eq_left', ← field_eq_str]
    cases field "name" fields with
    | str name =>
      simp only [exists_bind, Value.str.injEq, exists_eq_left']
      rw [← exists_listField (.node location (.malformedDecorator name)) h,
        ← exists_mapField (.node location (.malformedDecorator name)) h]
      constructor
      · rintro ⟨arguments, harguments, keywords, hkeywords, -⟩
        exact ⟨⟨arguments, harguments⟩, keywords, hkeywords⟩
      · rintro ⟨⟨arguments, harguments⟩, keywords, hkeywords⟩
        exact ⟨arguments, harguments, keywords, hkeywords, _, rfl⟩
    | _ => simp
  | _ => simp [readDecorator, Value.unmarked_of_isJson h, IsDecorator]

theorem readDecorator_of_unmarked (h : value.unmarked = .map fields) :
    readDecorator location value = readDecorator location (.map fields) := by
  unfold readDecorator
  rw [h]
  rfl

theorem blames_readDecorator (location : String) (value : Value) : Blames location (readDecorator location value) := by
  cases hv : value.unmarked with
  | map fields =>
    rw [readDecorator_of_unmarked hv, readDecorator_map]
    split
    · exact .bind (blames_listField ..) fun _ _ => .bind (blames_mapField ..) fun _ _ => .ok
    · exact .error
  | _ =>
    simp only [readDecorator, hv]
    exact .error

theorem exists_readDecorators (location : String) (h : Value.entriesAreJson fields = true) :
    (∃ ds, readDecorators location fields = .ok ds) ↔ UnlessNull "x-kcl-decorators" (IsListOf IsDecorator) fields := by
  rw [unlessNull_iff, readDecorators, unmarked_field h]
  cases hf : field "x-kcl-decorators" fields with
  | list items =>
    have hitems := itemsAreJson_of_field h hf
    simp only [exists_mapM, IsListOf, ne_eq, reduceCtorEq, not_false_eq_true, forall_const, Value.list.injEq,
      exists_eq_left']
    exact forall₂_congr fun item hm => exists_readDecorator (Value.isJson_of_mem_items hitems hm)
  | _ => simp [IsListOf]

theorem blames_readDecorators (location : String) (fields : List (Value × Value)) :
    Blames location (readDecorators location fields) := by
  unfold readDecorators
  split
  · exact .ok
  · exact .mapM fun item _ => blames_readDecorator location item
  · exact .error

/-! ## Examples -/

theorem exists_readExample (h : Value.entriesAreJson fields = true) {entry : Value × Value} (hm : entry ∈ fields) :
    (∃ e, readExample location entry = .ok e) ↔ IsMapping entry.2 := by
  rw [readExample, Value.unmarked_of_isJson (Value.isJson_of_mem h hm)]
  cases entry.2 <;> simp [IsMapping]

theorem blames_readExample (location : String) (entry : Value × Value) :
    Blames location (readExample location entry) := by
  unfold readExample
  split
  · exact .ok
  · exact .error

/-- The names of examples are texts, so they have a common order. -/
theorem readExamples_map (location : String) (h : Value.entriesAreJson fields = true) {entries : List (Value × Value)}
    (hf : field "examples" fields = .map entries) :
    readExamples location fields = (Assoc.sortByName exampleName entries).mapM (readExample location) := by
  rw [readExamples, hf]
  simp only [Value.unmarked, sortExamples?_eq (distinct_of_isJson (entriesAreJson_of_field h hf))]

theorem exists_readExamples (location : String) (h : Value.entriesAreJson fields = true) :
    (∃ es, readExamples location fields = .ok es) ↔ UnlessNull "examples" (IsMappingOf IsMapping) fields := by
  rw [unlessNull_iff]
  cases hf : field "examples" fields with
  | map entries =>
    have hentries := entriesAreJson_of_field h hf
    rw [readExamples_map location h hf, exists_mapM]
    simp only [Assoc.mem_sortByName, IsMappingOf, ne_eq, reduceCtorEq, not_false_eq_true, forall_const,
      Value.map.injEq, exists_eq_left']
    exact forall₂_congr fun e he => exists_readExample hentries he
  | _ =>
    rw [readExamples, unmarked_field h, hf]
    simp [IsMappingOf]

/-- The names of the examples of a node have no common order. -/
def UnorderedExamples (fields : List (Value × Value)) : Prop :=
  ∃ entries, (field "examples" fields).unmarked = .map entries ∧ sortExamples? entries = none

/-- Examples whose names are texts have an order. -/
theorem not_unorderedExamples (h : Value.entriesAreJson fields = true) : ¬ UnorderedExamples fields := by
  rintro ⟨entries, hf, hnone⟩
  rw [unmarked_field h] at hf
  rw [sortExamples?_eq (distinct_of_isJson (entriesAreJson_of_field h hf))] at hnone
  cases hnone

theorem blames_readExamples (location : String) (h : ¬ UnorderedExamples fields) :
    Blames location (readExamples location fields) := by
  unfold readExamples
  split
  · exact .ok
  · rename_i hf
    split
    · exact .mapM fun e _ => blames_readExample location e
    · rename_i hnone
      exact absurd ⟨_, hf, hnone⟩ h
  · exact .error

/-! ## Required names and enumerated values -/

theorem exists_required (location : String) (h : Value.entriesAreJson fields = true) :
    (∃ names, required location fields = .ok names) ↔ IfTruthy "required" (IsListOf IsText) fields := by
  rw [ifTruthy_iff, required, unmarked_field h]
  by_cases htruthy : (field "required" fields).isTruthy = true
  · simp only [htruthy, Bool.not_true, Bool.false_eq_true, ↓reduceIte, forall_const]
    cases field "required" fields with
    | list items =>
      simp only [exists_map, exists_mapM, IsListOf, Value.list.injEq, exists_eq_left']
      refine forall₂_congr fun item _ => ?_
      cases item <;> simp [IsText]
    | _ => simp [IsListOf]
  · simp [htruthy]

theorem blames_required (location : String) (fields : List (Value × Value)) :
    Blames location (required location fields) := by
  unfold required
  dsimp only
  split
  · exact .ok
  · split
    · refine .map (.mapM fun item _ => ?_)
      split
      · exact .ok
      · exact .error
    · exact .error

theorem exists_enumerated (location : String) (h : Value.entriesAreJson fields = true) :
    (∃ values, enumerated location fields = .ok values) ↔ IfPresent "enum" IsList fields := by
  rw [enumerated, IfPresent]
  cases hl : Value.lookup "enum" fields with
  | none => simp
  | some value =>
    simp only [Value.unmarked_of_isJson (Value.isJson_of_lookup h hl), Option.some.injEq, forall_eq']
    cases value <;> simp [IsList]

theorem blames_enumerated (location : String) (fields : List (Value × Value)) :
    Blames location (enumerated location fields) := by
  unfold enumerated
  split
  · exact .ok
  · split
    · exact .ok
    · exact .error

/-! ## References -/

/-- A reference names a definition that there is. -/
theorem referenceName_ok {location : String} {defined : String → Bool} {reference : Value} {name : String} :
    referenceName defined location reference = .ok name ↔
      reference = .str (referenceStart ++ name) ∧ defined name = true := by
  unfold referenceName
  cases reference with
  | str s =>
    simp only [Value.str.injEq, ← Text.after?_eq_some]
    cases Text.after? referenceStart s with
    | none => simp
    | some found =>
      by_cases h : defined found = true
      · simp only [h, ↓reduceIte, Except.ok.injEq, Option.some.injEq]
        exact ⟨fun he => ⟨he, he ▸ h⟩, fun he => he.1⟩
      · simp only [h, Bool.false_eq_true, ↓reduceIte, reduceCtorEq, Option.some.injEq, false_iff, not_and]
        rintro rfl
        exact h
  | _ => simp

theorem exists_referenceName (location : String) {defined : String → Bool} {reference : Value} :
    (∃ name, referenceName defined location reference = .ok name) ↔
      ∃ name, reference = .str (referenceStart ++ name) ∧ defined name = true :=
  exists_congr fun _ => referenceName_ok

theorem blames_referenceName (defined : String → Bool) (location : String) (reference : Value) :
    Blames location (referenceName defined location reference) := by
  unfold referenceName
  split
  · split
    · split
      · exact .ok
      · exact .error
    · exact .error
  · exact .error

end Dump

end SchemaDocs
