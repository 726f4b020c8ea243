import SchemaDocs.Dump.Definitions
import SchemaDocs.Proofs.Table

/-!
# Values of JSON documents

A value of a JSON document holds no days, sets or knots, and its mappings have distinct texts as keys. For such
values the readers of a raw node are those of its fields, whatever the readers may do: a node in a field is read like
the value that the field holds (`node?_rawFields`), and the attributes of a node one after another
(`properties_rawFields`).
-/

namespace SchemaDocs

namespace Value

mutual

def isJson : Value → Bool
  | .null | .bool _ | .int _ | .float _ | .str _ => true
  | .list items => itemsAreJson items
  | .map entries => entriesAreJson entries
  | .date _ | .timestamp _ | .bytes _ | .set _ | .pair _ _ | .knot _ _ => false
termination_by structural value => value

def itemsAreJson : List Value → Bool
  | [] => true
  | value :: rest => value.isJson && itemsAreJson rest
termination_by structural items => items

/-- The entries have distinct texts as keys, and all values can stand in a JSON document. -/
def entriesAreJson : List (Value × Value) → Bool
  | [] => true
  | (.str name, value) :: rest => (lookup name rest).isNone && value.isJson && entriesAreJson rest
  | (_, _) :: _ => false
termination_by structural entries => entries

end

/-! ## Entries -/

theorem lookup_eq_none_iff {name : String} : ∀ {entries : List (Value × Value)},
    lookup name entries = none ↔ ∀ value, (.str name, value) ∉ entries
  | [] => by simp [lookup]
  | (key, value) :: rest => by
    cases key with
    | str k =>
      rw [lookup]
      split
      · rename_i h
        subst h
        simp only [reduceCtorEq, false_iff]
        exact fun h => h value List.mem_cons_self
      · rename_i h
        rw [lookup_eq_none_iff]
        simp [Ne.symm h]
    | _ => simp [lookup, lookup_eq_none_iff]

theorem mem_of_lookup {name : String} {value : Value} : ∀ {entries : List (Value × Value)},
    lookup name entries = some value → (.str name, value) ∈ entries
  | (key, v) :: rest, h => by
    cases key with
    | str k =>
      rw [lookup] at h
      split at h
      · rename_i hk
        rw [hk, Option.some_inj.1 h]
        exact List.mem_cons_self
      · exact List.mem_cons_of_mem _ (mem_of_lookup h)
    | _ => exact List.mem_cons_of_mem _ (mem_of_lookup h)

theorem lookup_append (name : String) : ∀ front back : List (Value × Value),
    lookup name (front ++ back) = (lookup name front).or (lookup name back)
  | [], back => by simp [lookup]
  | (key, value) :: front, back => by
    cases key with
    | str k =>
      rw [List.cons_append, lookup, lookup, lookup_append]
      split
      · rfl
      · rfl
    | _ => exact lookup_append name front back

theorem entriesAreJson_cons {entry : Value × Value} {rest : List (Value × Value)} :
    entriesAreJson (entry :: rest) = true ↔ ∃ name, entry.1 = .str name ∧ lookup name rest = none ∧
      entry.2.isJson = true ∧ entriesAreJson rest = true := by
  obtain ⟨key, value⟩ := entry
  cases key with
  | str name => simp [entriesAreJson, and_assoc]
  | _ => simp [entriesAreJson]

/-- The keys of a JSON mapping are texts. -/
theorem exists_name {entry : Value × Value} : ∀ {entries : List (Value × Value)}, entriesAreJson entries = true →
    entry ∈ entries → ∃ name, entry.1 = .str name ∧ lookup name entries = some entry.2
  | e :: rest, h, hm => by
    obtain ⟨name, hname, hnone, -, hrest⟩ := entriesAreJson_cons.1 h
    obtain ⟨key, value⟩ := e
    simp only at hname
    subst hname
    rcases List.mem_cons.1 hm with rfl | hm
    · exact ⟨name, rfl, by simp [lookup]⟩
    · obtain ⟨n, hn, hl⟩ := exists_name hrest hm
      refine ⟨n, hn, ?_⟩
      rw [lookup, if_neg]
      · exact hl
      · rintro rfl
        rw [hl] at hnone
        simp at hnone

theorem lookup_eq_some_iff {entries : List (Value × Value)} (h : entriesAreJson entries = true) {name : String}
    {value : Value} : lookup name entries = some value ↔ (.str name, value) ∈ entries := by
  refine ⟨mem_of_lookup, fun hm => ?_⟩
  obtain ⟨n, hn, hl⟩ := exists_name h hm
  cases hn
  exact hl

theorem isJson_of_mem {entry : Value × Value} : ∀ {entries : List (Value × Value)}, entriesAreJson entries = true →
    entry ∈ entries → entry.2.isJson = true
  | e :: rest, h, hm => by
    obtain ⟨-, -, -, hvalue, hrest⟩ := entriesAreJson_cons.1 h
    rcases List.mem_cons.1 hm with rfl | hm
    · exact hvalue
    · exact isJson_of_mem hrest hm

theorem isJson_of_lookup {entries : List (Value × Value)} (h : entriesAreJson entries = true) {name : String}
    {value : Value} (hl : lookup name entries = some value) : value.isJson = true :=
  isJson_of_mem h (mem_of_lookup hl)

theorem isJson_of_mem_items {value : Value} : ∀ {items : List Value}, itemsAreJson items = true → value ∈ items →
    value.isJson = true
  | v :: rest, h, hm => by
    simp only [itemsAreJson, Bool.and_eq_true] at h
    rcases List.mem_cons.1 hm with rfl | hm
    · exact h.1
    · exact isJson_of_mem_items h.2 hm

/-- A JSON value is no knot. -/
theorem unmarked_of_isJson {value : Value} (h : value.isJson = true) : value.unmarked = value := by
  cases value with
  | knot mark inner => simp [isJson] at h
  | _ => rfl

/-- The names of a JSON mapping are distinct. -/
theorem nodup_plain : ∀ {entries : List (Value × Value)}, entriesAreJson entries = true →
    (entries.map fun e => e.1.plain).Nodup
  | [], _ => List.nodup_nil
  | e :: rest, h => by
    obtain ⟨name, hname, hnone, -, hrest⟩ := entriesAreJson_cons.1 h
    rw [List.map_cons, List.nodup_cons]
    refine ⟨fun hm => ?_, nodup_plain hrest⟩
    obtain ⟨e', he', hplain⟩ := List.mem_map.1 hm
    obtain ⟨n, hn, hl⟩ := exists_name hrest he'
    rw [hname, hn] at hplain
    have hsame : n = name := hplain
    rw [hsame, hnone] at hl
    simp at hl

theorem entriesAreJson_iff : ∀ {entries : List (Value × Value)}, entriesAreJson entries = true ↔
    (∀ e ∈ entries, e.1.isStr = true ∧ e.2.isJson = true) ∧ (entries.map fun e => e.1.plain).Nodup
  | [] => by simp [entriesAreJson]
  | e :: rest => by
    constructor
    · refine fun h => ⟨fun e' he' => ⟨?_, isJson_of_mem h he'⟩, nodup_plain h⟩
      obtain ⟨name, hname, -⟩ := exists_name h he'
      rw [hname]
      rfl
    · rintro ⟨hall, hnodup⟩
      rw [List.map_cons, List.nodup_cons] at hnodup
      obtain ⟨key, value⟩ := e
      obtain ⟨hstr, hvalue⟩ := hall _ List.mem_cons_self
      cases key with
      | str name =>
        refine entriesAreJson_cons.2 ⟨name, rfl, ?_, hvalue,
          entriesAreJson_iff.2 ⟨fun e he => hall e (List.mem_cons_of_mem _ he), hnodup.2⟩⟩
        rw [lookup_eq_none_iff]
        exact fun v hv => hnodup.1 (List.mem_map.2 ⟨_, hv, rfl⟩)
      | _ => simp [isStr] at hstr

/-- The order of its entries does not matter to whether a mapping can stand in a JSON document. -/
theorem entriesAreJson_of_perm {entries entries' : List (Value × Value)} (hp : entries.Perm entries')
    (h : entriesAreJson entries = true) : entriesAreJson entries' = true := by
  obtain ⟨hall, hnodup⟩ := entriesAreJson_iff.1 h
  exact entriesAreJson_iff.2 ⟨fun e he => hall e (hp.mem_iff.2 he), (hp.map _).nodup_iff.1 hnodup⟩

/-- Nor does it matter to what is found under a name. -/
theorem lookup_of_perm {entries entries' : List (Value × Value)} (hp : entries.Perm entries')
    (h : entriesAreJson entries = true) (name : String) : lookup name entries = lookup name entries' := by
  refine Option.ext fun value => ?_
  rw [lookup_eq_some_iff h, lookup_eq_some_iff (entriesAreJson_of_perm hp h)]
  exact hp.mem_iff

/-! ## Sizes -/

theorem sizeOf_lt_of_mem {entry : Value × Value} {entries : List (Value × Value)} (h : entry ∈ entries) :
    sizeOf entry.2 < sizeOf (Value.map entries) := by
  have := List.sizeOf_lt_of_mem h
  obtain ⟨key, value⟩ := entry
  simp only [Prod.mk.sizeOf_spec, Value.map.sizeOf_spec] at this ⊢
  omega

theorem sizeOf_lt_of_lookup {name : String} {value : Value} {entries : List (Value × Value)}
    (h : lookup name entries = some value) : sizeOf value < sizeOf (Value.map entries) :=
  sizeOf_lt_of_mem (mem_of_lookup h)

theorem sizeOf_lt_of_mem_items {value : Value} {items : List Value} (h : value ∈ items) :
    sizeOf value < sizeOf (Value.list items) := by
  have := List.sizeOf_lt_of_mem h
  simp only [Value.list.sizeOf_spec]
  omega

end Value

namespace Dump

variable {m : Type → Type} [Monad m] [MonadExceptOf Error m] (readMapping : RawFields m → String → m Schema)

def nodeReader (value : Value) (location : String) : m Schema :=
  (rawNodeWithin readMapping [] [] value).read location

omit [Monad m] in
theorem rawFields_eq : ∀ entries : List (Value × Value),
    rawFields readMapping [] entries = entries.map fun e => (e.1, rawNodeWithin readMapping [] [] e.2)
  | [] => rfl
  | (key, value) :: rest => by rw [rawFields, rawFields_eq rest]; rfl

omit [Monad m] in
theorem rawItems_eq : ∀ items : List Value, rawItems readMapping [] items = items.map (rawNodeWithin readMapping [] [])
  | [] => rfl
  | value :: rest => by rw [rawItems, rawItems_eq rest]; rfl

omit [Monad m] in
theorem value_rawNodeWithin (value : Value) : (rawNodeWithin readMapping [] [] value).value = value := by
  cases value <;> rfl

namespace RawFields

omit [Monad m] in
@[simp] theorem values_rawFields (entries : List (Value × Value)) :
    (rawFields readMapping [] entries).values = entries := by
  rw [rawFields_eq, values, List.map_map]
  simp [Function.comp_def, value_rawNodeWithin]

omit [Monad m] in
theorem find?_rawFields (name : String) : ∀ entries : List (Value × Value),
    find? name (rawFields readMapping [] entries) =
      (Value.lookup name entries).map (rawNodeWithin readMapping [] [])
  | [] => rfl
  | (key, value) :: rest => by
    have ih := find?_rawFields name rest
    cases key with
    | str k =>
      rw [rawFields, find?, Value.lookup, ih]
      split <;> rfl
    | _ => simpa [rawFields, find?, Value.lookup] using ih

/-- A node in a field is read like the value of the field. -/
theorem node?_rawFields (name location : String) (entries : List (Value × Value)) :
    node? name location (rawFields readMapping [] entries) =
      match Value.lookup name entries with
      | none => pure none
      | some value => some <$> nodeReader readMapping value location := by
  rw [node?, find?_rawFields]
  cases Value.lookup name entries <;> rfl

theorem additional_rawFields {entries : List (Value × Value)} (h : Value.entriesAreJson entries = true)
    (location : String) : additional location (rawFields readMapping [] entries) =
      match Value.lookup "additionalProperties" entries with
      | some (.map fields) => some <$> nodeReader readMapping (.map fields) (location ++ "[value]")
      | _ => pure none := by
  rw [additional, find?_rawFields]
  cases hl : Value.lookup "additionalProperties" entries with
  | none => rfl
  | some value =>
    have hjson := Value.isJson_of_lookup h hl
    cases value with
    | knot mark inner => simp [Value.isJson] at hjson
    | _ => rfl

/-- The attributes of a node are read one after another. -/
theorem properties_rawFields {entries : List (Value × Value)} (h : Value.entriesAreJson entries = true)
    (location : String) : properties location (rawFields readMapping [] entries) =
      match Value.lookup "properties" entries with
      | none => pure []
      | some value =>
        if !value.isTruthy then pure []
        else match value with
          | .map attributes => Assoc.ofList <$> readAttributes location
              (attributes.map fun e => (e.1, nodeReader readMapping e.2))
          | _ => throw (.node location .propertiesNotMapping) := by
  rw [properties, find?_rawFields]
  cases hl : Value.lookup "properties" entries with
  | none => rfl
  | some value =>
    have hjson := Value.isJson_of_lookup h hl
    simp only [Option.map_some, value_rawNodeWithin]
    split
    · rfl
    · cases value with
      | map attributes =>
        simp only [Value.unmarked, rawNodeWithin, rawFields_eq, List.map_map, Function.comp_def]
        rfl
      | knot mark inner => simp [Value.isJson] at hjson
      | _ => rfl

theorem members_rawFields {entries : List (Value × Value)} (h : Value.entriesAreJson entries = true)
    (location : String) : members location (rawFields readMapping [] entries) =
      match Value.lookup "x-kcl-union-types" entries with
      | none => pure []
      | some value =>
        if !value.isTruthy then pure []
        else match value with
          | .list items => readMembers location 0 (items.map (nodeReader readMapping))
          | _ => throw (.node location .membersNotList) := by
  rw [members, find?_rawFields]
  cases hl : Value.lookup "x-kcl-union-types" entries with
  | none => rfl
  | some value =>
    have hjson := Value.isJson_of_lookup h hl
    simp only [Option.map_some, value_rawNodeWithin]
    split
    · rfl
    · cases value with
      | list items =>
        simp only [Value.unmarked, rawNodeWithin, rawItems_eq, List.map_map, Function.comp_def]
        rfl
      | knot mark inner => simp [Value.isJson] at hjson
      | _ => rfl

end RawFields

end Dump

end SchemaDocs
