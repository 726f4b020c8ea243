import SchemaDocs.Proofs.Describe
import SchemaDocs.Proofs.ExampleOrder

/-!
# Reordered dumps

Two dumps can differ in the order of the keys where a dump holds a mapping from names: of its definitions, and inside a
node of attributes and of examples. Everything else that is read stands as it is, and fields that are not read may hold
anything (`Reordered`). Such nodes describe the same schemas (`sameNode`), so the definitions of the one dump are
good when those of the other are (`allGood_iff`).
-/

namespace SchemaDocs.Dump

/-! ## The order of keys -/

/-- What a value stands for in a dump. -/
inductive Role where
  /-- Something that is read as it stands. -/
  | data
  | node
  /-- A mapping from names to nodes. -/
  | nodes
  /-- The members of a union. -/
  | members
  | examples
  /-- Something that is not read at all. -/
  | ignored
deriving DecidableEq

/-- What the fields of a node stand for. -/
def Role.ofField (name : String) : Role :=
  if name ∈ ["$ref", "x-kcl-type", "type", "description", "readOnly", "default", "required", "enum",
    "x-kcl-decorators"] then .data
  else if name ∈ ["items", "additionalProperties", "x-kcl-dict-key-type"] then .node
  else if name = "properties" then .nodes
  else if name = "x-kcl-union-types" then .members
  else if name = "examples" then .examples
  else .ignored

/-- What the fields of a document stand for. -/
def Role.ofSection (name : String) : Role :=
  if name = "definitions" then .nodes else if name = "info" then .data else .ignored

mutual

/-- Two values that stand for the same differ only in the order of the keys of mappings from names. -/
inductive Reordered : Role → Value → Value → Prop
  | same (role : Role) (value : Value) : Reordered role value value
  | ignored (value value' : Value) : Reordered .ignored value value'
  | node {entries entries' : List (Value × Value)} (fields : EntriesReordered Role.ofField entries entries') :
    Reordered .node (.map entries) (.map entries')
  | nodes {entries listed entries' : List (Value × Value)} (nodes : EntriesReordered (fun _ => .node) entries listed)
    (order : listed.Perm entries') : Reordered .nodes (.map entries) (.map entries')
  | members {items items' : List Value} (members : ItemsReordered items items') :
    Reordered .members (.list items) (.list items')
  | examples {entries entries' : List (Value × Value)} (order : entries.Perm entries') :
    Reordered .examples (.map entries) (.map entries')

/-- Two mappings with the same keys in the same order, in which the values under a key stand for `role`. -/
inductive EntriesReordered : (String → Role) → List (Value × Value) → List (Value × Value) → Prop
  | nil (role : String → Role) : EntriesReordered role [] []
  | cons {role : String → Role} {key : String} {value value' : Value} {rest rest' : List (Value × Value)}
    (head : Reordered (role key) value value') (tail : EntriesReordered role rest rest') :
    EntriesReordered role ((.str key, value) :: rest) ((.str key, value') :: rest')

/-- Two lists of nodes that are reordered one by one. -/
inductive ItemsReordered : List Value → List Value → Prop
  | nil : ItemsReordered [] []
  | cons {value value' : Value} {rest rest' : List Value} (head : Reordered .node value value')
    (tail : ItemsReordered rest rest') : ItemsReordered (value :: rest) (value' :: rest')

end

variable {role : String → Role} {entries entries' listed : List (Value × Value)} {v v' : Value}

theorem EntriesReordered.refl (role : String → Role) : ∀ {entries : List (Value × Value)},
    Value.entriesAreJson entries = true → EntriesReordered role entries entries
  | [], _ => .nil role
  | (key, _) :: rest, h => by
    obtain ⟨name, hname, -, -, hrest⟩ := Value.entriesAreJson_cons.1 h
    simp only at hname
    subst hname
    exact .cons (.same _ _) (.refl role hrest)

theorem ItemsReordered.refl (items : List Value) : ItemsReordered items items := by
  induction items with
  | nil => exact .nil
  | cons item rest ih => exact .cons (.same _ _) ih

/-- Under a name there is nothing in either mapping, or there are values that are reordered. -/
theorem EntriesReordered.lookup (name : String) : ∀ {entries entries' : List (Value × Value)},
    EntriesReordered role entries entries' →
      Value.lookup name entries = none ∧ Value.lookup name entries' = none ∨
      ∃ value value', Value.lookup name entries = some value ∧ Value.lookup name entries' = some value' ∧
        Reordered (role name) value value'
  | [], _, h => by
    cases h
    exact Or.inl ⟨rfl, rfl⟩
  | (key, value) :: rest, _, h => by
    cases h with
    | @cons _ key _ value' _ rest' head tail =>
      rw [Value.lookup, Value.lookup]
      by_cases hk : key = name
      · subst hk
        simp only [↓reduceIte]
        exact Or.inr ⟨value, value', rfl, rfl, head⟩
      · simp only [hk, ↓reduceIte]
        exact EntriesReordered.lookup name tail

theorem EntriesReordered.map_plain : ∀ {entries entries' : List (Value × Value)},
    EntriesReordered role entries entries' → (entries.map fun e => e.1.plain) = entries'.map fun e => e.1.plain
  | _, _, .nil _ => rfl
  | _, _, .cons _ tail => by
    rw [List.map_cons, List.map_cons, tail.map_plain]

/-- What is read as it stands is the same in both mappings. -/
theorem EntriesReordered.lookup_data (h : EntriesReordered role entries entries') (name : String)
    (hname : role name = .data) : Value.lookup name entries = Value.lookup name entries' := by
  rcases h.lookup name with ⟨h1, h2⟩ | ⟨value, value', h1, h2, hr⟩
  · rw [h1, h2]
  · rw [hname] at hr
    cases hr
    rw [h1, h2]

theorem Reordered.node_cases (h : Reordered .node v v') (hv : v.isJson = true) :
    (∃ entries entries', v = .map entries ∧ v' = .map entries' ∧ EntriesReordered Role.ofField entries entries') ∨
      v = v' ∧ ∀ entries, v ≠ .map entries := by
  cases h with
  | same _ v =>
    cases v with
    | map entries => exact Or.inl ⟨entries, entries, rfl, rfl, .refl _ hv⟩
    | _ => exact Or.inr ⟨rfl, by simp⟩
  | node fields => exact Or.inl ⟨_, _, rfl, rfl, fields⟩

theorem Reordered.nodes_cases (h : Reordered .nodes v v') (hv : v.isJson = true) :
    (∃ entries listed entries', v = .map entries ∧ v' = .map entries' ∧
      EntriesReordered (fun _ => .node) entries listed ∧ listed.Perm entries') ∨
      v = v' ∧ ∀ entries, v ≠ .map entries := by
  cases h with
  | same _ v =>
    cases v with
    | map entries => exact Or.inl ⟨entries, entries, entries, rfl, rfl, .refl _ hv, .refl _⟩
    | _ => exact Or.inr ⟨rfl, by simp⟩
  | nodes nodes order => exact Or.inl ⟨_, _, _, rfl, rfl, nodes, order⟩

theorem Reordered.members_cases (h : Reordered .members v v') :
    (∃ items items', v = .list items ∧ v' = .list items' ∧ ItemsReordered items items') ∨
      v = v' ∧ ∀ items, v ≠ .list items := by
  cases h with
  | same _ v =>
    cases v with
    | list items => exact Or.inl ⟨items, items, rfl, rfl, .refl _⟩
    | _ => exact Or.inr ⟨rfl, by simp⟩
  | members members => exact Or.inl ⟨_, _, rfl, rfl, members⟩

/-! ## What does not hold nodes -/

section Fields

variable (h : EntriesReordered Role.ofField entries entries') (location : String)
include h

theorem readHead_congr : readHead location entries = readHead location entries' := by
  simp only [readHead, modelTypeField, textField, field, h.lookup_data "x-kcl-type" (by decide),
    h.lookup_data "type" (by decide), h.lookup_data "description" (by decide), h.lookup_data "readOnly" (by decide),
    h.lookup_data "default" (by decide)]

theorem required_congr : required location entries = required location entries' := by
  unfold required field
  rw [h.lookup_data "required" (by decide)]

theorem enumerated_congr : enumerated location entries = enumerated location entries' := by
  simp only [enumerated, h.lookup_data "enum" (by decide)]

theorem readDecorators_congr : readDecorators location entries = readDecorators location entries' := by
  simp only [readDecorators, field, h.lookup_data "x-kcl-decorators" (by decide)]

theorem describeReference_congr {raw raw' : List (Value × Value)} (hdefined : isDefined raw = isDefined raw')
    (hmodel : modelTypeOf? raw = modelTypeOf? raw') (reference : Value) :
    describeReference raw location reference entries = describeReference raw' location reference entries' := by
  simp only [describeReference, hdefined, hmodel, textField, field, readDecorators_congr h,
    h.lookup_data "description" (by decide), h.lookup_data "readOnly" (by decide), h.lookup_data "default" (by decide)]

/-- The examples are read in the order of their names. -/
theorem readExamples_congr (hentries : Value.entriesAreJson entries = true) :
    readExamples location entries = readExamples location entries' := by
  unfold readExamples field
  rcases h.lookup "examples" with ⟨h1, h2⟩ | ⟨value, value', h1, h2, hr⟩
  · rw [h1, h2]
  · have hjson := Value.isJson_of_lookup hentries h1
    cases hr with
    | same => rw [h1, h2]
    | @examples es es' order =>
      have hd := distinct_of_isJson hjson
      simp only [h1, h2, Option.getD_some, Value.unmarked, sortExamples?_eq hd, sortExamples?_eq (hd.perm order),
        Assoc.sortByName_eq_of_perm exampleName order hd.nodup]

end Fields

/-! ## Descriptions -/

/-- Both descriptions give the same, or neither gives anything. -/
def SameOk {α : Type} (x y : Except Error α) : Prop := ∀ a, x = .ok a ↔ y = .ok a

namespace SameOk

variable {α β γ : Type} {x y : Except Error α} {x' y' : Except Error β}

theorem refl (x : Except Error α) : SameOk x x := fun _ => Iff.rfl

theorem trans {z : Except Error α} (h : SameOk x y) (h' : SameOk y z) : SameOk x z := fun a => (h a).trans (h' a)

theorem throw {e e' : Error} : SameOk (throw e : Except Error α) (throw e') := fun a => by
  simp [MonadExcept.throw, throwThe, MonadExceptOf.throw]

theorem map (f : α → β) (h : SameOk x y) : SameOk (f <$> x) (f <$> y) := fun b => by
  simp only [except_map_ok, h _]

theorem andThen (f : α → β → γ) (h : SameOk x y) (h' : SameOk x' y') :
    SameOk (x >>= fun a => x' >>= fun b => pure (f a b)) (y >>= fun a => y' >>= fun b => pure (f a b)) := fun c => by
  simp only [except_bind_ok, h _, h' _]

end SameOk

variable {raw raw' : List (Value × Value)}

def SameNode (raw raw' : List (Value × Value)) (v v' : Value) : Prop :=
  ∀ location, SameOk (describe raw v location) (describe raw' v' location)

theorem sameOk_readMembers (location : String) : ∀ {items items' : List Value} (index : Nat),
    ItemsReordered items items' → Value.itemsAreJson items = true → Value.itemsAreJson items' = true →
    (∀ v ∈ items, v.isJson = true → ∀ v', v'.isJson = true → Reordered .node v v' → SameNode raw raw' v v') →
    SameOk (RawFields.readMembers location index (items.map (describe raw)))
      (RawFields.readMembers location index (items'.map (describe raw')))
  | [], _, _, hr, _, _, _ => by
    cases hr
    exact .refl _
  | v :: rest, _, index, hr, hitems, hitems', h => by
    cases hr with
    | cons head tail =>
      simp only [Value.itemsAreJson, Bool.and_eq_true] at hitems hitems'
      simp only [List.map_cons, RawFields.readMembers]
      exact (h _ List.mem_cons_self hitems.1 _ hitems'.1 head _).andThen _
        (sameOk_readMembers location (index + 1) tail hitems.2 hitems'.2 fun v hv => h v (List.mem_cons_of_mem _ hv))

theorem sameOk_readAttributes (location : String) : ∀ {attributes listed : List (Value × Value)},
    EntriesReordered (fun _ => .node) attributes listed → Value.entriesAreJson attributes = true →
    Value.entriesAreJson listed = true →
    (∀ e ∈ attributes, e.2.isJson = true → ∀ v', v'.isJson = true → Reordered .node e.2 v' → SameNode raw raw' e.2 v') →
    SameOk (RawFields.readAttributes location (attributes.map fun e => (e.1, describe raw e.2)))
      (RawFields.readAttributes location (listed.map fun e => (e.1, describe raw' e.2)))
  | _, _, .nil _, _, _, _ => .refl _
  | _, _, .cons head tail, hattributes, hlisted, h => by
    obtain ⟨_, -, -, hv, hrest⟩ := Value.entriesAreJson_cons.1 hattributes
    obtain ⟨_, -, -, hv', hrest'⟩ := Value.entriesAreJson_cons.1 hlisted
    simp only [List.map_cons, RawFields.readAttributes]
    exact (h _ List.mem_cons_self hv _ hv' head _).andThen _
      (sameOk_readAttributes location tail hrest hrest' fun e he => h e (List.mem_cons_of_mem _ he))

/-- Attributes in another order describe the same schemas, in another order. -/
theorem readAttributes_perm (location : String) {readers readers' : List (Value × (String → Except Error Schema))}
    (hp : readers.Perm readers') : ∀ {schemas : List (String × Schema)},
      RawFields.readAttributes location readers = .ok schemas →
      ∃ schemas', RawFields.readAttributes location readers' = .ok schemas' ∧ schemas.Perm schemas' := by
  induction hp with
  | nil => exact fun h => ⟨_, h, .refl _⟩
  | cons e _ ih =>
    intro schemas h
    simp only [RawFields.readAttributes, except_bind_ok] at h
    obtain ⟨s, hs, rest, hrest, h⟩ := h
    cases h
    obtain ⟨rest', hrest', hp⟩ := ih hrest
    exact ⟨_, by simp only [RawFields.readAttributes, hs, hrest']; rfl, hp.cons _⟩
  | swap e f _ =>
    intro schemas h
    simp only [RawFields.readAttributes, except_bind_ok] at h
    obtain ⟨s, hs, _, ⟨t, ht, rest, hrest, hinner⟩, h⟩ := h
    cases hinner
    cases h
    exact ⟨_, by simp only [RawFields.readAttributes, hs, ht, hrest]; rfl, .swap _ _ _⟩
  | trans _ _ ih ih' =>
    intro schemas h
    obtain ⟨schemas1, h1, hp1⟩ := ih h
    obtain ⟨schemas2, h2, hp2⟩ := ih' h1
    exact ⟨schemas2, h2, hp1.trans hp2⟩

/-- Attributes in another order are put into one order. -/
theorem listed_of_perm (location : String) (order : entries.Perm entries') (hentries : Value.entriesAreJson entries = true)
    {schemas : List (String × Schema)} (h : (Assoc.sortByName (·.1) <$> Assoc.ofList <$>
      RawFields.readAttributes location (entries.map fun e => (e.1, describe raw e.2))) = .ok schemas) :
    (Assoc.sortByName (·.1) <$> Assoc.ofList <$>
      RawFields.readAttributes location (entries'.map fun e => (e.1, describe raw e.2))) = .ok schemas := by
  obtain ⟨_, hlist, rfl⟩ := except_map_ok.1 h
  obtain ⟨bs, hbs, rfl⟩ := except_map_ok.1 hlist
  obtain ⟨bs', hbs', hperm⟩ := readAttributes_perm location (order.map _) hbs
  have hnodup : (bs.map (·.1)).Nodup := by
    rw [names_readAttributes hbs]
    exact Value.nodup_plain hentries
  have hnodup' := (hperm.map (·.1)).nodup_iff.1 hnodup
  refine except_map_ok.2 ⟨_, except_map_ok.2 ⟨_, hbs', rfl⟩, ?_⟩
  rw [Assoc.ofList_of_nodup hnodup, Assoc.ofList_of_nodup hnodup']
  exact (Assoc.sortByName_eq_of_perm _ hperm hnodup).symm

theorem sameOk_listed (location : String) (order : listed.Perm entries')
    (hlisted : Value.entriesAreJson listed = true) :
    SameOk (Assoc.sortByName (·.1) <$> Assoc.ofList <$>
        RawFields.readAttributes location (listed.map fun e => (e.1, describe raw e.2)))
      (Assoc.sortByName (·.1) <$> Assoc.ofList <$>
        RawFields.readAttributes location (entries'.map fun e => (e.1, describe raw e.2))) := by
  refine fun schemas => ⟨listed_of_perm location order hlisted, ?_⟩
  exact listed_of_perm location order.symm (Value.entriesAreJson_of_perm order hlisted)

section Nodes

variable (hentries : Value.entriesAreJson entries = true) (hentries' : Value.entriesAreJson entries' = true)
  (h : EntriesReordered Role.ofField entries entries')
  (below : ∀ v, sizeOf v < sizeOf (Value.map entries) → v.isJson = true → ∀ v', v'.isJson = true →
    Reordered .node v v' → SameNode raw raw' v v')
include hentries hentries' h below

theorem sameOk_node? (name : String) (hname : Role.ofField name = .node) (location : String) :
    SameOk (RawFields.node? name location (rawFields (describeMapping raw) [] entries))
      (RawFields.node? name location (rawFields (describeMapping raw') [] entries')) := by
  rw [RawFields.node?_rawFields, RawFields.node?_rawFields]
  rcases h.lookup name with ⟨h1, h2⟩ | ⟨v, v', h1, h2, hr⟩
  · rw [h1, h2]
    exact .refl _
  · rw [h1, h2]
    rw [hname] at hr
    exact (below v (Value.sizeOf_lt_of_lookup h1) (Value.isJson_of_lookup hentries h1) v'
      (Value.isJson_of_lookup hentries' h2) hr location).map some

theorem sameOk_additional (location : String) :
    SameOk (RawFields.additional location (rawFields (describeMapping raw) [] entries))
      (RawFields.additional location (rawFields (describeMapping raw') [] entries')) := by
  rw [RawFields.additional_rawFields _ hentries, RawFields.additional_rawFields _ hentries']
  rcases h.lookup "additionalProperties" with ⟨h1, h2⟩ | ⟨v, v', h1, h2, hr⟩
  · rw [h1, h2]
    exact .refl _
  · have hv := Value.isJson_of_lookup hentries h1
    have hsame := below v (Value.sizeOf_lt_of_lookup h1) hv v' (Value.isJson_of_lookup hentries' h2) hr
    rw [h1, h2]
    rcases Reordered.node_cases hr hv with ⟨_, _, rfl, rfl, -⟩ | ⟨rfl, hnot⟩
    · exact (hsame _).map some
    · cases v with
      | map fields => exact absurd rfl (hnot fields)
      | _ => exact .refl _

theorem sameOk_members (location : String) :
    SameOk (RawFields.members location (rawFields (describeMapping raw) [] entries))
      (RawFields.members location (rawFields (describeMapping raw') [] entries')) := by
  rw [RawFields.members_rawFields _ hentries, RawFields.members_rawFields _ hentries']
  rcases h.lookup "x-kcl-union-types" with ⟨h1, h2⟩ | ⟨v, v', h1, h2, hr⟩
  · rw [h1, h2]
    exact .refl _
  · have hv := Value.isJson_of_lookup hentries h1
    have hv' := Value.isJson_of_lookup hentries' h2
    rw [h1, h2]
    dsimp only
    rcases Reordered.members_cases hr with ⟨items, items', rfl, rfl, hitems⟩ | ⟨rfl, hnot⟩
    · have hempty : (Value.list items').isTruthy = (Value.list items).isTruthy := by
        cases hitems <;> rfl
      rw [hempty]
      split
      · exact .refl _
      · refine sameOk_readMembers location 0 hitems hv hv' fun v hm => below v ?_
        exact Nat.lt_trans (Value.sizeOf_lt_of_mem_items hm) (Value.sizeOf_lt_of_lookup h1)
    · split
      · exact .refl _
      · cases v with
        | list items => exact absurd rfl (hnot items)
        | _ => exact .throw

theorem sameOk_properties (location : String) :
    SameOk (Assoc.sortByName (·.1) <$> RawFields.properties location (rawFields (describeMapping raw) [] entries))
      (Assoc.sortByName (·.1) <$> RawFields.properties location (rawFields (describeMapping raw') [] entries')) := by
  rw [RawFields.properties_rawFields _ hentries, RawFields.properties_rawFields _ hentries']
  rcases h.lookup "properties" with ⟨h1, h2⟩ | ⟨v, v', h1, h2, hr⟩
  · rw [h1, h2]
    exact .refl _
  · have hv := Value.isJson_of_lookup hentries h1
    have hv' := Value.isJson_of_lookup hentries' h2
    rw [h1, h2]
    dsimp only
    rcases Reordered.nodes_cases hr hv with ⟨attributes, listed, attributes', rfl, rfl, hnodes, order⟩ | ⟨rfl, hnot⟩
    · have hempty : (Value.map attributes').isTruthy = (Value.map attributes).isTruthy := by
        rw [Value.isTruthy, Value.isTruthy, ← order.isEmpty_eq]
        cases hnodes <;> rfl
      rw [hempty]
      split
      · exact .refl _
      · have hlisted := Value.entriesAreJson_of_perm order.symm hv'
        have hsame := sameOk_readAttributes location hnodes hv hlisted fun e he => below e.2
          (Nat.lt_trans (Value.sizeOf_lt_of_mem he) (Value.sizeOf_lt_of_lookup h1))
        exact ((hsame.map Assoc.ofList).map _).trans (sameOk_listed location order hlisted)
    · split
      · exact .refl _
      · cases v with
        | map fields => exact absurd rfl (hnot fields)
        | _ => exact .throw

/-- The fields of reordered nodes describe the same schema. -/
theorem sameOk_describeFields (location : String) :
    SameOk (describeFields location (rawFields (describeMapping raw) [] entries))
      (describeFields location (rawFields (describeMapping raw') [] entries')) := fun o => by
  simp only [describeFields, except_bind_ok, RawFields.values_rawFields, readHead_congr h, required_congr h,
    enumerated_congr h, readDecorators_congr h, readExamples_congr h _ hentries,
    sameOk_properties hentries hentries' h below location _, sameOk_additional hentries hentries' h below location _,
    sameOk_node? hentries hentries' h below "items" (by decide) _ _,
    sameOk_node? hentries hentries' h below "x-kcl-dict-key-type" (by decide) _ _,
    sameOk_members hentries hentries' h below location _]

end Nodes

/-- **Reordered nodes describe the same schema**, when the definitions have the same names and model types. -/
theorem sameNode (hdefined : isDefined raw = isDefined raw') (hmodel : modelTypeOf? raw = modelTypeOf? raw') (v : Value)
    (hv : v.isJson = true) (v' : Value) (hv' : v'.isJson = true) (h : Reordered .node v v') : SameNode raw raw' v v' := by
  intro location
  rcases Reordered.node_cases h hv with ⟨entries, entries', rfl, rfl, hfields⟩ | ⟨rfl, hnot⟩
  · have hbelow : ∀ u, sizeOf u < sizeOf (Value.map entries) → u.isJson = true → ∀ u', u'.isJson = true →
        Reordered .node u u' → SameNode raw raw' u u' := fun u _ hu u' hu' => sameNode hdefined hmodel u hu u' hu'
    show SameOk (describeMapping raw (rawFields (describeMapping raw) [] entries) location)
      (describeMapping raw' (rawFields (describeMapping raw') [] entries') location)
    rw [describeMapping, describeMapping, RawFields.values_rawFields, RawFields.values_rawFields, field, field,
      hfields.lookup_data "$ref" (by decide)]
    split
    · exact sameOk_describeFields hv hv' hfields hbelow location
    · rw [describeReference_congr hfields location hdefined hmodel]
      exact .refl _
  · cases v with
    | map entries => exact absurd rfl (hnot entries)
    | knot mark inner => simp [Value.isJson] at hv
    | _ => exact .refl _
termination_by sizeOf v

/-! ## Definitions -/

/-- Two dumps have no definition with this name, or definitions that describe the same schema, or the same value that
describes nothing. -/
inductive SameDefinition (raw raw' : List (Value × Value)) (name : String) : Prop
  | absent (left : Value.lookup name raw = none) (right : Value.lookup name raw' = none)
  | described {fields fields' : List (Value × Value)} (left : Value.lookup name raw = some (.map fields))
    (right : Value.lookup name raw' = some (.map fields'))
    (same : SameOk (describeDefinition raw name fields) (describeDefinition raw' name fields'))
  | unread {value : Value} (left : Value.lookup name raw = some value) (right : Value.lookup name raw' = some value)
    (not : ∀ fields, value ≠ .map fields)

theorem SameDefinition.symm {name : String} (h : SameDefinition raw raw' name) : SameDefinition raw' raw name := by
  cases h with
  | absent left right => exact .absent right left
  | described left right same => exact .described right left fun o => (same o).symm
  | unread left right not => exact .unread right left not

theorem SameDefinition.sameOk {name : String} {fields fields' : List (Value × Value)}
    (h : SameDefinition raw raw' name) (hl : Value.lookup name raw = some (.map fields))
    (hl' : Value.lookup name raw' = some (.map fields')) :
    SameOk (describeDefinition raw name fields) (describeDefinition raw' name fields') := by
  cases h with
  | absent left _ => simp [left] at hl
  | described left right same =>
    cases left.symm.trans hl
    cases right.symm.trans hl'
    exact same
  | unread left _ not =>
    cases left.symm.trans hl
    exact absurd rfl (not fields)

theorem AllGood.of_same (hgood : AllGood raw) (h : ∀ name, SameDefinition raw raw' name) : AllGood raw' := by
  intro name value hl
  cases h name with
  | absent _ right => simp [right] at hl
  | @described fields fields' left right same =>
    obtain ⟨_, o, he, ho, hrest⟩ := hgood name _ left
    cases he
    exact ⟨fields', o, Option.some_inj.1 (hl.symm.trans right), (same o).1 ho, hrest⟩
  | unread left _ not =>
    obtain ⟨fields, _, he, -⟩ := hgood name _ left
    exact absurd he (not fields)

structure DefinitionsReordered (raw raw' : List (Value × Value)) : Prop where
  isJson : Value.entriesAreJson raw = true
  isJson' : Value.entriesAreJson raw' = true
  reordered : ∃ listed, EntriesReordered (fun _ => .node) raw listed ∧ listed.Perm raw'

namespace DefinitionsReordered

variable (h : DefinitionsReordered raw raw')
include h

theorem lookup (name : String) : Value.lookup name raw = none ∧ Value.lookup name raw' = none ∨
    ∃ value value', Value.lookup name raw = some value ∧ Value.lookup name raw' = some value' ∧
      Reordered .node value value' := by
  obtain ⟨listed, hentries, order⟩ := h.reordered
  rw [← Value.lookup_of_perm order (Value.entriesAreJson_of_perm order.symm h.isJson')]
  exact hentries.lookup name

theorem isDefined_eq : isDefined raw = isDefined raw' := by
  funext name
  rw [isDefined, isDefined]
  rcases h.lookup name with ⟨h1, h2⟩ | ⟨value, value', h1, h2, -⟩
  · rw [h1, h2]
  · rw [h1, h2]
    rfl

theorem modelTypeOf?_eq : modelTypeOf? raw = modelTypeOf? raw' := by
  funext name
  rw [modelTypeOf?, modelTypeOf?]
  rcases h.lookup name with ⟨h1, h2⟩ | ⟨value, value', h1, h2, hr⟩
  · rw [h1, h2]
  · rw [h1, h2]
    rcases hr.node_cases (Value.isJson_of_lookup h.isJson h1) with ⟨entries, entries', rfl, rfl, hfields⟩ | ⟨rfl, -⟩
    · simp only [modelTypeField, hfields.lookup_data "x-kcl-type" (by decide)]
    · rfl

/-- **The definitions with one name describe the same schema.** -/
theorem definition (name : String) : SameDefinition raw raw' name := by
  rcases h.lookup name with ⟨h1, h2⟩ | ⟨value, value', h1, h2, hr⟩
  · exact .absent h1 h2
  · have hv := Value.isJson_of_lookup h.isJson h1
    have hv' := Value.isJson_of_lookup h.isJson' h2
    rcases hr.node_cases hv with ⟨entries, entries', rfl, rfl, hfields⟩ | ⟨rfl, hnot⟩
    · exact .described h1 h2 (sameOk_describeFields hv hv' hfields
        (fun v _ hv v' hv' => sameNode h.isDefined_eq h.modelTypeOf?_eq v hv v' hv') name)
    · exact .unread h1 h2 hnot

/-- **The definitions of the one dump are good when those of the other are.** -/
theorem allGood_iff : AllGood raw ↔ AllGood raw' :=
  ⟨fun hgood => hgood.of_same h.definition, fun hgood => hgood.of_same fun name => (h.definition name).symm⟩

/-- The definitions have the same names. -/
theorem keysOf_perm : (keysOf raw).Perm (keysOf raw') := by
  obtain ⟨listed, hentries, order⟩ := h.reordered
  rw [keysOf, hentries.map_plain]
  exact order.map _

end DefinitionsReordered

end SchemaDocs.Dump
