import SchemaDocs.Proofs.Keys
import SchemaDocs.Proofs.Outline

/-!
# What schemas mirror

The schema of a raw node mirrors the node: what it states about itself is written there, its parts mirror the nodes that
stand in it, and of a definition that it refers to it has the model type (`Mirrors`). Nothing else of what is told about
the schema is left open: not by where the node stands, nor by how much of other definitions was known when it was read.
So two schemas that mirror one node tell the same (`Mirrors.told_eq`), also if they come from two dumps, as long as the
definitions of the one are among those of the other (`outline_eq_of_accepted`).
-/

namespace SchemaDocs.Dump

variable {raw raw' fields : List (Value × Value)} {value : Value} {s s' : Schema} {key name : String}

/-! ## Locations

The location of a node is named in the errors about it. What is read does not depend on it. -/

/-- What is read at one location is read at every other one. -/
def Unlocated {α : Type} (x : String → Except Error α) : Prop :=
  ∀ location location' a, x location = .ok a → x location' = .ok a

namespace Unlocated

variable {α β : Type} {x : String → Except Error α}

theorem const (x : Except Error α) : Unlocated fun _ => x := fun _ _ _ => id

theorem error (e : String → Error) : Unlocated (fun location => .error (e location) : String → Except Error α) :=
  fun _ _ _ h => by cases h

theorem bind {f : String → α → Except Error β} (hx : Unlocated x) (hf : ∀ a, Unlocated fun location => f location a) :
    Unlocated fun location => x location >>= f location := by
  intro location location' b h
  obtain ⟨a, ha, hb⟩ := except_bind_ok.1 h
  exact except_bind_ok.2 ⟨a, hx location location' a ha, hf a location location' b hb⟩

theorem map (f : α → β) (hx : Unlocated x) : Unlocated fun location => f <$> x location := by
  intro location location' b h
  obtain ⟨a, ha, hb⟩ := except_map_ok.1 h
  exact except_map_ok.2 ⟨a, hx location location' a ha, hb⟩

theorem mapM {f : String → β → Except Error α} (hf : ∀ b, Unlocated fun location => f location b) :
    ∀ l : List β, Unlocated fun location => l.mapM (f location)
  | [] => .const _
  | b :: rest => by
    simp only [List.mapM_cons]
    exact .bind (hf b) fun _ => .bind (mapM hf rest) fun _ => .const _

/-- Of two readings at any locations the results are the same. -/
theorem unique (hx : Unlocated x) {location location' : String} {a a' : α} (h : x location = .ok a)
    (h' : x location' = .ok a') : a = a' := by
  rw [hx location location' a h] at h'
  exact Except.ok.inj h'

end Unlocated

theorem unlocated_textField (name : String) (fields : List (Value × Value)) :
    Unlocated fun location => textField name location fields := by
  simp only [textField]
  cases field name fields with
  | null | str s => exact .const _
  | _ => exact .error _

theorem unlocated_importField (name : String) (fields : List (Value × Value)) :
    Unlocated fun location => importField name location fields := by
  simp only [importField]
  cases (field name fields).isTruthy with
  | false => exact .const _
  | true => cases field name fields with
    | str s => exact .const _
    | _ => exact .error _

theorem unlocated_listField (name : String) (fault : Fault) (fields : List (Value × Value)) :
    Unlocated fun location => listField name (.node location fault) fields := by
  simp only [listField]
  cases (field name fields).isTruthy with
  | false => exact .const _
  | true => cases (field name fields).unmarked with
    | list items => exact .const _
    | _ => exact .error _

theorem unlocated_mapField (name : String) (fault : Fault) (fields : List (Value × Value)) :
    Unlocated fun location => mapField name (.node location fault) fields := by
  simp only [mapField]
  cases (field name fields).isTruthy with
  | false => exact .const _
  | true => cases (field name fields).unmarked with
    | map entries => exact .const _
    | _ => exact .error _

theorem unlocated_modelTypeField (fields : List (Value × Value)) :
    Unlocated fun location => modelTypeField location fields := by
  simp only [modelTypeField]
  cases Value.lookup "x-kcl-type" fields with
  | none => exact .const _
  | some value =>
    refine .map some ?_
    cases hv : value.unmarked with
    | map entries =>
      simp only [readModelType_of_unmarked hv, readModelType_map]
      cases field "type" entries with
      | str name =>
        by_cases hempty : name.isEmpty = true
        · simp only [hempty, ↓reduceIte]
          exact .error _
        · simp only [hempty, Bool.false_eq_true, ↓reduceIte]
          exact .bind (unlocated_mapField _ _ _) fun _ => .bind (unlocated_importField "package" _) fun _ =>
            .bind (unlocated_importField "alias" _) fun _ => .const _
      | _ => exact .error _
    | _ =>
      simp only [readModelType, hv]
      exact .error _

theorem unlocated_readDecorators (fields : List (Value × Value)) :
    Unlocated fun location => readDecorators location fields := by
  simp only [readDecorators]
  cases (field "x-kcl-decorators" fields).unmarked with
  | null => exact .const _
  | list entries =>
    refine .mapM (fun item => ?_) entries
    cases hv : item.unmarked with
    | map entries =>
      simp only [readDecorator_of_unmarked hv, readDecorator_map]
      cases field "name" entries with
      | str name => exact .bind (unlocated_listField _ _ _) fun _ => .bind (unlocated_mapField _ _ _) fun _ => .const _
      | _ => exact .error _
    | _ =>
      simp only [readDecorator, hv]
      exact .error _
  | _ => exact .error _

theorem unlocated_readExamples (fields : List (Value × Value)) :
    Unlocated fun location => readExamples location fields := by
  simp only [readExamples]
  cases (field "examples" fields).unmarked with
  | null => exact .const _
  | map entries =>
    dsimp only
    cases sortExamples? entries with
    | none => exact .error _
    | some sorted =>
      refine .mapM (fun entry => ?_) sorted
      simp only [readExample]
      cases entry.2.unmarked with
      | map _ => exact .const _
      | _ => exact .error _
  | _ => exact .error _

theorem unlocated_required (fields : List (Value × Value)) : Unlocated fun location => required location fields := by
  simp only [required]
  cases (field "required" fields).isTruthy with
  | false => exact .const _
  | true => cases (field "required" fields).unmarked with
    | list items =>
      refine .map _ (.mapM (fun item => ?_) items)
      cases item with
      | str _ => exact .const _
      | _ => exact .error _
    | _ => exact .error _

theorem unlocated_enumerated (fields : List (Value × Value)) :
    Unlocated fun location => enumerated location fields := by
  simp only [enumerated]
  cases Value.lookup "enum" fields with
  | none => exact .const _
  | some value =>
    dsimp only
    cases value.unmarked with
    | list _ => exact .const _
    | _ => exact .error _

/-! ## What a schema states about itself -/

/-- Two schemas that state what is written in the same fields state the same. -/
theorem Own.facts_eq (h : Own fields s) (h' : Own fields s') (hrequired : s.required = s'.required) :
    s.toFacts = s'.toFacts := by
  obtain ⟨⟨_, hm⟩, ⟨_, ht⟩, ⟨_, _, hd, hdescription⟩, hreadOnly, hdefault, ⟨_, he⟩, ⟨_, hds⟩, ⟨_, hes⟩⟩ := h
  obtain ⟨⟨_, hm'⟩, ⟨_, ht'⟩, ⟨_, _, hd', hdescription'⟩, hreadOnly', hdefault', ⟨_, he'⟩, ⟨_, hds'⟩, ⟨_, hes'⟩⟩ := h'
  obtain rfl := (unlocated_textField "description" fields).unique hd hd'
  have hmodel := (unlocated_modelTypeField fields).unique hm hm'
  have htype := (unlocated_textField "type" fields).unique ht ht'
  have henum := (unlocated_enumerated fields).unique he he'
  have hdecorators := (unlocated_readDecorators fields).unique hds hds'
  have hexamples := (unlocated_readExamples fields).unique hes hes'
  obtain ⟨facts, _, _, _, _, _, _⟩ := s
  obtain ⟨facts', _, _, _, _, _, _⟩ := s'
  obtain ⟨⟩ := facts
  obtain ⟨⟩ := facts'
  simp_all

/-- What stands next to a reference is determined by what is written there. -/
theorem Beside.unique {description description' : String} {default default' : Option Value} {readOnly readOnly' : Bool}
    {decorators decorators' : List Decorator} (h : Beside fields description default readOnly decorators)
    (h' : Beside fields description' default' readOnly' decorators') :
    description = description' ∧ default = default' ∧ readOnly = readOnly' ∧ decorators = decorators' := by
  obtain ⟨⟨_, text, htext, rfl⟩, rfl, rfl, ⟨_, hdecorators⟩⟩ := h
  obtain ⟨⟨_, text', htext', rfl⟩, rfl, rfl, ⟨_, hdecorators'⟩⟩ := h'
  obtain rfl := (unlocated_textField "description" fields).unique htext htext'
  exact ⟨rfl, rfl, rfl, (unlocated_readDecorators fields).unique hdecorators hdecorators'⟩

/-! ## Mirrors -/

/-- The schema has the model type that the definition declares. -/
def HasTypeOf (raw : List (Value × Value)) (key : String) (s : Schema) : Prop :=
  ∃ fields location, IsDefined raw key fields ∧ modelTypeField location fields = .ok s.modelType

/-- The schema mirrors the raw node. Of the parts of a node that is written out it is enough that some relation holds
between them and the nodes in it under which schemas mirror nodes. -/
inductive Mirrors (raw : List (Value × Value)) : Value → Schema → Prop
  | marked {mark : Nat × Nat} {value : Value} {s : Schema} (inner : Mirrors raw value s) :
    Mirrors raw (.knot mark value) s
  | written {fields : List (Value × Value)} {s : Schema} {N : Value → Schema → Prop}
    (written : field "$ref" fields = .null) (own : Own fields s) (below : ∀ value t, N value t → Mirrors raw value t)
    (read : ReadFrom N fields s) : Mirrors raw (.map fields) s
  | reference {fields : List (Value × Value)} {name : String} {s : Schema} {number : Nat} {description : String}
    {default : Option Value} {readOnly : Bool} {decorators : List Decorator} (refers : RefersTo name fields)
    (type : HasTypeOf raw name s) (beside : Beside fields description default readOnly decorators) :
    Mirrors raw (.map fields) (asReference s number description default readOnly decorators)

def MirrorsDefinition (raw : List (Value × Value)) (key : String) (s : Schema) : Prop :=
  ∃ fields, IsDefined raw key fields ∧ Own fields s ∧ ReadFrom (Mirrors raw) fields s

def mirrorsTracked (raw : List (Value × Value)) : Tracking raw where
  Node _ value s := Mirrors raw value s
  Part _ key s := HasTypeOf raw key s
  Whole _ key s := MirrorsDefinition raw key s
  node_grows _ h := h
  part_grows _ h := h
  whole_grows _ h := h
  node_knot h := .marked h
  node_written href _ hown hread := .written href hown (fun _ _ => id) hread
  node_reference hrefers htype hbeside _ := .reference hrefers htype hbeside
  part_read hfields h := h.modelType.elim fun _ hm => ⟨_, _, hfields, hm⟩
  whole_read hfields _ hown hread _ := ⟨_, hfields, hown, hread⟩

/-- The schemas of accepted definitions mirror them. -/
theorem Accepted.mirrors {p : Progress} {placements : List (String × Schema)} (h : Accepted raw raw {} placements p)
    (hm : (key, s) ∈ placements) : MirrorsDefinition raw key s := by
  obtain ⟨w, hp, -, htable⟩ := h.tracked (mirrorsTracked raw) (mirrorsTracked raw).stands_empty
  exact hp.whole (htable _ hm) (by simp)

/-! ## Schemas that mirror the same -/

section ReadFrom

variable {N N' : Value → Schema → Prop}

theorem told_of_forall₂ (hN : ∀ value t t', N value t → N' value t' → t.told = t'.told) {raws : List Value}
    {parts : List Schema} (h : List.Forall₂ N raws parts) : ∀ {parts' : List Schema}, List.Forall₂ N' raws parts' →
      parts.map Schema.told = parts'.map Schema.told := by
  induction h with
  | nil =>
    intro parts' h'
    cases h'
    rfl
  | cons ht _ ih =>
    intro parts' h'
    cases h' with
    | cons ht' hrest' => rw [List.map_cons, List.map_cons, hN _ _ _ ht ht', ih hrest']

theorem told_of_paired (hN : ∀ value t t', N value t → N' value t' → t.told = t'.told) {raws : List (String × Value)}
    {parts : List (String × Schema)} (h : List.Forall₂ (Assoc.Paired N) raws parts) :
    ∀ {parts' : List (String × Schema)}, List.Forall₂ (Assoc.Paired N') raws parts' →
      (parts.map fun e => (e.1, e.2.told)) = parts'.map fun e => (e.1, e.2.told) := by
  induction h with
  | nil =>
    intro parts' h'
    cases h'
    rfl
  | cons ht _ ih =>
    intro parts' h'
    cases h' with
    | cons ht' hrest' => rw [List.map_cons, List.map_cons, hN _ _ _ ht.2 ht'.2, ← ht.1, ← ht'.1, ih hrest']

/-- Schemas that are read from one node have one outline if their parts tell the same. -/
theorem outline_eq_of_readFrom (hN : ∀ value t t', N value t → N' value t' → t.told = t'.told) (hown : Own fields s)
    (hown' : Own fields s') (h : ReadFrom N fields s) (h' : ReadFrom N' fields s') : s.outline = s'.outline := by
  obtain ⟨_, hr⟩ := h.required.1 (by decide)
  obtain ⟨_, hr'⟩ := h'.required.1 (by decide)
  have hfacts := hown.facts_eq hown' ((unlocated_required fields).unique hr hr')
  have hproperties := told_of_paired hN (h.properties.1 (by decide)) (h'.properties.1 (by decide))
  have hmembers := told_of_forall₂ hN (h.members.1 (by decide)) (h'.members.1 (by decide))
  have hitems := Schema.map_eq_of_toList (told_of_forall₂ hN (h.items.1 (by decide)) (h'.items.1 (by decide)))
  have hadditional := Schema.map_eq_of_toList
    (told_of_forall₂ hN (h.additional.1 (by decide)) (h'.additional.1 (by decide)))
  have hkeyType := Schema.map_eq_of_toList (told_of_forall₂ hN (h.keyType.1 (by decide)) (h'.keyType.1 (by decide)))
  rw [Schema.outline_eq, Schema.outline_eq, hfacts, hproperties, hmembers, hitems, hadditional, hkeyType]

end ReadFrom

def AllTyped (raw : List (Value × Value)) : Prop := ∀ key s, HasTypeOf raw key s → s.modelType.isSome = true

/-- The definitions of the first dump are among those of the second one. -/
def DefinedIn (raw raw' : List (Value × Value)) : Prop :=
  ∀ key fields, IsDefined raw key fields → IsDefined raw' key fields

section Mirrors

variable (htyped : AllTyped raw) (hsub : DefinedIn raw raw')
include htyped hsub

/-- **Schemas that mirror one node tell the same**, in any two dumps with the definitions that the node refers to. -/
theorem Mirrors.told_eq (h : Mirrors raw value s) : ∀ {s'}, Mirrors raw' value s' → s.told = s'.told := by
  induction h with
  | marked _ ih =>
    intro s' h'
    cases h' with
    | marked inner' => exact ih inner'
  | written href hown _ hread ih =>
    intro s' h'
    cases h' with
    | written _ hown' hbelow' hread' =>
      rw [Schema.told, Schema.told,
        outline_eq_of_readFrom (fun value t t' ht ht' => ih value t ht (hbelow' value t' ht')) hown hown' hread hread']
    | reference hrefers' => exact absurd href hrefers'.ne_null
  | @reference fields name s _ _ _ _ _ hrefers htype hbeside =>
    intro s' h'
    cases h' with
    | written href' => exact absurd href' hrefers.ne_null
    | @reference _ name' s' _ _ _ _ _ hrefers' htype' hbeside' =>
      obtain rfl := hrefers.unique hrefers'
      obtain ⟨m, hm⟩ := Option.isSome_iff_exists.1 (htyped _ _ htype)
      obtain ⟨definition, _, hdefined, hs⟩ := htype
      obtain ⟨definition', _, hdefined', hs'⟩ := htype'
      obtain rfl := (hsub _ _ hdefined).unique hdefined'
      have hmodel := (unlocated_modelTypeField definition).unique hs hs'
      obtain ⟨hdescription, hdefault, hreadOnly, hdecorators⟩ := hbeside.unique hbeside'
      exact Schema.told_congr (m := m) hm (hmodel ▸ hm) hdescription hdefault hreadOnly hdecorators

theorem MirrorsDefinition.outline_eq (h : MirrorsDefinition raw key s) (h' : MirrorsDefinition raw' key s') :
    s.outline = s'.outline := by
  obtain ⟨fields, hfields, hown, hread⟩ := h
  obtain ⟨fields', hfields', hown', hread'⟩ := h'
  obtain rfl := (hsub _ _ hfields).unique hfields'
  exact outline_eq_of_readFrom (fun _ _ _ ht ht' => ht.told_eq htyped hsub ht') hown hown' hread hread'

end Mirrors

/-- The definitions of an accepted dump have model types. -/
theorem Accepted.allTyped {p : Progress} {placements : List (String × Schema)} (h : Accepted raw raw {} placements p) :
    AllTyped raw := by
  rintro key t ⟨fields, _, hfields, ht⟩
  obtain ⟨⟨_, s⟩, hm, rfl⟩ := List.mem_map.1 (h.keys_eq ▸ hfields.mem_keysOf : key ∈ placements.map (·.1))
  obtain ⟨fields', hfields', hown, -⟩ := h.mirrors hm
  obtain rfl := hfields.unique hfields'
  obtain ⟨_, hs⟩ := hown.modelType
  rw [(unlocated_modelTypeField fields).unique ht hs]
  exact (Schema.problemOfDeclared?_eq_none.1 (h.of_mem hm).1).1

/-- **The schemas of a definition have one outline in every accepted dump that has it**, with all definitions of one of
the dumps, in any order and whatever refers to what. -/
theorem outline_eq_of_accepted {p p' : Progress} {placements placements' : List (String × Schema)}
    (h : Accepted raw raw {} placements p) (h' : Accepted raw' raw' {} placements' p') (hsub : DefinedIn raw raw')
    (hm : (key, s) ∈ placements) (hm' : (key, s') ∈ placements') : s.outline = s'.outline :=
  (h.mirrors hm).outline_eq h.allTyped hsub (h'.mirrors hm')

end SchemaDocs.Dump
