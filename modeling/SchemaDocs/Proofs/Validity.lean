import SchemaDocs.Proofs.Json
import SchemaDocs.Proofs.Keys
import SchemaDocs.Proofs.Visits

/-!
# Valid trees

A schema is valid if it requires only names of its own attributes, and so does every schema that is reached from it,
through references too (`Valid`). The check of a dump looks at every definition, but it passes over two kinds of nodes:
those of the keys of a map, and whatever lies in a nested node with a model type of its own. If these require only names
of their own attributes, then all declarations of an accepted dump are valid (`valid_of_packageOf`); and with such a
node that does not, they need not be (`invalid_of_passedOver`).

The proof takes two turns. What the check finds out about a schema holds of the raw node that it was read from, so in
the end all raw nodes of the dump are in order (`checkedTracked`); and from raw nodes that are in order only valid
schemas are read, however far a definition has been read when it is referred to (`validTracked`).
-/

namespace SchemaDocs

namespace Schema

/-- Every schema that is reached requires only names of its own attributes. -/
def Valid (s : Schema) : Prop := ∀ t, s.Reaches t → ∀ name ∈ t.required, name ∈ t.names

variable {s t : Schema}

theorem Valid.intro (own : ∀ name ∈ s.required, name ∈ s.names) (parts : ∀ t ∈ s.parts, t.Valid) : s.Valid :=
  forall_reaches own parts

theorem Valid.own (h : s.Valid) : ∀ name ∈ s.required, name ∈ s.names := h s (.refl s)

theorem Valid.parts (h : s.Valid) (ht : t ∈ s.parts) : t.Valid := fun u hu => h u (.part ht hu)

end Schema

namespace Dump

open Schema (Sound Valid)

variable {raw fields : List (Value × Value)} {value : Value} {N : Value → Schema → Prop} {s : Schema} {step : Nat}

/-! ## Raw nodes in order -/

/-- A raw node requires only names of attributes that are written in it. -/
def RequiresWritten (fields : List (Value × Value)) : Prop :=
  ∀ name, .str name ∈ (field "required" fields).itemsOf → name ∈ (writtenAttributes fields).map (·.1)

/-- The raw node and all nodes that are written in it require only names of their own attributes. What a reference leads
to is written elsewhere. -/
inductive InOrder : Value → Prop
  | knot {mark : Nat × Nat} {value : Value} (inner : InOrder value) : InOrder (.knot mark value)
  | reference {fields : List (Value × Value)} (refers : field "$ref" fields ≠ .null) : InOrder (.map fields)
  | written {fields : List (Value × Value)} (own : RequiresWritten fields)
    (checked : ∀ node ∈ checkedNodes fields, InOrder node) (keys : ∀ node ∈ keyNodes fields, InOrder node) :
    InOrder (.map fields)

/-- The nodes that are written in a raw node and that the check passes over require only names of their own attributes:
the nodes of the keys of maps, and all nodes in a node with a model type of its own. -/
inductive UncheckedInOrder : Value → Prop
  | knot {mark : Nat × Nat} {value : Value} (inner : UncheckedInOrder value) : UncheckedInOrder (.knot mark value)
  | reference {fields : List (Value × Value)} (refers : field "$ref" fields ≠ .null) : UncheckedInOrder (.map fields)
  | named {fields : List (Value × Value)} (named : (Value.lookup "x-kcl-type" fields).isSome = true)
    (checked : ∀ node ∈ checkedNodes fields, InOrder node) (keys : ∀ node ∈ keyNodes fields, InOrder node) :
    UncheckedInOrder (.map fields)
  | written {fields : List (Value × Value)} (unnamed : (Value.lookup "x-kcl-type" fields).isSome = false)
    (checked : ∀ node ∈ checkedNodes fields, UncheckedInOrder node) (keys : ∀ node ∈ keyNodes fields, InOrder node) :
    UncheckedInOrder (.map fields)

/-- The nodes of a definition that the check passes over require only names of their own attributes. -/
def PassedOverInOrder (fields : List (Value × Value)) : Prop :=
  (∀ node ∈ checkedNodes fields, UncheckedInOrder node) ∧ ∀ node ∈ keyNodes fields, InOrder node

/-- All nodes of a definition require only names of their own attributes. -/
def AllInOrder (fields : List (Value × Value)) : Prop :=
  RequiresWritten fields ∧ (∀ node ∈ checkedNodes fields, InOrder node) ∧ ∀ node ∈ keyNodes fields, InOrder node

/-! ## Parts and the nodes that they have been read from -/

/-- A schema that has been read in full requires only its own attributes if the raw node does, and the other way
round. -/
theorem ReadFrom.requires_iff (h : ReadFrom N fields s) :
    (∀ name ∈ s.required, name ∈ s.names) ↔ RequiresWritten fields := by
  obtain ⟨location, hrequired⟩ := h.required.1 (by decide)
  rw [Schema.names, Assoc.keys_of_forall₂ (h.properties.1 (by decide))]
  exact forall_congr' fun name => by rw [mem_required_iff hrequired]

theorem ReadFrom.checked (h : ReadFrom N fields s) : List.Forall₂ N (checkedNodes fields) s.checkedParts := by
  have hproperties : List.Forall₂ N ((writtenAttributes fields).map (·.2)) (s.properties.map (·.2)) := by
    rw [List.forall₂_map_left_iff, List.forall₂_map_right_iff]
    exact (h.properties.1 (by decide)).imp fun _ _ hef => hef.2
  exact List.rel_append (List.rel_append (List.rel_append hproperties (h.items.1 (by decide)))
    (h.additional.1 (by decide))) (h.members.1 (by decide))

theorem ReadFrom.named (h : ReadFrom N fields s) :
    s.modelType.isSome = (Value.lookup "x-kcl-type" fields).isSome := by
  obtain ⟨location, hm⟩ := h.modelType
  exact isSome_of_modelTypeField hm

theorem ReadTo.requires (h : ReadTo step N fields s) (hfields : RequiresWritten fields) :
    ∀ name ∈ s.required, name ∈ s.names := by
  by_cases hstep : 1 ≤ step
  · obtain ⟨location, hrequired⟩ := h.required.1 hstep
    intro name hname
    rw [Schema.names, Assoc.keys_of_forall₂ (h.properties.1 hstep)]
    exact hfields name ((mem_required_iff hrequired).1 hname)
  · simp [h.required.2 hstep]

theorem ReadTo.parts (h : ReadTo step N fields s) :
    (∀ t ∈ s.checkedParts, ∃ node ∈ checkedNodes fields, N node t) ∧
      ∀ t ∈ s.keyType.toList, ∃ node ∈ keyNodes fields, N node t := by
  refine ⟨?_, fun t ht => h.keyType.mem ht⟩
  have hproperties : ∀ e ∈ s.properties, ∃ node ∈ (writtenAttributes fields).map (·.2), N node e.2 := by
    intro e he
    obtain ⟨f, hf, -, hN⟩ := h.properties.mem he
    exact ⟨f.2, List.mem_map_of_mem hf, hN⟩
  rw [Schema.forall_checkedParts]
  simp only [checkedNodes, List.mem_append]
  refine ⟨fun e he => ?_, fun t ht => ?_, fun t ht => ?_, fun t ht => ?_⟩
  · obtain ⟨node, hm, hN⟩ := hproperties e he
    exact ⟨node, Or.inl (Or.inl (Or.inl hm)), hN⟩
  · obtain ⟨node, hm, hN⟩ := h.items.mem (Option.mem_toList.2 ht)
    exact ⟨node, Or.inl (Or.inl (Or.inr hm)), hN⟩
  · obtain ⟨node, hm, hN⟩ := h.additional.mem (Option.mem_toList.2 ht)
    exact ⟨node, Or.inl (Or.inr hm), hN⟩
  · obtain ⟨node, hm, hN⟩ := h.members.mem ht
    exact ⟨node, Or.inr hm, hN⟩

/-- From a node that is in order a valid schema is read, as far as it has been read. -/
theorem ReadTo.valid (h : ReadTo step (fun value s => InOrder value → Valid s) fields s) (hfields : AllInOrder fields) :
    Valid s := by
  obtain ⟨hown, hchecked, hkeys⟩ := hfields
  refine .intro (h.requires hown) fun t ht => ?_
  rcases List.mem_append.1 ht with ht | ht
  · obtain ⟨node, hm, hN⟩ := h.parts.1 t ht
    exact hN (hchecked node hm)
  · obtain ⟨node, hm, hN⟩ := h.parts.2 t ht
    exact hN (hkeys node hm)

/-! ## What the check finds out -/

/-- What holds of the parts holds of the nodes that they have been read from. -/
theorem forall_nodes {P : Value → Prop} {Q : Schema → Prop} {nodes : List Value} {parts : List Schema}
    (h : List.Forall₂ N nodes parts) (hQ : ∀ t ∈ parts, Q t) (hN : ∀ node t, N node t → Q t → P node) :
    ∀ node ∈ nodes, P node := by
  induction h with
  | nil => simp
  | cons hab _ ih =>
    rw [List.forall_mem_cons] at hQ ⊢
    exact ⟨hN _ _ hab hQ.1, ih hQ.2⟩

/-- The schema that is read from a raw node is numbered, and if it is sound then all of the node is in order, once that
is known of what the check passes over. -/
structure Checks (w : Register) (value : Value) (s : Schema) : Prop where
  numbered : Numbered w s
  inOrder : Sound false s → UncheckedInOrder value → InOrder value

theorem Checks.grows {v w : Register} (h : Checks v value s) (hw : v.Grows w) : Checks w value s :=
  ⟨h.numbered.grows hw, h.inOrder⟩

section Checked

variable {w : Register} (h : ReadFrom (Checks w) fields s)
include h

theorem ReadFrom.numbered (here : w.Has s) : Numbered w s := by
  refine .intro here fun t ht => ?_
  obtain ⟨_, -, hN⟩ := h.parts.1 t ht
  exact hN.numbered

theorem ReadFrom.inOrder (hsound : ∀ t ∈ s.checkedParts, Sound false t)
    (hchecked : ∀ node ∈ checkedNodes fields, UncheckedInOrder node) : ∀ node ∈ checkedNodes fields, InOrder node :=
  fun node hm => forall_nodes (P := fun node => UncheckedInOrder node → InOrder node) h.checked hsound
    (fun _ _ hN => hN.inOrder) node hm (hchecked node hm)

/-- A node that is written out is checked when its parts are. -/
theorem ReadFrom.checks (hplain : field "$ref" fields = .null) (here : w.Has s) : Checks w (.map fields) s where
  numbered := h.numbered here
  inOrder hs hunchecked := by
    cases hunchecked with
    | reference refers => exact absurd hplain refers
    | named _ checked keys => exact .written (h.requires_iff.1 hs.required) checked keys
    | written unnamed checked keys =>
      cases hs with
      | reference _ named =>
        rw [h.named, unnamed] at named
        cases named
      | node required properties items additional members =>
        have hsound := Schema.forall_checkedParts.2 ⟨properties, items, additional, members⟩
        exact .written (h.requires_iff.1 required) (h.inOrder hsound checked) keys

end Checked

/-- What the check of the schemas says about the raw nodes. -/
def checkedTracked (raw : List (Value × Value)) : Tracking raw where
  Node := Checks
  Part w _ s := ∀ t ∈ s.checkedParts, Numbered w t
  Whole w key s := Numbered w s ∧ ∀ fields, IsDefined raw key fields → PassedOverInOrder fields →
    (∀ name ∈ s.required, name ∈ s.names) → (∀ t ∈ s.checkedParts, Sound false t) → AllInOrder fields
  node_grows hw h := h.grows hw
  part_grows hw h t ht := (h t ht).grows hw
  whole_grows hw h := ⟨h.1.grows hw, h.2⟩
  node_knot h := ⟨h.numbered, fun hs hunchecked => by
    cases hunchecked with
    | knot inner => exact .knot (h.inOrder hs inner)⟩
  node_written hplain here _ h := h.checks hplain here
  node_reference href hpart _ here := ⟨.intro here hpart, fun _ _ => .reference href.ne_null⟩
  part_read _ h t ht := by
    obtain ⟨_, -, hN⟩ := h.parts.1 t ht
    exact hN.numbered
  whole_read hfields here _ h _ := by
    refine ⟨h.numbered here, fun fields' hfields' hpassed hrequired hsound => ?_⟩
    cases hfields.symm.trans hfields'
    exact ⟨h.requires_iff.1 hrequired, h.inOrder hsound hpassed.1, hpassed.2⟩

def DefinitionsInOrder (raw : List (Value × Value)) : Prop := ∀ key fields, IsDefined raw key fields → AllInOrder fields

/-- **The definitions of an accepted dump are in order**, if what the check passes over is. -/
theorem Accepted.definitionsInOrder {p : Progress} {placements : List (String × Schema)}
    (h : Accepted raw raw {} placements p)
    (hpassed : ∀ key fields, IsDefined raw key fields → PassedOverInOrder fields) : DefinitionsInOrder raw := by
  intro key fields hfields
  obtain ⟨w, hp, -, htable⟩ := h.tracked (checkedTracked raw) (checkedTracked raw).stands_empty
  obtain ⟨value, hl, -⟩ := Option.map_eq_some_iff.1 hfields
  have hkey : key ∈ placements.map (·.1) := h.keys_eq ▸ mem_keysOf (Value.mem_of_lookup hl)
  obtain ⟨⟨key, s⟩, hs, rfl⟩ := List.mem_map.1 hkey
  obtain ⟨hnumbered, hinOrder⟩ := hp.whole (htable _ hs) (by simp)
  obtain ⟨-, hproblem⟩ := Schema.problemOfDeclared?_eq_none.1 (h.of_mem hs).1
  obtain ⟨hrequired, hsound⟩ := sound_of_problem? hnumbered hproblem
  exact hinOrder fields hfields (hpassed key fields hfields) hrequired hsound

/-! ## What is read from nodes in order -/

/-- From definitions that are in order only valid schemas are read. -/
def validTracked (raw : List (Value × Value)) (hraw : DefinitionsInOrder raw) : Tracking raw where
  Node _ value s := InOrder value → Valid s
  Part _ _ s := Valid s
  Whole _ _ _ := True
  node_grows _ h := h
  part_grows _ h := h
  whole_grows _ h := h
  node_knot h hknot := by
    cases hknot with
    | knot inner => exact h inner
  node_written hplain _ _ h hin := by
    cases hin with
    | reference refers => exact absurd hplain refers
    | written own checked keys => exact h.valid ⟨own, checked, keys⟩
  node_reference _ hpart _ _ _ := .intro hpart.own fun t ht => hpart.parts ht
  part_read hfields h := h.valid (hraw _ _ hfields)
  whole_read _ _ _ _ _ := trivial

/-- **Every node of an accepted dump is valid**, if the nodes that the check passes over require only names of their own
attributes. -/
theorem valid_of_packageOf {defaultName : String} {document : List (Value × Value)} {root : Package}
    (h : packageOf defaultName document = .ok root)
    (hpassed : ∀ raw, readDefinitions document = .ok raw → ∀ key fields, IsDefined raw key fields →
      PassedOverInOrder fields) :
    ∃ declarations, root.declarations? = some declarations ∧ ∀ d ∈ declarations, d.schema.Valid := by
  obtain ⟨info, raw, placements, p, -, hr, ha, rfl⟩ := packageOf_ok.1 h
  have hraw := ha.definitionsInOrder (hpassed raw hr)
  obtain ⟨w, hp, -, htable⟩ := ha.tracked (validTracked raw hraw) (validTracked raw hraw).stands_empty
  obtain ⟨declarations, hdeclarations, -, -, hplaced⟩ :=
    ha.exists_declarations rfl rfl (Package.Placed.ofEmpty (p := emptyRoot defaultName info) rfl rfl rfl)
  refine ⟨declarations, hdeclarations, fun d hd => ?_⟩
  obtain ⟨key, hm, -⟩ := hplaced d hd
  exact hp.part (htable _ hm)

/-- A node that states nothing but a type is in order. -/
theorem inOrder_of_type (type : Value) : InOrder (.map [(.str "type", type)]) := by
  refine .written (fun name hm => ?_) (fun node hm => ?_) fun node hm => ?_
  · simp [field, Value.lookup, Value.itemsOf] at hm
  · simp [checkedNodes, writtenAttributes, writtenIn, writtenAdditional, writtenMembers, field, Value.lookup,
      Value.entriesOf, Value.itemsOf, Assoc.ofList] at hm
  · simp [keyNodes, writtenIn, Value.lookup] at hm

def referenceTo (name : String) : Value := .map [(.str "$ref", .str (referenceStart ++ name))]

theorem uncheckedInOrder_referenceTo (name : String) : UncheckedInOrder (referenceTo name) :=
  .reference (by simp [field, Value.lookup])

/-- A dump in which a schema refers to itself through a map, the keys of which have a node. -/
def nested : List (Value × Value) :=
  [(.str "definitions", .map [(.str "base.Tree", declaredIn "base" "Tree" [
    (.str "required", .list [.str "children"]),
    (.str "properties", .map [(.str "children", .map [
      (.str "additionalProperties", referenceTo "base.Tree"),
      (.str "x-kcl-dict-key-type", .map [(.str "type", .str "string")])])])])])]

theorem passedOverInOrder_nested : ∀ raw, readDefinitions nested = .ok raw → ∀ key fields, IsDefined raw key fields →
    PassedOverInOrder fields := by
  intro raw hr key fields hfields
  cases hr
  obtain ⟨value, hl, hvalue⟩ := Option.map_eq_some_iff.1 hfields
  have hm := Value.mem_of_lookup hl
  simp only [List.mem_singleton, Prod.mk.injEq, Value.str.injEq] at hm
  obtain ⟨rfl, rfl⟩ := hm
  cases hvalue
  refine ⟨fun node hm => ?_, fun node hm => ?_⟩
  · obtain rfl : node = .map [(.str "additionalProperties", referenceTo "base.Tree"),
        (.str "x-kcl-dict-key-type", .map [(.str "type", .str "string")])] := by
      simpa [checkedNodes, writtenAttributes, writtenIn, writtenAdditional, writtenMembers, field, Value.lookup,
        Value.entriesOf, Value.itemsOf, Assoc.ofList, Assoc.put, Assoc.alter] using hm
    refine .written rfl (fun node hm => ?_) fun node hm => ?_
    · obtain rfl : node = referenceTo "base.Tree" := by
        simpa [checkedNodes, writtenAttributes, writtenIn, writtenAdditional, writtenMembers, field, Value.lookup,
          Value.entriesOf, Value.itemsOf, Assoc.ofList, referenceTo, Value.unmarked] using hm
      exact uncheckedInOrder_referenceTo _
    · obtain rfl : node = .map [(.str "type", .str "string")] := by
        simpa [keyNodes, writtenIn, Value.lookup] using hm
      exact inOrder_of_type _
  · simp [keyNodes, writtenIn, Value.lookup] at hm

theorem valid_of_nested : ∃ root, packageOf "main" nested = .ok root ∧
    ∃ declarations, root.declarations? = some declarations ∧ ∀ d ∈ declarations, d.schema.Valid := by
  obtain ⟨root, h⟩ := exists_ok_of_isOk (by decide +kernel : (packageOf "main" nested).isOk = true)
  exact ⟨root, h, valid_of_packageOf h passedOverInOrder_nested⟩

/-- A dump in which the check passes over the node of the keys of a map, which requires a name that it does not have. -/
def passedOver : List (Value × Value) :=
  [(.str "definitions", .map [(.str "A", declaredIn "" "A" [(.str "properties", .map [
    (.str "m", .map [
      (.str "type", .str "object"),
      (.str "additionalProperties", .map [(.str "type", .str "string")]),
      (.str "x-kcl-dict-key-type", .map [(.str "type", .str "string"), (.str "required", .list [.str "gone"])])])])])])]

/-- The nodes of keys are not checked: a dump is accepted in which such a node requires a name that it does not have. -/
theorem invalid_of_passedOver : ∃ root declarations d t, packageOf "main" passedOver = .ok root ∧
    root.declarations? = some declarations ∧ d ∈ declarations ∧ d.schema.Reaches t ∧ t.required = ["gone"] ∧
    t.names = [] := by
  have hkeys : (((packageOf "main" passedOver).toOption.bind Package.declarations?).map fun declarations =>
      declarations.map fun d => d.schema.properties.map fun e => e.2.keyType.map fun t => (t.required, t.names)) =
      some [[some (["gone"], [])]] := by decide +kernel
  obtain ⟨root, h⟩ := exists_ok_of_isOk (by decide +kernel : (packageOf "main" passedOver).isOk = true)
  rw [h] at hkeys
  simp only [Except.toOption, Option.bind_some, Option.map_eq_some_iff, List.map_eq_singleton_iff,
    Prod.mk.injEq] at hkeys
  obtain ⟨declarations, hdeclarations, d, rfl, ⟨name, s⟩, hs, t, ht, hrequired, hnames⟩ := hkeys
  have hpart : s ∈ d.schema.parts := by simp [Schema.parts, Schema.checkedParts, hs]
  have hkeyType : t ∈ s.parts := List.mem_append_right _ (Option.mem_toList.2 ht)
  exact ⟨root, [d], d, t, h, hdeclarations, List.mem_singleton_self d, .part hpart (.part hkeyType (.refl t)),
    hrequired, hnames⟩

end Dump

end SchemaDocs
