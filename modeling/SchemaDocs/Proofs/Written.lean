import Mathlib.Data.List.Forall2
import SchemaDocs.Proofs.Reading

/-!
# Nodes as they are written

The raw nodes that stand in a raw node, whatever marks they bear: its attributes, the items of an array, the values and
the keys of a map, and the members of a union. What is known of a schema while it is read is that its parts have come
from these, kind by kind in the order in which they are read (`ReadTo`).
-/

namespace SchemaDocs

namespace Value

/-- The entries of a mapping; a value that is no mapping has none. -/
def entriesOf : Value → List (Value × Value)
  | .map entries => entries
  | .knot _ inner => inner.entriesOf
  | _ => []

def itemsOf : Value → List Value
  | .list items => items
  | .knot _ inner => inner.itemsOf
  | _ => []

theorem entriesOf_of_not_isTruthy : ∀ {value : Value}, value.isTruthy = false → value.entriesOf = []
  | .map entries, h => by simpa [isTruthy, entriesOf] using h
  | .knot _ inner, h => by
    rw [isTruthy] at h
    rw [entriesOf, entriesOf_of_not_isTruthy h]
  | .null, _ | .bool _, _ | .int _, _ | .float _, _ | .str _, _ | .list _, _ | .date _, _ | .timestamp _, _
  | .bytes _, _ | .set _, _ | .pair _ _, _ => rfl

theorem itemsOf_of_not_isTruthy : ∀ {value : Value}, value.isTruthy = false → value.itemsOf = []
  | .list items, h => by simpa [isTruthy, itemsOf] using h
  | .knot _ inner, h => by
    rw [isTruthy] at h
    rw [itemsOf, itemsOf_of_not_isTruthy h]
  | .null, _ | .bool _, _ | .int _, _ | .float _, _ | .str _, _ | .map _, _ | .date _, _ | .timestamp _, _
  | .bytes _, _ | .set _, _ | .pair _ _, _ => rfl

theorem itemsOf_of_unmarked {value : Value} {items : List Value} (h : value.unmarked = .list items) :
    value.itemsOf = items := by
  unfold unmarked at h
  split at h <;> subst h <;> rfl

end Value

/-! ## Tables that correspond -/

namespace Assoc

variable {κ α β : Type} [DecidableEq κ] {R : α → β → Prop}

/-- The entries have one key and related values. -/
def Paired (R : α → β → Prop) (e : κ × α) (f : κ × β) : Prop := e.1 = f.1 ∧ R e.2 f.2

theorem forall₂_put {key : κ} {a : α} {b : β} (hab : R a b) {table : List (κ × α)} {table' : List (κ × β)}
    (h : List.Forall₂ (Paired R) table table') : List.Forall₂ (Paired R) (put key a table) (put key b table') := by
  induction h with
  | nil => exact .cons ⟨rfl, hab⟩ .nil
  | @cons e f rest rest' hef hrest ih =>
    obtain ⟨k, x⟩ := e
    obtain ⟨k', y⟩ := f
    obtain ⟨rfl : k = k', hxy⟩ := hef
    simp only [put, alter] at ih ⊢
    by_cases hk : k = key
    · simp only [hk, ↓reduceIte]
      exact .cons ⟨rfl, hab⟩ hrest
    · simp only [hk, ↓reduceIte]
      exact .cons ⟨rfl, hxy⟩ ih

theorem forall₂_ofList {entries : List (κ × α)} {entries' : List (κ × β)}
    (h : List.Forall₂ (Paired R) entries entries') : List.Forall₂ (Paired R) (ofList entries) (ofList entries') := by
  have hfold : ∀ {table : List (κ × α)} {table' : List (κ × β)}, List.Forall₂ (Paired R) table table' →
      List.Forall₂ (Paired R) (entries.foldl (fun table entry => put entry.1 entry.2 table) table)
        (entries'.foldl (fun table entry => put entry.1 entry.2 table) table') := by
    induction h with
    | nil => exact id
    | @cons e f rest rest' hef _ ih =>
      obtain ⟨k, x⟩ := e
      obtain ⟨k', y⟩ := f
      obtain ⟨rfl : k = k', hxy⟩ := hef
      exact fun htable => ih (forall₂_put hxy htable)
  exact hfold .nil

omit [DecidableEq κ] in
theorem keys_of_forall₂ {table : List (κ × α)} {table' : List (κ × β)} (h : List.Forall₂ (Paired R) table table') :
    table'.map (·.1) = table.map (·.1) := by
  induction h with
  | nil => rfl
  | cons hef _ ih => rw [List.map_cons, List.map_cons, hef.1, ih]

end Assoc

namespace Dump

/-! ## Nodes in a node -/

/-- The attributes that are written in a node, each under the plain form of its name. Of two with one form the later
one counts. -/
def writtenAttributes (fields : List (Value × Value)) : List (String × Value) :=
  Assoc.ofList ((field "properties" fields).entriesOf.map fun e => (e.1.plain, e.2))

def writtenIn (name : String) (fields : List (Value × Value)) : List Value := (Value.lookup name fields).toList

/-- The node of the values of a map; a field that holds no mapping stands for no node. -/
def writtenAdditional (fields : List (Value × Value)) : List Value :=
  (writtenIn "additionalProperties" fields).filter fun value => match value.unmarked with
    | .map _ => true
    | _ => false

def writtenMembers (fields : List (Value × Value)) : List Value := (field "x-kcl-union-types" fields).itemsOf

/-- The nodes in a node that the check looks at, unless it passes over the node. -/
def checkedNodes (fields : List (Value × Value)) : List Value :=
  (writtenAttributes fields).map (·.2) ++ writtenIn "items" fields ++ writtenAdditional fields ++ writtenMembers fields

/-- The nodes of the keys of a map; the check does not look at them. -/
def keyNodes (fields : List (Value × Value)) : List Value := writtenIn "x-kcl-dict-key-type" fields

theorem eq_map_str {location : String} : ∀ {items : List Value} {names : List String},
    (items.mapM fun item => match item with
      | .str name => Except.ok name
      | _ => Except.error (.node location .requiredNotNames : Error)) = .ok names → items = names.map Value.str
  | [], _, h => by
    cases h
    rfl
  | item :: rest, _, h => by
    simp only [List.mapM_cons, except_bind_ok] at h
    obtain ⟨name, hname, names, hnames, h⟩ := h
    cases h
    cases item with
    | str s =>
      cases hname
      rw [List.map_cons, ← eq_map_str hnames]
    | _ => cases hname

/-- The names that a node requires are the texts in its list of them. -/
theorem mem_required_iff {location : String} {fields : List (Value × Value)} {names : List String}
    (h : required location fields = .ok names) {name : String} :
    name ∈ names ↔ .str name ∈ (field "required" fields).itemsOf := by
  unfold required at h
  dsimp only at h
  split at h
  · rename_i hfalsy
    rw [Bool.not_eq_true'] at hfalsy
    cases h
    simp [Value.itemsOf_of_not_isTruthy hfalsy]
  · split at h
    · rename_i items hitems
      obtain ⟨ns, hns, rfl⟩ := except_map_ok.1 h
      rw [Value.itemsOf_of_unmarked hitems, Assoc.mem_distinct, eq_map_str hns]
      simp
    · cases h

/-- All that has been read of the parts of one kind, or that none of them has. -/
def ReadWhen {α β : Type} (done : Prop) (N : α → β → Prop) (raws : List α) (parts : List β) : Prop :=
  (done → List.Forall₂ N raws parts) ∧ (¬ done → parts = [])

/-- What the schema of a node has been read from after so many steps, with `N` between a raw node and its schema. The
attributes and the required names are read in one step. -/
structure ReadTo (step : Nat) (N : Value → Schema → Prop) (fields : List (Value × Value)) (s : Schema) : Prop where
  modelType : ∃ location, modelTypeField location fields = .ok s.modelType
  required : (1 ≤ step → ∃ location, required location fields = .ok s.required) ∧ (¬ 1 ≤ step → s.required = [])
  properties : ReadWhen (1 ≤ step) (Assoc.Paired N) (writtenAttributes fields) s.properties
  items : ReadWhen (2 ≤ step) N (writtenIn "items" fields) s.items.toList
  additional : ReadWhen (3 ≤ step) N (writtenAdditional fields) s.additional.toList
  keyType : ReadWhen (4 ≤ step) N (writtenIn "x-kcl-dict-key-type" fields) s.keyType.toList
  members : ReadWhen (5 ≤ step) N (writtenMembers fields) s.members

/-- The schema of a node has been read in full. -/
abbrev ReadFrom (N : Value → Schema → Prop) (fields : List (Value × Value)) (s : Schema) : Prop := ReadTo 5 N fields s

section ReadWhen

variable {α β : Type} {done : Prop} {N N' : α → β → Prop} {raws : List α} {parts : List β}

theorem ReadWhen.mono (h : ReadWhen done N raws parts) (hN : ∀ a b, N a b → N' a b) : ReadWhen done N' raws parts :=
  ⟨fun hd => (h.1 hd).imp fun _ _ => hN _ _, h.2⟩

theorem ReadWhen.congr {done' : Prop} (h : ReadWhen done N raws parts) (hd : done ↔ done') :
    ReadWhen done' N raws parts := ⟨fun h' => h.1 (hd.2 h'), fun h' => h.2 fun h'' => h' (hd.1 h'')⟩

theorem ReadWhen.of_forall₂ (h : List.Forall₂ N raws parts) (hd : done) : ReadWhen done N raws parts :=
  ⟨fun _ => h, fun hn => absurd hd hn⟩

/-- Whatever has been read has been read from something. -/
theorem ReadWhen.mem (h : ReadWhen done N raws parts) {b : β} (hb : b ∈ parts) : ∃ a ∈ raws, N a b := by
  by_cases hd : done
  · have hall := h.1 hd
    clear h
    induction hall with
    | nil => simp at hb
    | cons hab _ ih =>
      rcases List.mem_cons.1 hb with rfl | hb
      · exact ⟨_, List.mem_cons_self, hab⟩
      · obtain ⟨a, ha, hN⟩ := ih hb
        exact ⟨a, List.mem_cons_of_mem _ ha, hN⟩
  · simp [h.2 hd] at hb

end ReadWhen

/-! A node is read in five steps; what has been read stays as it is in the steps after. -/

namespace ReadTo

variable {step : Nat} {N N' : Value → Schema → Prop} {fields : List (Value × Value)} {s : Schema} {location : String}

theorem mono (h : ReadTo step N fields s) (hN : ∀ value t, N value t → N' value t) : ReadTo step N' fields s :=
  ⟨h.modelType, h.required, h.properties.mono fun _ _ => And.imp id (hN _ _), h.items.mono hN, h.additional.mono hN,
    h.keyType.mono hN, h.members.mono hN⟩

theorem start {head : Schema} (h : readHead location fields = .ok head) (number : Option Nat) :
    ReadTo 0 N fields { head with number := number } := by
  have hmodel := readHead_ok h
  obtain ⟨_, _, _, _, _, rfl⟩ := readHead_eq h
  have hnone : ∀ {α β : Type} {done : Prop} {R : α → β → Prop} {raws : List α}, ¬ done → ReadWhen done R raws [] :=
    fun hd => ⟨fun h => absurd h hd, fun _ => rfl⟩
  exact ⟨⟨location, hmodel⟩, ⟨by simp, fun _ => rfl⟩, hnone (by simp), hnone (by simp), hnone (by simp),
    hnone (by simp), hnone (by simp)⟩

theorem withProperties {properties : List (String × Schema)} {names : List String} (h : ReadTo 0 N fields s)
    (hproperties : List.Forall₂ (Assoc.Paired N) (writtenAttributes fields) properties)
    (hnames : Dump.required location fields = .ok names) :
    ReadTo 1 N fields { s with properties := properties, required := names } :=
  ⟨h.modelType, ⟨fun _ => ⟨location, hnames⟩, by simp⟩, .of_forall₂ hproperties (by simp), h.items.congr (by simp),
    h.additional.congr (by simp), h.keyType.congr (by simp), h.members.congr (by simp)⟩

theorem withItems {item : Option Schema} (h : ReadTo 1 N fields s)
    (hitem : List.Forall₂ N (writtenIn "items" fields) item.toList) : ReadTo 2 N fields { s with items := item } :=
  ⟨h.modelType, by simpa using h.required, h.properties.congr (by simp), .of_forall₂ hitem (by simp),
    h.additional.congr (by simp), h.keyType.congr (by simp), h.members.congr (by simp)⟩

theorem withAdditional {more : Option Schema} (h : ReadTo 2 N fields s)
    (hmore : List.Forall₂ N (writtenAdditional fields) more.toList) (enum : Option (List Value)) :
    ReadTo 3 N fields { s with additional := more, enum := enum } :=
  ⟨h.modelType, by simpa using h.required, h.properties.congr (by simp), h.items.congr (by simp),
    .of_forall₂ hmore (by simp), h.keyType.congr (by simp), h.members.congr (by simp)⟩

theorem withKeyType {keyType : Option Schema} (h : ReadTo 3 N fields s)
    (hkeyType : List.Forall₂ N (writtenIn "x-kcl-dict-key-type" fields) keyType.toList) :
    ReadTo 4 N fields { s with keyType := keyType } :=
  ⟨h.modelType, by simpa using h.required, h.properties.congr (by simp), h.items.congr (by simp),
    h.additional.congr (by simp), .of_forall₂ hkeyType (by simp), h.members.congr (by simp)⟩

theorem withMembers {members : List Schema} (h : ReadTo 4 N fields s)
    (hmembers : List.Forall₂ N (writtenMembers fields) members) (decorators : List Decorator)
    (examples : List Example) :
    ReadFrom N fields { s with members := members, decorators := decorators, examples := examples } :=
  ⟨h.modelType, by simpa using h.required, h.properties.congr (by simp), h.items.congr (by simp),
    h.additional.congr (by simp), h.keyType.congr (by simp), .of_forall₂ hmembers (by simp)⟩

end ReadTo

end Dump

end SchemaDocs
