import Mathlib.Logic.Relation
import SchemaDocs.Proofs.NodeStore
import SchemaDocs.Proofs.Outline

/-!
# Schemas in a store

A store holds a schema if the node of the schema stands at its address, and the store holds what lies below it
(`Store.Holds`). A schema is a finite tree, so no way down from its address goes on forever, and none comes back to
where it began (`Store.Holds.acyclic`). What is told of its node, by following addresses, is what is told of the schema
(`Store.Holds.settles_element`, `settles_token`, `settles_attributes`).
-/

namespace SchemaDocs

namespace Schema

def address (s : Schema) : Nat := s.number.getD 0

/-- The node of a schema, with addresses in place of the schemas below it. -/
def cell (s : Schema) : Dump.Cell where
  toFacts := s.toFacts
  properties := s.properties.map fun entry => (entry.1, entry.2.address)
  items := s.items.map address
  additional := s.additional.map address
  keyType := s.keyType.map address
  members := s.members.map address

@[simp] theorem toFacts_cell (s : Schema) : s.cell.toFacts = s.toFacts := rfl

@[simp] theorem kind_cell (s : Schema) : s.cell.kind = s.kind := by
  simp [Dump.Cell.kind, kind, cell]

/-- The element of a schema is the schema itself, or that of a schema directly below it. -/
theorem element_cases (s : Schema) : s.element = s ∨ ∃ t, (t ∈ s.items ∨ t ∈ s.additional) ∧ s.element = t.element := by
  rw [element_eq]
  cases s.kind with
  | array =>
    cases hs : s.items with
    | none => exact .inl rfl
    | some t => exact .inr ⟨t, .inl rfl, rfl⟩
  | map =>
    cases hs : s.additional with
    | none => exact .inl rfl
    | some t => exact .inr ⟨t, .inr rfl, rfl⟩
  | _ => exact .inl rfl

theorem forall_parts {s : Schema} {P : Schema → Prop} : (∀ t ∈ s.parts, P t) ↔
    (∀ e ∈ s.properties, P e.2) ∧ (∀ t ∈ s.items, P t) ∧ (∀ t ∈ s.additional, P t) ∧ (∀ t ∈ s.members, P t) ∧
      ∀ t ∈ s.keyType, P t := by
  simp only [parts, List.forall_mem_append, forall_checkedParts, Option.mem_toList, Option.mem_def, and_assoc]

@[simp] theorem parts_cell (s : Schema) : s.cell.parts = s.parts.map address := by
  simp [Dump.Cell.parts, parts, checkedParts, cell, Option.toList_map, Function.comp_def]

/-- What is told about an attribute, if it is told. -/
def toldOf (view : View) (required : List String) (e : String × Schema) : Option Attribute :=
  if isTold view e.2 then some (toAttribute view required e.1 e.2 (e.2.elementAttributes view)) else none

theorem name_of_toldOf {view : View} {required : List String} {e : String × Schema} {a : Attribute}
    (h : toldOf view required e = some a) : a.name = e.1 := by
  unfold toldOf at h
  split at h
  · cases h
    rfl
  · cases h

end Schema

namespace Dump

/-! ## Settled results -/

namespace Settles

variable {α β γ : Type} {f : Nat → Option α} {a : α} {b : β}

/-- A result that does not depend on the depth at all. -/
theorem const {x : Option α} (h : x = some a) : Settles (fun _ => x) a := ⟨0, fun _ _ => h⟩

theorem unique {a' : α} (h : Settles f a) (h' : Settles f a') : a = a' := by
  obtain ⟨enough, h⟩ := h
  obtain ⟨enough', h'⟩ := h'
  exact Option.some.inj ((h _ (Nat.le_max_left enough enough')).symm.trans (h' _ (Nat.le_max_right enough enough')))

/-- What a call comes to is settled one level further up. -/
theorem of_next {g : Nat → Option α} (h : Settles g a) (hnext : ∀ depth, f (depth + 1) = g depth) : Settles f a := by
  obtain ⟨enough, h⟩ := h
  refine ⟨enough + 1, fun depth hdepth => ?_⟩
  obtain ⟨depth, rfl⟩ : ∃ d, depth = d + 1 := ⟨depth - 1, by omega⟩
  rw [hnext]
  exact h depth (by omega)

theorem bind {g : Nat → α → Option β} (hf : Settles f a) (hg : Settles (fun depth => g depth a) b) :
    Settles (fun depth => f depth >>= g depth) b := by
  obtain ⟨enough, hf⟩ := hf
  obtain ⟨enough', hg⟩ := hg
  refine ⟨max enough enough', fun depth hdepth => ?_⟩
  have hfirst := hf depth (by omega)
  have hsecond := hg depth (by omega)
  simp only [hfirst, Option.bind_eq_bind, Option.bind_some]
  exact hsecond

theorem map (h : Settles f a) (g : α → β) : Settles (fun depth => g <$> f depth) (g a) := by
  obtain ⟨enough, h⟩ := h
  exact ⟨enough, fun depth hdepth => by simp [h depth hdepth]⟩

theorem mapM {f : Nat → α → Option β} {g : γ → α} {r : γ → β} {l : List γ}
    (h : ∀ c ∈ l, Settles (fun depth => f depth (g c)) (r c)) :
    Settles (fun depth => (l.map g).mapM (f depth)) (l.map r) := by
  induction l with
  | nil => exact .const rfl
  | cons c rest ih =>
    simp only [List.map_cons, List.mapM_cons]
    refine (h c List.mem_cons_self).bind (Settles.bind (ih fun c hc => h c (List.mem_cons_of_mem _ hc)) ?_)
    exact .const rfl

end Settles

namespace Store

variable {σ : Store} {opened : List Nat} {s t : Schema}

/-! ## Trees -/

def viewAt (ignoreDeprecated : Bool) (link : Nat → Option String) : View where
  ignoreDeprecated := ignoreDeprecated
  link s := link s.address

/-- The store holds the schema, and no part of it is opened. -/
inductive Holds (σ : Store) (opened : List Nat) : Schema → Prop
  | intro {s : Schema} (closed : s.address ∉ opened) (cell : σ.cells[s.address]? = some s.cell)
    (parts : ∀ t ∈ s.parts, Holds σ opened t) : Holds σ opened s

namespace Holds

theorem cell (h : σ.Holds opened s) : σ.cells[s.address]? = some s.cell := by
  cases h with
  | intro _ cell _ => exact cell

theorem parts (h : σ.Holds opened s) : ∀ t ∈ s.parts, σ.Holds opened t := by
  cases h with
  | intro _ _ parts => exact parts

/-- A store that agrees with the first one outside what is opened there holds the same schemas. -/
theorem transfer {σ' : Store} {opened' : List Nat} (h : σ.Holds opened s)
    (hopened : ∀ n < σ.cells.length, n ∉ opened → n ∉ opened')
    (hcells : ∀ n < σ.cells.length, n ∉ opened → σ'.cells[n]? = σ.cells[n]?) : σ'.Holds opened' s := by
  induction h with
  | intro closed cell _ ih =>
    have hlt := (List.getElem?_eq_some_iff.1 cell).1
    exact .intro (hopened _ hlt closed) ((hcells _ hlt closed).trans cell) ih

/-- No way down goes on forever. -/
theorem acc (h : σ.Holds opened s) : Acc (fun n m => σ.Below m n) s.address := by
  induction h with
  | @intro s _ hcell _ ih =>
    refine .intro _ ?_
    rintro n ⟨cell, hfound, hn⟩
    cases hcell.symm.trans hfound
    rw [Schema.parts_cell] at hn
    obtain ⟨t, ht, rfl⟩ := List.mem_map.1 hn
    exact ih t ht

/-- **No way down comes back to where it began.** -/
theorem acyclic (h : σ.Holds opened s) : ¬ Relation.TransGen σ.Below s.address s.address := by
  have hacc := h.acc
  generalize s.address = n at hacc
  induction hacc with
  | intro m _ ih =>
    intro hcycle
    -- the cycle can be begun one step further down
    obtain ⟨n, hstep, hback⟩ := Relation.TransGen.head'_iff.1 hcycle
    exact ih n hstep (Relation.TransGen.tail' hback hstep)

/-! ## Descriptions -/

theorem properties (h : σ.Holds opened s) : ∀ e ∈ s.properties, σ.Holds opened e.2 :=
  (Schema.forall_parts.1 h.parts).1

theorem items (h : σ.Holds opened s) : ∀ t ∈ s.items, σ.Holds opened t := (Schema.forall_parts.1 h.parts).2.1

theorem additional (h : σ.Holds opened s) : ∀ t ∈ s.additional, σ.Holds opened t :=
  (Schema.forall_parts.1 h.parts).2.2.1

theorem members (h : σ.Holds opened s) : ∀ t ∈ s.members, σ.Holds opened t :=
  (Schema.forall_parts.1 h.parts).2.2.2.1

theorem keyType (h : σ.Holds opened s) : ∀ t ∈ s.keyType, σ.Holds opened t :=
  (Schema.forall_parts.1 h.parts).2.2.2.2

/-- The element of a schema is held as well. -/
theorem element (h : σ.Holds opened s) : σ.Holds opened s.element := by
  induction s using Schema.inductionOn with
  | step s _ ihItems ihAdditional =>
    rcases s.element_cases with hs | ⟨t, ht | ht, hs⟩ <;> rw [hs]
    · exact h
    · exact ihItems t ht (h.items t ht)
    · exact ihAdditional t ht (h.additional t ht)

theorem element_succ (h : σ.Holds opened s) (depth : Nat) : σ.element (depth + 1) s.address =
    match s.kind with
    | .array => ofPart s.address (σ.element depth) s.cell.items
    | .map => ofPart s.address (σ.element depth) s.cell.additional
    | _ => some s.address := by
  simp only [Store.element, h.cell, Option.bind_eq_bind, Option.bind_some, Schema.kind_cell]
  rfl

/-- **The element of a node is that of its schema.** -/
theorem settles_element (h : σ.Holds opened s) : Settles (fun depth => σ.element depth s.address) s.element.address := by
  induction s using Schema.inductionOn with
  | step s _ ihItems ihAdditional =>
    refine Settles.of_next ?_ h.element_succ
    rw [Schema.element_eq]
    cases s.kind with
    | array =>
      cases hs : s.items with
      | none => simpa [Schema.cell, hs, ofPart] using Settles.const rfl
      | some t => simpa [Schema.cell, hs, ofPart] using ihItems t hs (h.items t hs)
    | map =>
      cases hs : s.additional with
      | none => simpa [Schema.cell, hs, ofPart] using Settles.const rfl
      | some t => simpa [Schema.cell, hs, ofPart] using ihAdditional t hs (h.additional t hs)
    | _ => exact .const rfl

theorem token_succ (h : σ.Holds opened s) (depth : Nat) : σ.token (depth + 1) s.address =
    match s.kind with
    | .reference => match s.modelType with
      | some m => some m.name
      | none => some (scalarToken s.type)
    | .union => Text.join " | " <$> (s.members.map Schema.address).mapM (σ.token depth)
    | .enum => match s.enum with
      | some (value :: values) => some (Text.join " | " ((value :: values).map Value.literal))
      | _ => some (scalarToken s.type)
    | .array => do
      let items ← ofPart "any" (σ.token depth) (s.items.map Schema.address)
      return "[" ++ items ++ "]"
    | .map => do
      let key ← ofPart "str" (σ.token depth) (s.keyType.map Schema.address)
      let value ← ofPart "any" (σ.token depth) (s.additional.map Schema.address)
      return "\x7b" ++ key ++ ":" ++ value ++ "\x7d"
    | .object => some "dict"
    | .scalar => some (scalarToken s.type) := by
  simp only [Store.token, h.cell, Option.bind_eq_bind, Option.bind_some, Schema.kind_cell]
  rfl

theorem settles_ofPart {α : Type} {f : Nat → Nat → Option α} {r : Schema → α} {part : Option Schema} (absent : α)
    (h : ∀ t ∈ part, Settles (fun depth => f depth t.address) (r t)) :
    Settles (fun depth => ofPart absent (f depth) (part.map Schema.address)) ((part.map r).getD absent) := by
  cases part with
  | none => exact .const rfl
  | some t => exact h t rfl

/-- **The type of a node is written like that of its schema.** -/
theorem settles_token (h : σ.Holds opened s) : Settles (fun depth => σ.token depth s.address) s.token := by
  induction s using Schema.inductionOn with
  | step s _ ihItems ihAdditional ihKeyType ihMembers =>
    refine Settles.of_next ?_ h.token_succ
    rw [Schema.token_eq]
    cases s.kind with
    | reference => cases s.modelType <;> exact .const rfl
    | union => exact (Settles.mapM fun t ht => ihMembers t ht (h.members t ht)).map _
    | enum => rcases s.enum with _ | _ | ⟨value, values⟩ <;> exact .const rfl
    | array =>
      refine (settles_ofPart "any" fun t ht => ihItems t ht (h.items t ht)).bind ?_
      exact .const rfl
    | map =>
      refine (settles_ofPart "str" fun t ht => ihKeyType t ht (h.keyType t ht)).bind ?_
      refine (settles_ofPart "any" fun t ht => ihAdditional t ht (h.additional t ht)).bind ?_
      exact .const rfl
    | object => exact .const rfl
    | scalar => exact .const rfl

section Attributes

variable {ignoreDeprecated : Bool} {link : Nat → Option String}

section Told

variable {told : Nat → Nat → Option (List Attribute)} (required : List String) (name : String)

/-- What is told about an attribute is settled, when what is told below its element is. -/
theorem settles_attributeAt (h : σ.Holds opened t) (htold : Settles (fun depth => told depth t.element.address)
      (t.element.attributes (viewAt ignoreDeprecated link))) :
    Settles (fun depth => σ.attributeAt link depth (told depth) required name t.address)
      (Schema.toAttribute (viewAt ignoreDeprecated link) required name t
        (t.elementAttributes (viewAt ignoreDeprecated link))) := by
  have hchildren : Settles (fun depth => if t.element.cell.kind = .object then told depth t.element.address else some [])
      (t.elementAttributes (viewAt ignoreDeprecated link)) := by
    rw [Schema.elementAttributes_eq, Schema.kind_cell]
    split
    · exact htold
    · exact .const rfl
  refine Settles.bind (.const h.cell) (h.settles_element.bind (Settles.bind (.const h.element.cell) ?_))
  refine hchildren.bind ?_
  refine h.settles_token.bind (.const ?_)
  simp only [Schema.toFacts_cell, Schema.kind_cell]
  rfl

theorem settles_attribute? (h : σ.Holds opened t) (htold : Settles (fun depth => told depth t.element.address)
      (t.element.attributes (viewAt ignoreDeprecated link))) :
    Settles (fun depth => σ.attribute? ignoreDeprecated link depth (told depth) required (name, t.address))
      (Schema.toldOf (viewAt ignoreDeprecated link) required (name, t)) := by
  refine Settles.bind (.const h.cell) ?_
  have hisTold : Schema.isTold (viewAt ignoreDeprecated link) t = !(ignoreDeprecated && t.isDeprecated) := rfl
  rw [Schema.toldOf, hisTold, Schema.toFacts_cell]
  by_cases hleft : (ignoreDeprecated && t.isDeprecated) = true
  · simp only [hleft]
    exact .const rfl
  · simp only [hleft]
    exact (h.settles_attributeAt required name htold).map some

end Told

theorem attributes_succ (h : σ.Holds opened s) (depth : Nat) :
    σ.attributes ignoreDeprecated link (depth + 1) s.address =
      (((Assoc.sortByName (·.1) s.properties).map fun e => (e.1, e.2.address)).mapM
        (σ.attribute? ignoreDeprecated link depth (σ.attributes ignoreDeprecated link depth) s.required)).bind
          fun told => some (told.filterMap id) := by
  simp only [Store.attributes, h.cell, Option.bind_eq_bind, Option.bind_some, Schema.cell, Assoc.sortByName_map,
    Function.comp_def]
  rfl

/-- The attributes are settled, when what is told below them is. -/
theorem settles_attributes_of (h : σ.Holds opened s) (hbelow : ∀ e ∈ s.properties,
      Settles (fun depth => σ.attributes ignoreDeprecated link depth e.2.element.address)
        (e.2.element.attributes (viewAt ignoreDeprecated link))) :
    Settles (fun depth => σ.attributes ignoreDeprecated link depth s.address)
      (s.attributes (viewAt ignoreDeprecated link)) := by
  refine Settles.of_next ?_ h.attributes_succ
  have htold : ∀ e ∈ Assoc.sortByName (·.1) s.properties, Settles (fun depth =>
        σ.attribute? ignoreDeprecated link depth (σ.attributes ignoreDeprecated link depth) s.required
          (e.1, e.2.address))
      (Schema.toldOf (viewAt ignoreDeprecated link) s.required e) := by
    intro e he
    rw [Assoc.mem_sortByName] at he
    exact (h.properties e he).settles_attribute? s.required e.1 (hbelow e he)
  refine Settles.bind (Settles.mapM htold) (.const ?_)
  -- the store is sorted before anything is told, the schema afterwards
  rw [List.filterMap_map, Schema.attributes, Schema.propertyAttributes_eq]
  exact congrArg some (Assoc.filterMap_sortByName (fun _ _ => Schema.name_of_toldOf) s.properties)

/-- **What is told about the attributes of a node is what is told about those of its schema.** -/
theorem settles_attributes (h : σ.Holds opened s) :
    Settles (fun depth => σ.attributes ignoreDeprecated link depth s.address)
    (s.attributes (viewAt ignoreDeprecated link)) := by
  suffices hboth : Settles (fun depth => σ.attributes ignoreDeprecated link depth s.address)
      (s.attributes (viewAt ignoreDeprecated link)) ∧
      Settles (fun depth => σ.attributes ignoreDeprecated link depth s.element.address)
        (s.element.attributes (viewAt ignoreDeprecated link)) from hboth.1
  -- with every schema goes its element, since that is where its inline object is
  induction s using Schema.inductionOn with
  | step s ihProperties ihItems ihAdditional =>
    have hself := h.settles_attributes_of fun e he => (ihProperties e he (h.properties e he)).2
    refine ⟨hself, ?_⟩
    rcases s.element_cases with hs | ⟨t, ht | ht, hs⟩ <;> rw [hs]
    · exact hself
    · exact (ihItems t ht (h.items t ht)).2
    · exact (ihAdditional t ht (h.additional t ht)).2

end Attributes

end Holds

end Store

end Dump

end SchemaDocs
