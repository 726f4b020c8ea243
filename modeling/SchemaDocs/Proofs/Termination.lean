import SchemaDocs.Proofs.CallDepth
import SchemaDocs.Proofs.StoreReading

/-!
# Reading and describing come to an end

However the definitions of a JSON document refer to each other, and whatever else they hold, every query is answered
with a node or with an error, and it is the answer of the schemas. The nodes that have been made by then form no cycle,
and what is to be told about each of them is told (`Reached.terminates`). Reading ends since every definition is entered
once, and the values in it are smaller than the one they lie in. There are no cycles since a reference to a node that is
still being filled gives a copy of it, so that every node refers only to nodes that have been completed before it.
-/

namespace SchemaDocs.Dump

/-- What a dump is asked for: the node of a definition, or the node that a raw value at a location is read as. -/
inductive Query
  | definition (name : String)
  | node (value : Value) (location : String)

namespace Query

/-- The value that is asked for is one of a JSON document. -/
def isJson : Query → Bool
  | definition _ => true
  | node value _ => value.isJson

def schema (raw : List (Value × Value)) : Query → Reading Schema
  | definition name => (definitionsOf raw).resolve name
  | node value location => (rawNode (definitionsOf raw) value).read location

/-- The address of the node that is the answer, if calls may go to a depth. -/
def address (raw : List (Value × Value)) (depth : Nat) : Query → Storing Nat
  | definition name => (readersWithin raw depth).resolve name
  | node value location => (readersWithin raw depth).parse value location

end Query

/-- A store in which some queries have been answered one after another, and the state of the reading of schemas after
the same queries. -/
inductive Reached (raw : List (Value × Value)) : Store → Progress → Prop
  | start : Reached raw {} {}
  | next {σ σ' : Store} {p p' : Progress} {query : Query} {s : Schema} {n : Nat} (reached : Reached raw σ p)
    (json : query.isJson = true) (schema : query.schema raw p = .ok (s, p'))
    (address : Settles (fun depth => query.address raw depth σ) (.ok (n, σ'))) : Reached raw σ' p'

/-- The node of the schema stands at its address, and all that is told about it is told about the schema. -/
structure Store.Tells (σ : Store) (s : Schema) : Prop where
  cell : σ.cells[s.address]? = some s.cell
  element : Settles (fun depth => σ.element depth s.address) s.element.address
  token : Settles (fun depth => σ.token depth s.address) s.token
  attributes : ∀ ignoreDeprecated link, Settles (fun depth => σ.attributes ignoreDeprecated link depth s.address)
    (s.attributes (Store.viewAt ignoreDeprecated link))

/-- Reading and describing come to an end: every query is answered, there are no cycles, and of every node, and so of
those below it, everything is told. -/
structure Terminates (raw : List (Value × Value)) (σ : Store) (p : Progress) : Prop where
  answered : ∀ query : Query, query.isJson = true → match query.schema raw p with
    | .error e => Settles (fun depth => query.address raw depth σ) (.error e)
    | .ok (s, p') => ∃ σ', Settles (fun depth => query.address raw depth σ) (.ok (s.address, σ')) ∧ Reached raw σ' p' ∧
      σ'.Tells s
  acyclic : ∀ n, ¬ Relation.TransGen σ.Below n n
  inside : ∀ m n, σ.Below m n → n < σ.cells.length
  told : ∀ n < σ.cells.length, ∃ s : Schema, s.address = n ∧ σ.Tells s

section Queries

variable {raw : List (Value × Value)} {levels : Nat} {opened : List Nat} {σ : Store} {p : Progress} {s : Schema}

theorem Store.Holds.tells (h : σ.Holds opened s) : σ.Tells s :=
  ⟨h.cell, h.settles_element, h.settles_token, fun _ _ => h.settles_attributes⟩

/-- Nothing has been read. -/
theorem Backs.nothing (raw : List (Value × Value)) : Backs raw raw.length [] {} {} where
  count := rfl
  definitions _ := rfl
  distinct := nofun
  stored := nofun
  held _ hn := absurd hn (Nat.not_lt_zero _)
  opened := nofun
  nodup := List.nodup_nil
  keys := List.nil_subset _
  room := Nat.le_refl _

/-- No cycle leads through nodes of which none is opened. -/
theorem Backs.acyclic (h : Backs raw levels [] σ p) (n : Nat) : ¬ Relation.TransGen σ.Below n n := by
  intro hcycle
  obtain ⟨_, ⟨cell, hcell, -⟩, -⟩ := Relation.TransGen.head'_iff.1 hcycle
  obtain ⟨s, rfl, hs⟩ := h.held n (List.getElem?_eq_some_iff.1 hcell).1 List.not_mem_nil
  exact hs.acyclic hcycle

/-- What is below a node is a node of the store. -/
theorem Backs.inside (h : Backs raw levels [] σ p) (m n : Nat) (hbelow : σ.Below m n) : n < σ.cells.length := by
  obtain ⟨cell, hcell, hn⟩ := hbelow
  obtain ⟨s, rfl, hs⟩ := h.held m (List.getElem?_eq_some_iff.1 hcell).1 List.not_mem_nil
  cases hs.cell.symm.trans hcell
  rw [Schema.parts_cell] at hn
  obtain ⟨t, ht, rfl⟩ := List.mem_map.1 hn
  exact (List.getElem?_eq_some_iff.1 (hs.parts t ht).cell).1

variable (hraw : Value.entriesAreJson raw = true) {query : Query} (hquery : query.isJson = true)
include hraw hquery

/-- With calls that may go deep enough, a query is answered with the address of the schema that is the answer. -/
theorem Query.exists_matches (h : Backs raw raw.length [] σ p) : ∃ depth,
    Matches (query.schema raw) (query.address raw depth) p σ fun s p' n σ' =>
      n = s.address ∧ Backs raw raw.length [] σ' p' ∧ σ'.Holds [] s := by
  have hresolve := resolvesAlong hraw raw.length
  cases query with
  | definition name =>
    refine ⟨_, (hresolve _ (Nat.le_refl _) [] σ p name h).mono ?_⟩
    rintro s p' n σ' ⟨rfl, hb, -, hs⟩
    exact ⟨rfl, hb, hs.holds List.not_mem_nil⟩
  | node value location =>
    refine ⟨_, (goesAlong_parse hresolve _ hquery (Nat.le_refl _) location σ p h).mono ?_⟩
    rintro s p' n σ' ⟨rfl, hb, -, hheld⟩
    exact ⟨rfl, hb, List.forall_mem_singleton.1 hheld⟩

/-- What a query is answered with is settled. -/
theorem Query.settles (h : Backs raw raw.length [] σ p) : match query.schema raw p with
    | .error e => Settles (fun depth => query.address raw depth σ) (.error e)
    | .ok (s, p') => ∃ σ', Settles (fun depth => query.address raw depth σ) (.ok (s.address, σ')) ∧
      Backs raw raw.length [] σ' p' ∧ σ'.Holds [] s := by
  have hmono {depth depth' : Nat} (hle : depth ≤ depth') :
      (query.address raw depth).Under (query.address raw depth') := by
    cases query with
    | definition name => exact (readersWithin_mono raw hle).resolve name
    | node value location => exact (readersWithin_mono raw hle).parse value location
  obtain ⟨depth, hmatches⟩ := query.exists_matches hraw hquery h
  unfold Matches at hmatches
  cases hschema : query.schema raw p with
  | error e =>
    rw [hschema] at hmatches
    exact .of_under hmono hmatches
  | ok answer =>
    rw [hschema] at hmatches
    obtain ⟨n, σ', hrun, rfl, hb, hs⟩ := hmatches
    exact ⟨σ', .of_under hmono hrun, hb, hs⟩

end Queries

section Main

variable {raw : List (Value × Value)} {σ : Store} {p : Progress}

/-- Between two queries the store is in the state that the schemas have been read to. -/
theorem Reached.backs (hraw : Value.entriesAreJson raw = true) (h : Reached raw σ p) : Backs raw raw.length [] σ p := by
  induction h with
  | start => exact .nothing raw
  | next _ hquery hschema haddress ih =>
    have hsettles := Query.settles hraw hquery ih
    rw [hschema] at hsettles
    obtain ⟨σ'', hsettled, hb, -⟩ := hsettles
    cases haddress.unique hsettled
    exact hb

/-- **However definitions refer to each other, reading and describing come to an end**, with the nodes and errors of the
schemas, and without cycles. -/
theorem Reached.terminates (hraw : Value.entriesAreJson raw = true) (h : Reached raw σ p) : Terminates raw σ p := by
  have hbacks := h.backs hraw
  refine ⟨fun query hquery => ?_, hbacks.acyclic, hbacks.inside, fun n hn => ?_⟩
  · have hsettles := Query.settles hraw hquery hbacks
    cases hschema : query.schema raw p with
    | error e =>
      rw [hschema] at hsettles
      exact hsettles
    | ok answer =>
      rw [hschema] at hsettles
      obtain ⟨σ', hsettled, -, hs⟩ := hsettles
      exact ⟨σ', hsettled, .next h hquery hschema hsettled, hs.tells⟩
  · obtain ⟨s, hs, hheld⟩ := hbacks.held n hn List.not_mem_nil
    exact ⟨s, hs, hheld.tells⟩

/-- Where the answer is a schema, its node is in the store. -/
theorem Terminates.node {p' : Progress} {query : Query} {s : Schema} (h : Terminates raw σ p)
    (hquery : query.isJson = true) (hschema : query.schema raw p = .ok (s, p')) : ∃ σ',
      Settles (fun depth => query.address raw depth σ) (.ok (s.address, σ')) ∧ Reached raw σ' p' ∧ σ'.Tells s := by
  have hanswered := h.answered query hquery
  rw [hschema] at hanswered
  exact hanswered

/-- Two definitions that refer to each other, and the first one to itself; neither of them has a model type. -/
def entwined : List (Value × Value) := [
  (.str "a", .map [(.str "properties", .map [
    (.str "b", .map [(.str "$ref", .str "#/definitions/b")]),
    (.str "others", .map [(.str "type", .str "array"),
      (.str "items", .map [(.str "$ref", .str "#/definitions/a")])])])]),
  (.str "b", .map [(.str "properties", .map [(.str "a", .map [(.str "$ref", .str "#/definitions/a")])])])]

theorem terminates_entwined : Value.entriesAreJson entwined = true ∧ ∃ σ p told, Reached entwined σ p ∧
    Settles (fun depth => (readersWithin entwined depth).resolve "a" {}) (.ok (0, σ)) ∧
    Terminates entwined σ p ∧ Settles (fun depth => σ.attributes false (fun _ => none) depth 0) told ∧
    told.map (fun a => (a.name, a.token)) = [("b", "dict"), ("others", "[any]")] := by
  have hraw : Value.entriesAreJson entwined = true := by decide
  have hcomputed : ((Query.definition "a").schema entwined {}).toOption.map (fun answer =>
      (answer.1.address, (answer.1.attributes (Store.viewAt false fun _ => none)).map fun a => (a.name, a.token))) =
      some (0, [("b", "dict"), ("others", "[any]")]) := by decide +kernel
  obtain ⟨⟨s, p⟩, hanswer, hs⟩ := Option.map_eq_some_iff.1 hcomputed
  obtain ⟨haddress, htold⟩ := Prod.mk.inj hs
  obtain ⟨σ, hsettled, hreached, htells⟩ := (Reached.start.terminates hraw).node rfl (toOption_eq_some.1 hanswer)
  have hattributes := htells.attributes false fun _ => none
  rw [haddress] at hsettled hattributes
  exact ⟨hraw, σ, p, _, hreached, hsettled, hreached.terminates hraw, hattributes, htold⟩

end Main

end SchemaDocs.Dump
