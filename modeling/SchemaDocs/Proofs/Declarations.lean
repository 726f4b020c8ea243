import SchemaDocs.Package.Imports
import SchemaDocs.Proofs.Tree

/-!
# The declarations of a package hierarchy

The declarations of a placed hierarchy are listed by position: first the segments of the package, then the
visible name, both strictly increasing (`Inventory.located`). So no two declarations stand in one place, which is
what lets a comparison of locations replace the identity of declarations.
-/

namespace SchemaDocs

open Package (Placed segmentsOf pathOf IsSegment)

namespace Declaration

/-- The declaration stands before another one: in an earlier package, or in the same one under a smaller name. -/
def Before (d e : Declaration) : Prop :=
  segmentsOf d.path < segmentsOf e.path ∨ d.path = e.path ∧ d.name < e.name

theorem sameLocation_iff {d e : Declaration} : d.sameLocation e = true ↔ d.path = e.path ∧ d.name = e.name := by
  simp [sameLocation]

theorem Before.not_sameLocation {d e : Declaration} (h : d.Before e) : ¬ (d.path = e.path ∧ d.name = e.name) := by
  rintro ⟨hp, hn⟩
  rcases h with h | ⟨-, h⟩
  · rw [hp] at h
    exact List.lt_irrefl _ h
  · rw [hn] at h
    exact String.lt_irrefl _ h

theorem Before.asymm {d e : Declaration} (h : d.Before e) : ¬ e.Before d := by
  intro h'
  rcases h with h | ⟨hp, h⟩ <;> rcases h' with h' | ⟨hp', h'⟩
  · exact List.lt_asymm h h'
  · rw [hp'] at h
    exact List.lt_irrefl _ h
  · rw [hp] at h'
    exact List.lt_irrefl _ h'
  · exact String.lt_asymm h h'

end Declaration

/-- The declarations of a run: listed by position, numbered in that order, and each with the origin of its
schema. -/
structure Inventory (declarations : List Declaration) : Prop where
  ordered : declarations.Pairwise fun d e => d.order < e.order
  located : declarations.Pairwise Declaration.Before
  origins : ∀ d ∈ declarations, d.schema.modelType.map ModelType.origin = some d.origin

namespace Inventory

variable {declarations : List Declaration} {d e : Declaration}

/-- Declarations of a run with one position are one declaration. -/
theorem eq_of_order (h : Inventory declarations) (hd : d ∈ declarations) (he : e ∈ declarations)
    (ho : d.order = e.order) : d = e := by
  rcases Assoc.eq_or_rel_of_pairwise h.ordered hd he with h | h | h
  · exact h
  · omega
  · omega

/-- Declarations of a run in one place are one declaration. -/
theorem eq_of_location (h : Inventory declarations) (hd : d ∈ declarations) (he : e ∈ declarations)
    (hp : d.path = e.path) (hn : d.name = e.name) : d = e := by
  rcases Assoc.eq_or_rel_of_pairwise h.located hd he with h | h | h
  · exact h
  · exact absurd ⟨hp, hn⟩ h.not_sameLocation
  · exact absurd ⟨hp.symm, hn.symm⟩ h.not_sameLocation

/-- The declaration of a schema with a model type has the origin that the model type tells. -/
theorem origin_eq (h : Inventory declarations) (hd : d ∈ declarations) :
    ∃ m, d.schema.modelType = some m ∧ d.origin = m.origin := by
  have := h.origins d hd
  rw [Option.map_eq_some_iff] at this
  obtain ⟨m, hm, ho⟩ := this
  exact ⟨m, hm, ho.symm⟩

end Inventory

namespace Package

/-- What `declarationsFrom?` keeps of the schemas it is given. -/
theorem of_declarationsFrom? : ∀ {visibles : List (String × String × Schema)} {order : Nat}
    {declarations : List Declaration}, declarationsFrom? order visibles = some declarations →
      declarations.map (fun d => (d.path, d.name, d.schema)) = visibles ∧
      declarations.map (·.order) = List.range' order visibles.length ∧
      ∀ d ∈ declarations, d.schema.modelType.map ModelType.origin = some d.origin
  | [], order, declarations, h => by
    cases h
    simp
  | (path, name, schema) :: rest, order, declarations, h => by
    simp only [declarationsFrom?, Option.bind_eq_bind, Option.bind_eq_some_iff, Option.pure_def,
      Option.some.injEq] at h
    obtain ⟨m, hm, below, hb, rfl⟩ := h
    obtain ⟨h1, h2, h3⟩ := of_declarationsFrom? hb
    refine ⟨by simp [h1], by simp [h2, List.range'_succ], fun d hd => ?_⟩
    rcases List.mem_cons.1 hd with rfl | hd
    · simp [hm]
    · exact h3 d hd

/-- **The declarations of a hierarchy are numbered by their positions in the listing.** -/
theorem orders_of_declarations? {root : Package} {declarations : List Declaration}
    (h : root.declarations? = some declarations) : declarations.map (·.order) = List.range declarations.length := by
  obtain ⟨hmap, horders, -⟩ := of_declarationsFrom? h
  rw [horders, ← hmap, List.length_map, List.range_eq_range']

theorem declarationsFrom?_isSome : ∀ {visibles : List (String × String × Schema)} (order : Nat),
    (∀ v ∈ visibles, v.2.2.modelType.isSome) → (declarationsFrom? order visibles).isSome
  | [], _, _ => rfl
  | (path, name, schema) :: rest, order, h => by
    obtain ⟨m, hm⟩ := Option.isSome_iff_exists.1 (h _ List.mem_cons_self)
    obtain ⟨below, hb⟩ := Option.isSome_iff_exists.1
      (declarationsFrom?_isSome (order + 1) fun v hv => h v (List.mem_cons_of_mem _ hv))
    simp only at hm
    simp [declarationsFrom?, hm, hb]

/-- The visible schemas of a hierarchy are those that looking up finds. -/
theorem mem_visibles_iff {root : Package} (h : Placed [] root) {path name : String} {schema : Schema} :
    (path, name, schema) ∈ root.walk.flatMap visibleSchemas ↔
      ∃ segments, path = pathOf segments ∧ schemaAt? segments name root = some schema := by
  simp only [List.mem_flatMap, visibleSchemas, List.mem_map, Assoc.mem_sortByName, Prod.mk.injEq, schemaAt?,
    Option.bind_eq_some_iff]
  constructor
  · rintro ⟨q, hq, ⟨n, s⟩, hs, rfl, rfl, rfl⟩
    obtain ⟨segments, hf, hplaced, -⟩ := h.of_mem_walk hq
    exact ⟨segments, by simpa using hplaced.path_eq, q, hf, Assoc.get?_of_mem hplaced.nodup_schemas hs⟩
  · rintro ⟨segments, rfl, q, hf, hs⟩
    exact ⟨q, h.mem_walk_iff.2 ⟨segments, hf⟩, (name, schema), Assoc.mem_of_get? hs,
      by simpa using (h.find? hf).1.path_eq, rfl, rfl⟩

section Listed

variable {root : Package} {declarations : List Declaration} (h : Placed [] root)
  (hlisted : declarations.map (fun d => (d.path, d.name, d.schema)) = root.walk.flatMap visibleSchemas)
include h hlisted

/-- A declaration is visible where it says. -/
theorem visible_of_declared {d : Declaration} (hd : d ∈ declarations) :
    ∃ segments, d.path = pathOf segments ∧ schemaAt? segments d.name root = some d.schema := by
  rw [← mem_visibles_iff h, ← hlisted]
  exact List.mem_map_of_mem hd

/-- Everything that is visible is declared. -/
theorem exists_declared {segments : List String} {name : String} {schema : Schema}
    (hs : schemaAt? segments name root = some schema) :
    ∃ d ∈ declarations, d.path = pathOf segments ∧ d.name = name ∧ d.schema = schema := by
  have hm := (mem_visibles_iff h).2 ⟨segments, rfl, hs⟩
  rw [← hlisted, List.mem_map] at hm
  obtain ⟨d, hd, he⟩ := hm
  simp only [Prod.mk.injEq] at he
  exact ⟨d, hd, he⟩

end Listed

/-- **The visible schemas are listed by position**, so no two of them stand in one place. -/
theorem visibles_pairwise {root : Package} (h : Placed [] root) :
    (root.walk.flatMap visibleSchemas).Pairwise fun v w =>
      segmentsOf v.1 < segmentsOf w.1 ∨ v.1 = w.1 ∧ v.2.1 < w.2.1 := by
  rw [List.pairwise_flatMap]
  constructor
  · intro q hq
    obtain ⟨segments, -, hplaced, -⟩ := h.of_mem_walk hq
    rw [visibleSchemas, List.pairwise_map]
    exact (Assoc.sortByName_pairwise _ hplaced.nodup_schemas).imp fun hlt => Or.inr ⟨rfl, hlt⟩
  · refine (h.walk_pairwise (by simp)).imp fun hlt v hv w hw => Or.inl ?_
    simp only [visibleSchemas, List.mem_map] at hv hw
    obtain ⟨_, -, rfl⟩ := hv
    obtain ⟨_, -, rfl⟩ := hw
    exact hlt

/-- The declarations of a placed hierarchy whose schemas are all named. -/
theorem exists_inventory {root : Package} (h : Placed [] root)
    (hn : ∀ segments name schema, schemaAt? segments name root = some schema → schema.modelType.isSome) :
    ∃ declarations, root.declarations? = some declarations ∧ Inventory declarations ∧
      declarations.map (fun d => (d.path, d.name, d.schema)) = root.walk.flatMap visibleSchemas := by
  have hsome : root.declarations?.isSome := declarationsFrom?_isSome 0 fun ⟨path, name, schema⟩ hv => by
    obtain ⟨segments, -, hs⟩ := (mem_visibles_iff h).1 hv
    exact hn segments name schema hs
  obtain ⟨declarations, hd⟩ := Option.isSome_iff_exists.1 hsome
  obtain ⟨hmap, horder, horigin⟩ := of_declarationsFrom? hd
  have hlocated := visibles_pairwise h
  rw [← hmap, List.pairwise_map] at hlocated
  have hordered : (declarations.map (·.order)).Pairwise (· < ·) := by
    rw [horder]
    exact List.pairwise_lt_range'
  exact ⟨declarations, hd, ⟨List.pairwise_map.1 hordered, hlocated, horigin⟩, hmap⟩

end Package

end SchemaDocs
