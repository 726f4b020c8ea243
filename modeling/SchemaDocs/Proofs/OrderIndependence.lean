import SchemaDocs.Proofs.Acceptance
import SchemaDocs.Proofs.Likeness
import SchemaDocs.Proofs.Reordering

/-!
# Independence of the order of keys

The order in which definitions, attributes and examples are listed in a dump does not show. A dump is read depth first
from one reference to the next, so what is known of a schema that refers to itself depends on where the reading began;
but only the names of referred schemas are told, and these are known from the start. So reordered dumps are both
accepted or both rejected, and their documents are the same, in the same order (`documents_of_reordered`).
-/

namespace SchemaDocs.Dump

open Package (schemaAt? segmentsOf)

variable {defaultName : String} {document document' raw raw' : List (Value × Value)} {root root' : Package}
  {placements placements' : List (String × Schema)}

/-- No two definitions land on the same package path and visible name. -/
def Apart (raw : List (Value × Value)) : Prop :=
  ∀ k ∈ keysOf raw, ∀ k' ∈ keysOf raw, Text.splitLast '.' k = Text.splitLast '.' k' → k = k'

theorem Apart.eq_of_place (h : Apart raw) {k k' : String} (hk : k ∈ keysOf raw) (hk' : k' ∈ keysOf raw)
    (hsegments : segmentsOfKey k = segmentsOfKey k') (hvisible : visibleOfKey k = visibleOfKey k') : k = k' :=
  h k hk k' hk' (splitLast_eq_of_place hsegments hvisible)

/-! ## Documents -/

section Documents

variable (h : EntriesReordered Role.ofSection document document')
include h

theorem readInfo_congr : readInfo document = readInfo document' := by
  unfold readInfo field
  rw [h.lookup_data "info" (by decide)]

/-- Both documents have definitions, which are reordered, or none of them has. -/
theorem readDefinitions_cases (hdocument : Value.entriesAreJson document = true)
    (hdocument' : Value.entriesAreJson document' = true) :
    (∃ raw raw', readDefinitions document = .ok raw ∧ readDefinitions document' = .ok raw' ∧
      DefinitionsReordered raw raw') ∨
    ∃ e, readDefinitions document = .error e ∧ readDefinitions document' = .error e := by
  unfold readDefinitions field
  rcases h.lookup "definitions" with ⟨h1, h2⟩ | ⟨v, v', h1, h2, hr⟩
  · rw [h1, h2]
    exact Or.inl ⟨[], [], rfl, rfl, rfl, rfl, [], .nil _, .refl _⟩
  · have hv := Value.isJson_of_lookup hdocument h1
    have hv' := Value.isJson_of_lookup hdocument' h2
    rw [h1, h2]
    rcases Reordered.nodes_cases hr hv with ⟨entries, listed, entries', rfl, rfl, hentries, order⟩ | ⟨rfl, hnot⟩
    · exact Or.inl ⟨entries, entries', rfl, rfl, hv, hv', listed, hentries, order⟩
    · cases v with
      | null => exact Or.inl ⟨[], [], rfl, rfl, rfl, rfl, [], .nil _, .refl _⟩
      | map entries => exact absurd rfl (hnot entries)
      | knot mark inner => simp [Value.isJson] at hv
      | _ => exact Or.inr ⟨_, rfl, rfl⟩

end Documents

/-! ## Placements -/

/-- What is visible in a hierarchy are its placements, when no two of them land on one place. -/
theorem schemaAt?_iff (hkeys : placements.map (·.1) = keysOf raw) (hraw : Value.entriesAreJson raw = true)
    (hapart : Apart raw) {info : List (Value × Value)} {segments : List String} {name : String} {s : Schema} :
    schemaAt? segments name (placeEach placements (emptyRoot defaultName info)) = some s ↔
      ∃ key, (key, s) ∈ placements ∧ segmentsOfKey key = segments ∧ visibleOfKey key = name := by
  have hnodup : (placements.map (·.1)).Nodup := by
    rw [hkeys]
    exact Value.nodup_plain hraw
  have hmem : ∀ {k t}, (k, t) ∈ placements → k ∈ keysOf raw := fun hm => hkeys ▸ List.mem_map_of_mem hm
  refine ⟨mem_of_schemaAt?_placeEach rfl rfl, ?_⟩
  rintro ⟨key, hm, rfl, rfl⟩
  obtain ⟨s', hs⟩ := Option.isSome_iff_exists.1 (isSome_schemaAt?_placeEach hm (emptyRoot defaultName info))
  obtain ⟨key', hm', hsegments, hvisible⟩ := mem_of_schemaAt?_placeEach rfl rfl hs
  have hkey := hapart.eq_of_place (hmem hm') (hmem hm) hsegments hvisible
  subst hkey
  rw [hs, ← Assoc.get?_of_mem hnodup hm', Assoc.get?_of_mem hnodup hm]

/-- The one list has a placement under every key of the other one, with the same outline. -/
def Covered (placements placements' : List (String × Schema)) : Prop :=
  ∀ key s, (key, s) ∈ placements → ∃ s', (key, s') ∈ placements' ∧ s'.outline = s.outline

theorem map_outline_of_covered (hkeys : placements.map (·.1) = keysOf raw)
    (hkeys' : placements'.map (·.1) = keysOf raw') (hraw : Value.entriesAreJson raw = true)
    (hraw' : Value.entriesAreJson raw' = true) (hapart : Apart raw) (hapart' : Apart raw')
    (hcovered : Covered placements placements') {info info' : List (Value × Value)} {segments : List String}
    {name : String} {o : Schema}
    (h : (schemaAt? segments name (placeEach placements (emptyRoot defaultName info))).map Schema.outline = some o) :
    (schemaAt? segments name (placeEach placements' (emptyRoot defaultName info'))).map Schema.outline = some o := by
  rw [Option.map_eq_some_iff] at h ⊢
  obtain ⟨s, hs, rfl⟩ := h
  obtain ⟨key, hm, hplace⟩ := (schemaAt?_iff hkeys hraw hapart).1 hs
  obtain ⟨s', hm', houtline⟩ := hcovered key s hm
  exact ⟨s', (schemaAt?_iff hkeys' hraw' hapart').2 ⟨key, hm', hplace⟩, houtline⟩

/-- The placement of a definition has the outline of its description. -/
def PlacedAsDescribed (raw : List (Value × Value)) (placements : List (String × Schema)) : Prop :=
  ∀ e ∈ placements, ∃ fields o, Value.lookup e.1 raw = some (.map fields) ∧
    describeDefinition raw e.1 fields = .ok o ∧ e.2.outline = o.outline

theorem covered_of_described (hsame : ∀ name, SameDefinition raw raw' name)
    (hd : PlacedAsDescribed raw placements) (hd' : PlacedAsDescribed raw' placements')
    (hkeys : placements.map (·.1) = keysOf raw) (hkeys' : placements'.map (·.1) = keysOf raw')
    (hperm : (keysOf raw).Perm (keysOf raw')) : Covered placements placements' := by
  intro key s hm
  have hkey : key ∈ placements'.map (·.1) := by
    rw [hkeys', ← hperm.mem_iff, ← hkeys]
    exact List.mem_map_of_mem hm
  obtain ⟨⟨_, s'⟩, hm', rfl⟩ := List.mem_map.1 hkey
  obtain ⟨fields, o, hl, ho, houtline⟩ := hd _ hm
  obtain ⟨fields', o', hl', ho', houtline'⟩ := hd' _ hm'
  have heq := ((hsame _).sameOk hl hl' o).1 ho
  cases ho'.symm.trans heq
  exact ⟨s', hm', houtline'.trans houtline.symm⟩

/-- **The hierarchies of reordered dumps look alike.** -/
theorem alike_of_reordered (hdocument : Value.entriesAreJson document = true)
    (hdocument' : Value.entriesAreJson document' = true) (h : EntriesReordered Role.ofSection document document')
    (hapart : ∀ raw, readDefinitions document = .ok raw → Apart raw) (hroot : packageOf defaultName document = .ok root)
    (hroot' : packageOf defaultName document' = .ok root') : Alike root root' := by
  obtain ⟨info, raw, placements, hinfo, hr, -, hkeys, hplaced, rfl⟩ := placements_of_packageOf hdocument hroot
  obtain ⟨info', raw', placements', hinfo', hr', -, hkeys', hplaced', rfl⟩ := placements_of_packageOf hdocument' hroot'
  have hapart := hapart raw hr
  rw [readInfo_congr h, hinfo'] at hinfo
  cases hinfo
  rcases readDefinitions_cases h hdocument hdocument' with ⟨_, _, h1, h2, hdefs⟩ | ⟨_, h1, -⟩
  · cases h1.symm.trans hr
    cases h2.symm.trans hr'
    have hperm := hdefs.keysOf_perm
    have hapart' : Apart raw' := fun k hk k' hk' => hapart k (hperm.mem_iff.2 hk) k' (hperm.mem_iff.2 hk')
    have hcovered := covered_of_described hdefs.definition hplaced hplaced' hkeys hkeys' hperm
    have hcovered' := covered_of_described (fun name => (hdefs.definition name).symm) hplaced' hplaced hkeys' hkeys
      hperm.symm
    refine ⟨?_, ?_, fun segments => ?_, fun segments name => Option.ext fun o => ⟨?_, ?_⟩⟩
    · rw [(placeEach_root _ _).1, (placeEach_root _ _).1]
    · rw [(placeEach_root _ _).2, (placeEach_root _ _).2]
    · rw [Bool.eq_iff_iff, find?_isSome_iff hkeys, find?_isSome_iff hkeys']
      simp only [hperm.mem_iff]
    · exact map_outline_of_covered hkeys hkeys' hdefs.isJson hdefs.isJson' hapart hapart' hcovered
    · exact map_outline_of_covered hkeys' hkeys hdefs.isJson' hdefs.isJson hapart' hapart hcovered'
  · simp [h1] at hr

/-- **Reordered dumps are both accepted or both rejected.** -/
theorem accepted_of_reordered (hdocument : Value.entriesAreJson document = true)
    (hdocument' : Value.entriesAreJson document' = true) (h : EntriesReordered Role.ofSection document document') :
    (∃ root, packageOf defaultName document = .ok root) ↔ ∃ root, packageOf defaultName document' = .ok root := by
  rw [packageOf_isOk_iff hdocument, packageOf_isOk_iff hdocument', readInfo_congr h]
  rcases readDefinitions_cases h hdocument hdocument' with ⟨raw, raw', h1, h2, hdefs⟩ | ⟨e, h1, h2⟩
  · simp only [h1, h2, Except.ok.injEq, exists_and_left, exists_eq_left', hdefs.allGood_iff, hdefs.keysOf_perm.mem_iff]
  · simp [h1, h2]

/-- **Reordered dumps are both accepted or both rejected, and their documents are the same, in the same order**, in every
format, on every platform and with all options. -/
theorem documents_of_reordered (hdocument : Value.entriesAreJson document = true)
    (hdocument' : Value.entriesAreJson document' = true) (h : EntriesReordered Role.ofSection document document')
    (hapart : ∀ raw, readDefinitions document = .ok raw → Apart raw) (defaultName : String) :
    ((∃ root, packageOf defaultName document = .ok root) ↔ ∃ root, packageOf defaultName document' = .ok root) ∧
    ∀ root root', packageOf defaultName document = .ok root → packageOf defaultName document' = .ok root' →
      ∃ plan plan', ImportPlan.ofPackage? root = some plan ∧ ImportPlan.ofPackage? root' = some plan' ∧
        ∀ o : Options, ∃ documents, plan.documents o root = .ok documents ∧ plan'.documents o root' = .ok documents := by
  refine ⟨accepted_of_reordered hdocument hdocument' h, fun root root' hroot hroot' => ?_⟩
  obtain ⟨raw, -, hholds⟩ := holds_of_packageOf hroot
  obtain ⟨raw', -, hholds'⟩ := holds_of_packageOf hroot'
  obtain ⟨plan, hplan, -, hrun⟩ := ImportPlan.exists_run hholds
  obtain ⟨plan', hplan', -, hrun'⟩ := ImportPlan.exists_run hholds'
  have halike := alike_of_reordered hdocument hdocument' h hapart hroot hroot'
  refine ⟨plan, plan', hplan, hplan', fun o => ⟨_, ImportPlan.documents_eq hrun, ?_⟩⟩
  rw [ImportPlan.documents_eq hrun', ImportPlan.pages_eq hrun hrun' halike o]

/-! ## A cycle -/

/-- A dump in which two definitions refer to each other. -/
def cyclic : List (Value × Value) :=
  [(.str "definitions", .map [
    (.str "base.Left", declaredIn "base" "Left" [
      (.str "properties", .map [
        (.str "size", .map [(.str "type", .str "integer")]),
        (.str "right", .map [(.str "$ref", .str "#/definitions/base.Right")])]),
      (.str "examples", .map [
        (.str "b", .map [(.str "value", .str "2")]), (.str "a", .map [(.str "value", .str "1")])])]),
    (.str "base.Right", declaredIn "base" "Right" [
      (.str "properties", .map [(.str "left", .map [(.str "$ref", .str "#/definitions/base.Left")])])])])]

/-- The same dump with its definitions, attributes and examples in another order. -/
def cyclicReordered : List (Value × Value) :=
  [(.str "definitions", .map [
    (.str "base.Right", declaredIn "base" "Right" [
      (.str "properties", .map [(.str "left", .map [(.str "$ref", .str "#/definitions/base.Left")])])]),
    (.str "base.Left", declaredIn "base" "Left" [
      (.str "properties", .map [
        (.str "right", .map [(.str "$ref", .str "#/definitions/base.Right")]),
        (.str "size", .map [(.str "type", .str "integer")])]),
      (.str "examples", .map [
        (.str "a", .map [(.str "value", .str "1")]), (.str "b", .map [(.str "value", .str "2")])])])])]

theorem reordered_cyclic : EntriesReordered Role.ofSection cyclic cyclicReordered := by
  refine .cons (.nodes (.cons (.node ?_) (.cons (.same _ _) (.nil _))) (.swap _ _ _)) (.nil _)
  refine .cons (.same _ _) (.cons (.nodes (.refl _ (by decide)) (.swap _ _ _)) (.cons (.examples (.swap _ _ _)) (.nil _)))

theorem apart_cyclic : ∀ raw, readDefinitions cyclic = .ok raw → Apart raw := by
  intro raw h
  have hraw := Except.ok.inj h
  subst hraw
  unfold Apart
  decide

theorem documents_of_cyclic : ∃ root root', packageOf "main" cyclic = .ok root ∧
    packageOf "main" cyclicReordered = .ok root' ∧ ∃ plan plan', ImportPlan.ofPackage? root = some plan ∧
      ImportPlan.ofPackage? root' = some plan' ∧
      ∀ o : Options, ∃ documents, plan.documents o root = .ok documents ∧ plan'.documents o root' = .ok documents := by
  have hboth := documents_of_reordered (by decide) (by decide) reordered_cyclic apart_cyclic "main"
  obtain ⟨root, h⟩ := exists_ok_of_isOk (by decide +kernel : (packageOf "main" cyclic).isOk = true)
  obtain ⟨root', h'⟩ := hboth.1.1 ⟨root, h⟩
  exact ⟨root, root', h, h', hboth.2 root root' h h'⟩

end SchemaDocs.Dump
