import SchemaDocs.Command.Execute
import SchemaDocs.Proofs.Canonical

/-!
# The keys of definitions

A key is split at its last dot into the path of a package and a visible name. Unless the key begins with a dot, the two
give the key back (`Declaration.IsAt.identifier`), so no two keys lead to one place (`eq_of_place_eq`). Then no
definition of an accepted dump is lost: keys and declarations correspond one to one, and under each key the schema is
found that was read from the definition (`corresponds_of_packageOf`). A key such as `.A` has an empty package path,
which stands for the root, so it leads to the place of `A` and takes it over (`lost_of_shadowed`).
-/

namespace SchemaDocs

namespace Declaration

variable {d : Declaration} {key : String}

/-- The declaration stands where the key of a definition leads. -/
def IsAt (d : Declaration) (key : String) : Prop :=
  d.path = (Text.splitLast '.' key).1 ∧ d.name = (Text.splitLast '.' key).2

/-- **The identifier of a declaration is the key that leads to it**, unless the key begins with a dot. -/
theorem IsAt.identifier (h : d.IsAt key) (hdot : key.toList.head? ≠ some '.') : d.identifier = key := by
  rw [Declaration.identifier, h.1, h.2]
  rcases Text.splitLast_cases '.' key with ⟨-, hsplit⟩ | hkey
  · simp [hsplit]
  · split
    · rename_i hempty
      rw [String.isEmpty_iff] at hempty
      rw [hkey, hempty] at hdot
      simp at hdot
    · exact hkey.symm

end Declaration

namespace Dump

open Package (schemaAt? pathOf)

variable {raw entries : List (Value × Value)} {p p' : Progress} {placements : List (String × Schema)} {key : String}
  {s : Schema}

/-- The schemas that have been read in full have been read from the definitions under their keys. -/
def parsedTracked (raw : List (Value × Value)) : Tracking raw where
  Node _ _ _ := True
  Part _ _ _ := True
  Whole _ key s := ParsedFrom raw key s
  node_grows _ h := h
  part_grows _ h := h
  whole_grows _ h := h
  node_knot h := h
  node_written _ _ _ _ := trivial
  node_reference _ _ _ _ := trivial
  part_read _ _ := trivial
  whole_read _ _ _ _ h := h

/-- What is in the table is what a key resolves to. -/
theorem resolve_of_known (h : Assoc.get? key p.table = some s) : (definitionsOf raw).resolve key p = .ok (s, p) :=
  resolveWithin_of_known h

/-- The schema of an accepted definition is what its key resolves to in the end, and it has been read from the
definition. -/
theorem Accepted.parsed (h : Accepted raw raw {} placements p) (hs : (key, s) ∈ placements) :
    (definitionsOf raw).resolve key p = .ok (s, p) ∧ ParsedFrom raw key s := by
  obtain ⟨w, hp, -, htable⟩ := h.tracked (parsedTracked raw) (parsedTracked raw).stands_empty
  have hknown := htable _ hs
  exact ⟨resolve_of_known hknown, hp.whole hknown (by simp)⟩

/-- Keys that do not begin with a dot lead to different places. -/
theorem eq_of_place_eq {key key' : String} (h : key.toList.head? ≠ some '.') (h' : key'.toList.head? ≠ some '.')
    (hs : segmentsOfKey key = segmentsOfKey key') (hv : visibleOfKey key = visibleOfKey key') : key = key' :=
  Text.splitLast_inj h h' (splitLast_eq_of_place hs hv)

theorem findSchema_ok {root : Package} : Command.findSchema root key = .ok s ↔
    schemaAt? (segmentsOfKey key) (visibleOfKey key) root = some s := by
  unfold Command.findSchema schemaAt? segmentsOfKey visibleOfKey
  dsimp only
  cases root.find? (Package.segmentsOf (Text.splitLast '.' key).1) with
  | none => simp
  | some p =>
    dsimp only [Option.bind_some]
    cases Assoc.get? (Text.splitLast '.' key).2 p.schemas <;> simp

def NoLeadingDot (raw : List (Value × Value)) : Prop := ∀ key ∈ keysOf raw, key.toList.head? ≠ some '.'

instance : Decidable (NoLeadingDot raw) := inferInstanceAs (Decidable (∀ key ∈ keysOf raw, _))

/-- The declaration is that of the definition under the key, read to the end of the dump. -/
structure Declares (raw : List (Value × Value)) (last : Progress) (key : String) (d : Declaration) : Prop where
  identifier : d.identifier = key
  resolved : (definitionsOf raw).resolve key last = .ok (d.schema, last)
  parsed : ParsedFrom raw key d.schema

/-- Two schemas of accepted definitions under one key are the same. -/
theorem Accepted.eq_of_mem (h : Accepted raw raw {} placements p) {t : Schema} (hs : (key, s) ∈ placements)
    (ht : (key, t) ∈ placements) : s = t := by
  have hresolve := (h.parsed hs).1
  rw [(h.parsed ht).1] at hresolve
  exact (Prod.mk.inj (Except.ok.inj hresolve)).1.symm

/-- The schema of an accepted definition is found under its key, if no other key leads to the same place. -/
theorem Accepted.schemaAt?_of_mem (h : Accepted raw raw {} placements p) {root : Package} (hs : root.schemas = [])
    (hb : root.subpackages = []) (hm : (key, s) ∈ placements) (halone : ∀ key' ∈ keysOf raw,
      segmentsOfKey key' = segmentsOfKey key → visibleOfKey key' = visibleOfKey key → key' = key) :
    schemaAt? (segmentsOfKey key) (visibleOfKey key) (placeEach placements root) = some s := by
  obtain ⟨t, ht⟩ := Option.isSome_iff_exists.1 (isSome_schemaAt?_placeEach hm root)
  obtain ⟨key', hm', hsegments, hvisible⟩ := mem_of_schemaAt?_placeEach hs hb ht
  obtain rfl := halone key' (h.keys_eq ▸ List.mem_map_of_mem hm') hsegments hvisible
  rw [ht, h.eq_of_mem hm' hm]

/-- The schemas of accepted definitions are found under their keys, and nothing else is found. -/
theorem Accepted.schemaAt?_iff (h : Accepted raw raw {} placements p)
    (hdot : NoLeadingDot raw) {root : Package} (hs : root.schemas = []) (hb : root.subpackages = [])
    {segments : List String} {name : String} :
    schemaAt? segments name (placeEach placements root) = some s ↔
      ∃ key, (key, s) ∈ placements ∧ segmentsOfKey key = segments ∧ visibleOfKey key = name := by
  refine ⟨mem_of_schemaAt?_placeEach hs hb, ?_⟩
  rintro ⟨key, hm, rfl, rfl⟩
  have hkey : key ∈ keysOf raw := h.keys_eq ▸ List.mem_map_of_mem hm
  exact h.schemaAt?_of_mem hs hb hm fun key' hkey' => eq_of_place_eq (hdot key' hkey') (hdot key hkey)

/-- The hierarchy of accepted definitions has declarations, and each of them is where some key leads. -/
theorem Accepted.exists_declarations (h : Accepted raw raw {} placements p) {root : Package} (hs : root.schemas = [])
    (hb : root.subpackages = []) (hroot : Package.Placed [] root) :
    ∃ declarations, (placeEach placements root).declarations? = some declarations ∧ Inventory declarations ∧
      (∀ {segments name s}, schemaAt? segments name (placeEach placements root) = some s →
        ∃ d ∈ declarations, d.path = pathOf segments ∧ d.name = name ∧ d.schema = s) ∧
      ∀ d ∈ declarations, ∃ key, (key, d.schema) ∈ placements ∧ d.IsAt key := by
  have hplaced : Package.Placed [] (placeEach placements root) :=
    placed_placeEach placements hroot fun e he => (h.of_mem he).2.1
  obtain ⟨declarations, hdeclarations, hinventory, hmap⟩ := Package.exists_inventory hplaced fun _ _ _ ht => by
    obtain ⟨key, hm, -⟩ := mem_of_schemaAt?_placeEach hs hb ht
    exact (Schema.problemOfDeclared?_eq_none.1 (h.of_mem hm).1).1
  refine ⟨declarations, hdeclarations, hinventory, fun ht => Package.exists_declared hplaced hmap ht, fun d hd => ?_⟩
  obtain ⟨segments, hpath, ht⟩ := Package.visible_of_declared hplaced hmap hd
  obtain ⟨key, hkey, rfl, hname⟩ := mem_of_schemaAt?_placeEach hs hb ht
  exact ⟨key, hkey, hpath.trans (Package.pathOf_segmentsOf _), hname.symm⟩

/-- The declarations are those of the accepted definitions, each where its key leads. -/
structure Inventoried (placements : List (String × Schema)) (declarations : List Declaration) : Prop where
  inventory : Inventory declarations
  declared : ∀ {key s}, (key, s) ∈ placements → ∃ d ∈ declarations, d.schema = s ∧ d.IsAt key
  placed : ∀ {d}, d ∈ declarations → ∃ key, (key, d.schema) ∈ placements ∧ d.IsAt key

theorem Accepted.inventoried (h : Accepted raw raw {} placements p) (hdot : NoLeadingDot raw)
    {root : Package} (hs : root.schemas = []) (hb : root.subpackages = []) (hroot : Package.Placed [] root) :
    ∃ declarations, (placeEach placements root).declarations? = some declarations ∧
      Inventoried placements declarations := by
  obtain ⟨declarations, hdeclarations, hinventory, hvisible, hplaced⟩ := h.exists_declarations hs hb hroot
  refine ⟨declarations, hdeclarations, hinventory, fun {key s} hm => ?_, fun hm => hplaced _ hm⟩
  obtain ⟨d, hdm, hpath, hname, hschema⟩ := hvisible ((h.schemaAt?_iff hdot hs hb).2 ⟨key, hm, rfl, rfl⟩)
  exact ⟨d, hdm, hschema, hpath.trans (Package.pathOf_segmentsOf _), hname⟩

section Inventoried

variable {declarations : List Declaration} (h : Inventoried placements declarations)
  (hdot : ∀ e ∈ placements, e.1.toList.head? ≠ some '.')
include h hdot

theorem Inventoried.eq_of_identifier {d e : Declaration} (hd : d ∈ declarations) (he : e ∈ declarations)
    (heq : d.identifier = e.identifier) : d = e := by
  obtain ⟨key, hkey, hat⟩ := h.placed hd
  obtain ⟨key', hkey', hat'⟩ := h.placed he
  rw [hat.identifier (hdot _ hkey), hat'.identifier (hdot _ hkey')] at heq
  subst heq
  exact h.inventory.eq_of_location hd he (hat.1.trans hat'.1.symm) (hat.2.trans hat'.2.symm)

/-- Keys and declarations correspond one to one. -/
theorem Inventoried.perm (hd : (placements.map (·.1)).Nodup) :
    (declarations.map (·.identifier)).Perm (placements.map (·.1)) := by
  have hnodup : (declarations.map (·.identifier)).Nodup :=
    List.pairwise_map.2 (h.inventory.ordered.imp_of_mem fun hdm hem hlt heq =>
      Nat.ne_of_lt hlt (congrArg Declaration.order (h.eq_of_identifier hdot hdm hem heq)))
  rw [List.perm_ext_iff_of_nodup hnodup hd]
  intro key
  constructor
  · intro hm
    obtain ⟨d, hdm, rfl⟩ := List.mem_map.1 hm
    obtain ⟨key, hkey, hat⟩ := h.placed hdm
    rw [hat.identifier (hdot _ hkey)]
    exact List.mem_map_of_mem hkey
  · intro hm
    obtain ⟨⟨_, s⟩, hkey, rfl⟩ := List.mem_map.1 hm
    obtain ⟨d, hdm, -, hat⟩ := h.declared hkey
    exact List.mem_map.2 ⟨d, hdm, hat.identifier (hdot _ hkey)⟩

end Inventoried

/-- Keys of definitions and declarations correspond one to one, and under each key the schema is found that has been
read from the definition. -/
structure Corresponds (raw : List (Value × Value)) (root : Package) (last : Progress)
    (declarations : List Declaration) : Prop where
  length : declarations.length = raw.length
  keys : (declarations.map (·.identifier)).Perm (keysOf raw)
  unique : ∀ d ∈ declarations, ∀ e ∈ declarations, d.identifier = e.identifier → d = e
  declares : ∀ key ∈ keysOf raw, ∃ d ∈ declarations, Declares raw last key d ∧
    Command.findSchema root key = .ok d.schema

/-- **No definition of an accepted dump is lost**, if none of its keys begins with a dot. -/
theorem corresponds_of_packageOf {defaultName : String} {document : List (Value × Value)} {root : Package}
    (h : packageOf defaultName document = .ok root) (hr : readDefinitions document = .ok raw) (hd : (keysOf raw).Nodup)
    (hdot : NoLeadingDot raw) : ∃ info last declarations, readInfo document = .ok info ∧
      placeAll raw raw (emptyRoot defaultName info) {} = .ok (root, last) ∧ root.declarations? = some declarations ∧
      Corresponds raw root last declarations := by
  obtain ⟨info, raw', placements, last, hinfo, hr', ha, rfl⟩ := packageOf_ok.1 h
  obtain rfl : raw = raw' := Except.ok.inj (hr.symm.trans hr')
  have hkeysdot : ∀ e ∈ placements, e.1.toList.head? ≠ some '.' := fun e he =>
    hdot _ (ha.keys_eq ▸ List.mem_map_of_mem he)
  obtain ⟨declarations, hdeclarations, hin⟩ :=
    ha.inventoried hdot rfl rfl (Package.Placed.ofEmpty (p := emptyRoot defaultName info) rfl rfl rfl)
  have hperm := hin.perm hkeysdot (ha.keys_eq ▸ hd)
  rw [ha.keys_eq] at hperm
  refine ⟨info, last, declarations, hinfo, placeAll_ok.2 ⟨placements, ha, rfl⟩, hdeclarations, ?_, hperm,
    fun d hdm e hem => hin.eq_of_identifier hkeysdot hdm hem, fun key hkey => ?_⟩
  · have hlength := hperm.length_eq
    rwa [List.length_map, keysOf, List.length_map] at hlength
  · rw [← ha.keys_eq, List.mem_map] at hkey
    obtain ⟨⟨key, s⟩, hm, rfl⟩ := hkey
    obtain ⟨d, hdm, rfl, hat⟩ := hin.declared hm
    obtain ⟨hresolved, hparsed⟩ := ha.parsed hm
    exact ⟨d, hdm, ⟨hat.identifier (hkeysdot _ hm), hresolved, hparsed⟩,
      findSchema_ok.2 ((ha.schemaAt?_iff hdot rfl rfl).2 ⟨key, hm, rfl, rfl⟩)⟩

/-- A dump with an empty key, a key that ends with a dot, and keys that are the beginnings of others. -/
def dotted : List (Value × Value) :=
  [(.str "definitions", .map [
    (.str "A", declaredIn "" "A" [(.str "items", .map [(.str "$ref", .str "#/definitions/A.A")])]),
    (.str "A.", declaredIn "A" "Unnamed" []),
    (.str "A.A", declaredIn "A" "A" []),
    (.str "", declaredIn "" "Nothing" [])])]

theorem corresponds_of_dotted : ∃ root raw, packageOf "main" dotted = .ok root ∧ readDefinitions dotted = .ok raw ∧
    (keysOf raw).Nodup ∧ NoLeadingDot raw ∧ ∃ info last declarations, readInfo dotted = .ok info ∧
      placeAll raw raw (emptyRoot "main" info) {} = .ok (root, last) ∧ root.declarations? = some declarations ∧
      Corresponds raw root last declarations := by
  obtain ⟨root, h⟩ := exists_ok_of_isOk (by decide +kernel : (packageOf "main" dotted).isOk = true)
  refine ⟨root, _, h, rfl, by decide, by decide, corresponds_of_packageOf h rfl (by decide) (by decide)⟩

/-- A dump in which the definition of `A` is followed by one with the key `.A`. -/
def shadowed : List (Value × Value) :=
  [(.str "definitions", .map [
    (.str "A", declaredIn "" "A" [(.str "description", .str "first")]),
    (.str ".A", declaredIn "" "B" [(.str "description", .str "second")])])]

/-- With a key that begins with a dot a definition can be lost: there is one declaration for two keys, and under the key
`A` the schema of the other definition is found. -/
theorem lost_of_shadowed : ∃ root raw declarations s, packageOf "main" shadowed = .ok root ∧
    readDefinitions shadowed = .ok raw ∧ keysOf raw = ["A", ".A"] ∧ root.declarations? = some declarations ∧
    declarations.map (·.identifier) = ["A"] ∧ Command.findSchema root "A" = .ok s ∧ s.description = "second" := by
  obtain ⟨root, h⟩ := exists_ok_of_isOk (by decide +kernel : (packageOf "main" shadowed).isOk = true)
  have hdeclared : ((packageOf "main" shadowed).toOption.bind Package.declarations?).map (·.map (·.identifier)) =
      some ["A"] := by decide +kernel
  have hfound : ((packageOf "main" shadowed).toOption.bind fun root => (Command.findSchema root "A").toOption).map
      (·.description) = some "second" := by decide +kernel
  rw [h] at hdeclared hfound
  simp only [Except.toOption, Option.bind_some, Option.map_eq_some_iff] at hdeclared hfound
  obtain ⟨declarations, hdeclarations, hidentifiers⟩ := hdeclared
  obtain ⟨s, hs, hdescription⟩ := hfound
  refine ⟨root, _, declarations, s, h, rfl, by decide, hdeclarations, hidentifiers, ?_, hdescription⟩
  cases hf : Command.findSchema root "A" with
  | error e => simp [hf] at hs
  | ok t =>
    rw [hf] at hs
    rw [Option.some_inj.1 hs]

end Dump

end SchemaDocs
