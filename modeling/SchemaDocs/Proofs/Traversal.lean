import SchemaDocs.Proofs.Canonical

/-!
# The traversal of a hierarchy

The keys of an accepted dump settle which packages there are, and each package tells its place in three ways: by the
names that lead to it, by its own name and by its path (`Shaped`). The walk and the listing of declarations go by these
places (`Listed`). Segments are compared one by one, so a package stands before the packages below it, and `a.b` stands
before `a-b` although its path is the greater text. Both listings increase strictly, so the keys alone determine their
places, in whatever order the definitions come (`Shaped.walk_eq`, `Listed.positions_eq`).
-/

namespace SchemaDocs

open Package (Placed IsSegment pathOf segmentsOf schemaAt?)

/-- Where a declaration stands: the segments of its package and its visible name. -/
def Declaration.position (d : Declaration) : List String × String := (segmentsOf d.path, d.name)

/-- One of two declarations stands before the other if its position does. -/
theorem Declaration.Before.position {d e : Declaration} (h : d.Before e) :
    Prod.Lex (· < ·) (· < ·) d.position e.position := by
  rcases h with hsegments | ⟨hpath, hname⟩
  · exact .left _ _ hsegments
  · rw [Declaration.position, Declaration.position, hpath]
    exact .right _ hname

theorem not_lex_of_lex {a b : List String × String} (h : Prod.Lex (· < ·) (· < ·) a b) :
    ¬ Prod.Lex (· < ·) (· < ·) b a := by
  intro h'
  rw [Prod.lex_def] at h h'
  rcases h with h | ⟨he, h⟩ <;> rcases h' with h' | ⟨he', h'⟩
  · exact List.lt_asymm h h'
  · exact List.lt_irrefl _ (he' ▸ h)
  · exact List.lt_irrefl _ (he ▸ h')
  · exact String.lt_asymm h h'

namespace Dump

variable {keys keys' : List String} {root root' : Package} {declarations declarations' : List Declaration}

/-! ## Packages -/

/-- The shape that the keys of definitions give to a hierarchy. -/
structure Shaped (keys : List String) (root : Package) : Prop where
  /-- Besides the root there are the packages on the way to a key, and no others. -/
  exists_iff : ∀ {names}, (∃ p, root.find? names = some p) ↔ names = [] ∨ ∃ key ∈ keys, names <+: segmentsOfKey key
  /-- Every name on the way can stand between two dots. -/
  isSegment : ∀ {names p}, root.find? names = some p → ∀ name ∈ names, IsSegment name
  /-- A package below the root has the last name on the way to it. -/
  name_eq : ∀ {names name p}, root.find? (names ++ [name]) = some p → p.name = name
  /-- The path of a package joins the names on the way, and splits into them again. -/
  path_eq : ∀ {names p}, root.find? names = some p → p.path = pathOf names
  segments_eq : ∀ {names p}, root.find? names = some p → p.segments = names
  /-- A sub-package is where its name leads. -/
  subpackages_iff : ∀ {names p}, root.find? names = some p → ∀ {name child},
    (name, child) ∈ p.subpackages ↔ root.find? (names ++ [name]) = some child
  /-- The walk meets every package, and no two in the same place. -/
  mem_walk_iff : ∀ {p}, p ∈ root.walk ↔ ∃ names, root.find? names = some p
  walk_ordered : root.walk.Pairwise fun p q => p.segments < q.segments

/-- A placed hierarchy has its shape from the keys that lead to its packages. -/
theorem shaped_of_placed (h : Placed [] root) (hpackages : ∀ {names : List String}, (root.find? names).isSome ↔
    (∃ key ∈ keys, names <+: segmentsOfKey key) ∨ names = []) : Shaped keys root where
  exists_iff := by
    intro names
    rw [← Option.isSome_iff_exists, hpackages]
    exact or_comm
  isSegment hp := (h.find? hp).2
  name_eq hp := (h.name_of_find? hp).1
  path_eq hp := (h.find? hp).1.path_eq
  segments_eq hp := (h.find? hp).1.segments_eq (h.find? hp).2
  subpackages_iff := by
    intro names p hp name child
    rw [Package.find?_append, hp, Option.bind_some, Package.find?_cons,
      ← Assoc.get?_eq_some_iff (h.find? hp).1.nodup_subpackages]
    cases Assoc.get? name p.subpackages <;> rfl
  mem_walk_iff := h.mem_walk_iff
  walk_ordered := h.walk_pairwise (by simp)

theorem Shaped.mem_segments_iff (h : Shaped keys root) {names : List String} :
    names ∈ root.walk.map Package.segments ↔ names = [] ∨ ∃ key ∈ keys, names <+: segmentsOfKey key := by
  rw [← h.exists_iff, List.mem_map]
  constructor
  · rintro ⟨p, hp, rfl⟩
    obtain ⟨names, hf⟩ := h.mem_walk_iff.1 hp
    exact ⟨p, by rwa [h.segments_eq hf]⟩
  · rintro ⟨p, hf⟩
    exact ⟨p, h.mem_walk_iff.2 ⟨names, hf⟩, h.segments_eq hf⟩

/-- **The order of the keys does not show in the walk.** -/
theorem Shaped.walk_eq (h : Shaped keys root) (h' : Shaped keys' root') (hkeys : keys'.Perm keys) :
    root'.walk.map Package.segments = root.walk.map Package.segments := by
  have hasymm (s t : List String) : s < t → ¬ t < s := List.lt_asymm
  refine Assoc.eq_of_pairwise_of_mem_iff hasymm (List.pairwise_map.2 h'.walk_ordered)
    (List.pairwise_map.2 h.walk_ordered) fun names => ?_
  rw [h.mem_segments_iff, h'.mem_segments_iff]
  simp only [hkeys.mem_iff]

/-! ## Declarations -/

structure Listed (keys : List String) (root : Package) (declarations : List Declaration) : Prop where
  /-- What is visible in a package is declared there, and nothing else is declared. -/
  declared_iff : ∀ {names name schema}, schemaAt? names name root = some schema ↔
    ∃ d ∈ declarations, d.position = (names, name) ∧ d.schema = schema
  /-- The declarations stand in the places to which keys lead. -/
  exists_iff : ∀ {place}, place ∈ declarations.map Declaration.position ↔
    ∃ key ∈ keys, place = (segmentsOfKey key, visibleOfKey key)
  /-- They are listed by position, and no two of them stand in the same place. -/
  ordered : (declarations.map Declaration.position).Pairwise (Prod.Lex (· < ·) (· < ·))
  /-- Each one is numbered by its position in the listing. -/
  numbered : declarations.map (·.order) = List.range declarations.length

/-- The declarations of a placed hierarchy are what is visible in it. -/
theorem declared_iff_of_placed (h : Placed [] root)
    (hlisted : declarations.map (fun d => (d.path, d.name, d.schema)) = root.walk.flatMap Package.visibleSchemas)
    {names : List String} {name : String} {schema : Schema} : schemaAt? names name root = some schema ↔
      ∃ d ∈ declarations, d.position = (names, name) ∧ d.schema = schema := by
  constructor
  · intro hs
    obtain ⟨d, hd, hpath, hname, hschema⟩ := Package.exists_declared h hlisted hs
    refine ⟨d, hd, ?_, hschema⟩
    rw [Declaration.position, hpath, hname, Package.segmentsOf_pathOf (h.isSegment_of_schemaAt? hs)]
  · rintro ⟨d, hd, hposition, rfl⟩
    obtain ⟨segments, hpath, hs⟩ := Package.visible_of_declared h hlisted hd
    have hsegments := Package.segmentsOf_pathOf (h.isSegment_of_schemaAt? hs)
    rw [Declaration.position, hpath, hsegments, Prod.mk.injEq] at hposition
    rwa [← hposition.1, ← hposition.2]

/-- A placed hierarchy whose schemas are all named has its declarations from the keys that lead to them. -/
theorem exists_listed (h : Placed [] root)
    (hnamed : ∀ names name schema, schemaAt? names name root = some schema → schema.modelType.isSome)
    (hvisible : ∀ {names : List String} {name : String}, (schemaAt? names name root).isSome ↔
      ∃ key ∈ keys, segmentsOfKey key = names ∧ visibleOfKey key = name) :
    ∃ declarations, root.declarations? = some declarations ∧ Listed keys root declarations := by
  obtain ⟨declarations, hd, hinventory, hlisted⟩ := Package.exists_inventory h hnamed
  have hdeclared : ∀ {names name schema}, schemaAt? names name root = some schema ↔
      ∃ d ∈ declarations, d.position = (names, name) ∧ d.schema = schema := declared_iff_of_placed h hlisted
  refine ⟨declarations, hd, hdeclared, ?_, ?_, Package.orders_of_declarations? hd⟩
  · rintro ⟨names, name⟩
    have hplaced : (names, name) ∈ declarations.map Declaration.position ↔ (schemaAt? names name root).isSome := by
      simp only [Option.isSome_iff_exists, hdeclared, List.mem_map]
      exact ⟨fun ⟨d, hd, he⟩ => ⟨d.schema, d, hd, he, rfl⟩, fun ⟨_, d, hd, he, _⟩ => ⟨d, hd, he⟩⟩
    rw [hplaced, hvisible]
    simp only [Prod.mk.injEq, eq_comm]
  · exact List.pairwise_map.2 (hinventory.located.imp Declaration.Before.position)

/-- **The order of the keys does not show in the listing of declarations.** -/
theorem Listed.positions_eq (h : Listed keys root declarations) (h' : Listed keys' root' declarations')
    (hkeys : keys'.Perm keys) :
    declarations'.map Declaration.position = declarations.map Declaration.position := by
  refine Assoc.eq_of_pairwise_of_mem_iff (fun _ _ => not_lex_of_lex) h'.ordered h.ordered fun place => ?_
  rw [h.exists_iff, h'.exists_iff]
  simp only [hkeys.mem_iff]

/-! ## The hierarchy of a dump -/

/-- The hierarchy of an accepted dump has its shape and its declarations from the keys of the definitions. -/
theorem exists_traversed {defaultName : String} {document : List (Value × Value)}
    (h : packageOf defaultName document = .ok root) : ∃ raw declarations, readDefinitions document = .ok raw ∧
      root.declarations? = some declarations ∧ Shaped (keysOf raw) root ∧ Listed (keysOf raw) root declarations := by
  obtain ⟨info, raw, placements, p, -, hraw, haccepted, rfl⟩ := packageOf_ok.1 h
  have hholds : Holds raw (placeEach placements (emptyRoot defaultName info)) := haccepted.holds
  have hnamed : ∀ names name schema,
      schemaAt? names name (placeEach placements (emptyRoot defaultName info)) = some schema →
        schema.modelType.isSome :=
    fun _ _ _ hs => (Schema.problemOfDeclared?_eq_none.1 (hholds.declared hs)).1
  obtain ⟨declarations, hd, hlisted⟩ := exists_listed hholds.placed hnamed (schemaAt?_isSome_iff haccepted.keys_eq)
  exact ⟨raw, declarations, hraw, hd, shaped_of_placed hholds.placed (find?_isSome_iff haccepted.keys_eq), hlisted⟩

/-- **The hierarchy of an accepted dump has the shape that its keys tell, and it is traversed by position.** Another
dump with the same keys, in any order, has its packages and declarations in the same places, one after another. -/
theorem traversed_of_packageOf {defaultName : String} {document : List (Value × Value)}
    (h : packageOf defaultName document = .ok root) : ∃ raw declarations, readDefinitions document = .ok raw ∧
      root.declarations? = some declarations ∧ Shaped (keysOf raw) root ∧ Listed (keysOf raw) root declarations ∧
      ∀ {otherName other root' raw'}, packageOf otherName other = .ok root' → readDefinitions other = .ok raw' →
        (keysOf raw').Perm (keysOf raw) → root'.walk.map Package.segments = root.walk.map Package.segments ∧
          ∃ declarations', root'.declarations? = some declarations' ∧
            declarations'.map Declaration.position = declarations.map Declaration.position := by
  obtain ⟨raw, declarations, hraw, hd, hshaped, hlisted⟩ := exists_traversed h
  refine ⟨raw, declarations, hraw, hd, hshaped, hlisted, fun {otherName other root' raw'} h' hraw' hkeys => ?_⟩
  obtain ⟨_, declarations', hother, hd', hshaped', hlisted'⟩ := exists_traversed h'
  obtain rfl := Except.ok.inj (hraw'.symm.trans hother)
  exact ⟨hshaped.walk_eq hshaped' hkeys, declarations', hd', hlisted.positions_eq hlisted' hkeys⟩

/-- Definitions that are not listed by position, with the packages `a.b` and `a-b`. -/
def scattered : List (Value × Value) :=
  [(.str "a-b.Side", declaredIn "a-b" "Side" []), (.str "a.b.c.Deep", declaredIn "a.b.c" "Deep" []),
    (.str "Top", declaredIn "" "Top" []), (.str "a.b.Inner", declaredIn "a.b" "Inner" []),
    (.str "a.b.Alias", declaredIn "" "Top" [])]

theorem traversed_of_scattered : ∃ root root' declarations declarations',
    packageOf "main" [(.str "definitions", .map scattered)] = .ok root ∧
    packageOf "main" [(.str "definitions", .map scattered.reverse)] = .ok root' ∧
    root.walk.map (·.path) = ["", "a", "a.b", "a.b.c", "a-b"] ∧
    root.declarations? = some declarations ∧ root'.declarations? = some declarations' ∧
    Shaped (keysOf scattered) root ∧ Listed (keysOf scattered) root declarations ∧
    root'.walk.map Package.segments = root.walk.map Package.segments ∧
    declarations'.map Declaration.position = declarations.map Declaration.position := by
  obtain ⟨root, h⟩ := exists_ok_of_isOk
    (by decide +kernel : (packageOf "main" [(.str "definitions", .map scattered)]).isOk = true)
  obtain ⟨root', h'⟩ := exists_ok_of_isOk
    (by decide +kernel : (packageOf "main" [(.str "definitions", .map scattered.reverse)]).isOk = true)
  have hpaths : (packageOf "main" [(.str "definitions", .map scattered)]).toOption.map (fun root =>
      root.walk.map (·.path)) = some ["", "a", "a.b", "a.b.c", "a-b"] := by decide +kernel
  rw [h, Except.toOption, Option.map_some, Option.some_inj] at hpaths
  obtain ⟨raw, declarations, hraw, hd, hshaped, hlisted, hother⟩ := traversed_of_packageOf h
  obtain rfl : scattered = raw := Except.ok.inj hraw
  have hkeys : (keysOf scattered.reverse).Perm (keysOf scattered) := (List.reverse_perm scattered).map _
  obtain ⟨hwalk, declarations', hd', hpositions⟩ := hother h' rfl hkeys
  exact ⟨root, root', declarations, declarations', h, h', hpaths, hd, hd', hshaped, hlisted, hwalk, hpositions⟩

end Dump

end SchemaDocs
