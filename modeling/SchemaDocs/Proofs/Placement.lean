import SchemaDocs.Proofs.Tracking
import SchemaDocs.Proofs.Tree

/-!
# The hierarchy of a dump

An accepted dump has put the schema of every definition into the hierarchy, in the order of the definitions and
under the keys that they have (`packageOf_ok`). So the hierarchy is placed, its packages are the ones on the way to
some key, and what is visible in it is the last schema with that place among its keys (`Holds`).
-/

namespace SchemaDocs

theorem Schema.problemOfDeclared?_eq_none {s : Schema} :
    s.problemOfDeclared? = none ↔ s.modelType.isSome = true ∧ s.problem? = none := by
  rw [Schema.problemOfDeclared?]
  cases s.modelType with
  | none => simp
  | some m => simp

namespace Dump

open Package (Placed IsSegment segmentsOf schemaAt?)

/-! ## Steps of a reading that succeed -/

section Reading

variable {α β : Type} {p p' p'' : Progress} {a a' : α} {b : β}

theorem bind_ok {x : Reading α} {f : α → Reading β} :
    (x >>= f) p = .ok (b, p'') ↔ ∃ a p', x p = .ok (a, p') ∧ f a p' = .ok (b, p'') := by
  simp only [bind, StateT.bind, Except.bind]
  cases x p with
  | error e => simp
  | ok r =>
    obtain ⟨a, p'⟩ := r
    constructor
    · exact fun h => ⟨a, p', rfl, h⟩
    · rintro ⟨_, _, ⟨⟩, h⟩
      exact h

theorem pure_ok : (pure a : Reading α) p = .ok (a', p') ↔ a = a' ∧ p = p' := by
  show (Except.ok (a, p) : Except Error (α × Progress)) = .ok (a', p') ↔ _
  rw [Except.ok.injEq, Prod.mk.injEq]

theorem throw_ok {e : Error} : ¬ (throw e : Reading α) p = .ok (a, p') := by
  simp [throw, throwThe, MonadExceptOf.throw, StateT.lift, bind, Except.bind]

theorem lift_ok {x : Except Error α} : (liftM x : Reading α) p = .ok (a, p') ↔ x = .ok a ∧ p = p' := by
  cases x with
  | error e => simp [liftM, monadLift, MonadLift.monadLift, StateT.lift, bind, Except.bind]
  | ok r => simp [liftM, monadLift, MonadLift.monadLift, StateT.lift, bind, Except.bind, pure, Except.pure]

theorem run'_ok {x : Reading α} : x.run' p = .ok a ↔ ∃ p', x p = .ok (a, p') := by
  simp only [StateT.run', Functor.map, Except.map]
  cases x p with
  | error e => simp
  | ok r =>
    obtain ⟨a', p'⟩ := r
    simp

end Reading

/-! ## Placements -/

/-- The segments of the package that the key of a definition leads to. -/
def segmentsOfKey (key : String) : List String := segmentsOf (Text.splitLast '.' key).1

/-- The name under which the definition with a key is visible there. -/
def visibleOfKey (key : String) : String := (Text.splitLast '.' key).2

/-- The two parts of a key are determined by the place to which it leads. -/
theorem splitLast_eq_of_place {key key' : String} (hs : segmentsOfKey key = segmentsOfKey key')
    (hv : visibleOfKey key = visibleOfKey key') : Text.splitLast '.' key = Text.splitLast '.' key' := by
  refine Prod.ext ?_ hv
  rw [← Package.pathOf_segmentsOf (Text.splitLast '.' key).1, ← Package.pathOf_segmentsOf (Text.splitLast '.' key').1]
  exact congrArg Package.pathOf hs

/-- The schemas put into a hierarchy one after another, each under the key of its definition. -/
def placeEach : List (String × Schema) → Package → Package
  | [], root => root
  | (key, schema) :: rest, root =>
    placeEach rest (root.insertAt (visibleOfKey key) schema [] (segmentsOfKey key))

/-- The definitions are read one after another, and each of them is accepted with a schema. -/
inductive Accepted (raw : List (Value × Value)) :
    List (Value × Value) → Progress → List (String × Schema) → Progress → Prop
  | nil (p : Progress) : Accepted raw [] p [] p
  | cons {key : String} {value : Value} {rest : List (Value × Value)} {p p' p'' : Progress} {schema : Schema}
      {placements : List (String × Schema)} (read : resolveKey raw (.str key, value) p = .ok (schema, p'))
      (declared : schema.problemOfDeclared? = none) (named : "" ∉ segmentsOfKey key)
      (below : Accepted raw rest p' placements p'') :
      Accepted raw ((.str key, value) :: rest) p ((key, schema) :: placements) p''

theorem place_ok {key : Value} {schema : Schema} {root root' : Package} : place key schema root = .ok root' ↔
    ∃ k, key = .str k ∧ "" ∉ segmentsOfKey k ∧ root.insertAt (visibleOfKey k) schema [] (segmentsOfKey k) = root' := by
  cases key with
  | str k =>
    simp only [place, segmentsOfKey, visibleOfKey, Value.str.injEq, exists_eq_left']
    by_cases h : "" ∈ segmentsOf (Text.splitLast '.' k).1
    · simp [h]
    · simp [h]
  | _ => simp [place]

/-- **Reading the definitions of a dump succeeds when all of them are accepted**, and then they are all placed. -/
theorem placeAll_ok {raw : List (Value × Value)} : ∀ {entries : List (Value × Value)} {root root' : Package}
    {p p' : Progress}, placeAll raw entries root p = .ok (root', p') ↔
      ∃ placements, Accepted raw entries p placements p' ∧ root' = placeEach placements root
  | [], root, root', p, p' => by
    rw [placeAll, pure_ok]
    constructor
    · rintro ⟨rfl, rfl⟩
      exact ⟨[], .nil p, by rw [placeEach]⟩
    · rintro ⟨_, ⟨⟩, rfl⟩
      exact ⟨rfl, rfl⟩
  | (key, value) :: rest, root, root', p, p' => by
    rw [placeAll, bind_ok]
    constructor
    · rintro ⟨schema, p1, hr, h⟩
      cases hd : schema.problemOfDeclared? with
      | some problem =>
        rw [hd] at h
        exact absurd h throw_ok
      | none =>
        rw [hd] at h
        simp only [bind_ok, lift_ok, place_ok] at h
        obtain ⟨root1, _, ⟨⟨k, rfl, hn, rfl⟩, rfl⟩, h⟩ := h
        obtain ⟨placements, ha, rfl⟩ := placeAll_ok.1 h
        exact ⟨_, .cons hr hd hn ha, by rw [placeEach]⟩
    · rintro ⟨_, ⟨⟩, rfl⟩
      rename_i hd hn hr ha
      refine ⟨_, _, hr, ?_⟩
      rw [hd]
      simp only [bind_ok, lift_ok, place_ok, placeEach]
      exact ⟨_, _, ⟨⟨_, rfl, hn, rfl⟩, rfl⟩, placeAll_ok.2 ⟨_, ha, rfl⟩⟩

/-- **A dump is accepted when its definitions are**, and then its hierarchy holds what they describe. -/
theorem packageOf_ok {defaultName : String} {document : List (Value × Value)} {root : Package} :
    packageOf defaultName document = .ok root ↔ ∃ info raw placements p, readInfo document = .ok info ∧
      readDefinitions document = .ok raw ∧ Accepted raw raw {} placements p ∧
      root = placeEach placements (emptyRoot defaultName info) := by
  unfold packageOf
  cases readInfo document with
  | error e => simp [bind, Except.bind]
  | ok info =>
    cases readDefinitions document with
    | error e => simp [bind, Except.bind]
    | ok raw =>
      simp only [bind, Except.bind, run'_ok, placeAll_ok, Except.ok.injEq, exists_and_left, exists_eq_left']
      exact ⟨fun ⟨p, placements, h⟩ => ⟨placements, p, h⟩, fun ⟨placements, p, h⟩ => ⟨p, placements, h⟩⟩

theorem Accepted.of_mem {raw entries : List (Value × Value)} {p p' : Progress} {placements : List (String × Schema)}
    (h : Accepted raw entries p placements p') {key : String} {schema : Schema} (hm : (key, schema) ∈ placements) :
    schema.problemOfDeclared? = none ∧ "" ∉ segmentsOfKey key ∧ ∃ value, (.str key, value) ∈ entries := by
  induction h with
  | nil => simp at hm
  | cons read declared named below ih =>
    rcases List.mem_cons.1 hm with he | hm
    · cases he
      exact ⟨declared, named, _, List.mem_cons_self⟩
    · obtain ⟨h1, h2, value, h3⟩ := ih hm
      exact ⟨h1, h2, value, List.mem_cons_of_mem _ h3⟩

/-- The accepted definitions are placed in their order. -/
theorem Accepted.keys_eq {raw entries : List (Value × Value)} {p p' : Progress} {placements : List (String × Schema)}
    (h : Accepted raw entries p placements p') : placements.map (·.1) = keysOf entries := by
  induction h with
  | nil => rfl
  | cons _ _ _ _ ih => rw [List.map_cons, ih]; rfl

/-- **What is tracked holds of the schemas of accepted definitions**, and each of them is in the table in the end. -/
theorem Accepted.tracked {raw entries : List (Value × Value)} {p p' : Progress} {placements : List (String × Schema)}
    (T : Tracking raw) (h : Accepted raw entries p placements p') {w : Register} (hp : T.Stands [] w p) :
    ∃ w', T.Stands [] w' p' ∧ Tracking.Kept [] p p' ∧ ∀ e ∈ placements, Assoc.get? e.1 p'.table = some e.2 := by
  induction h generalizing w with
  | nil p => exact ⟨w, hp, Tracking.Kept.refl [] p, by simp⟩
  | @cons key value rest p p1 p2 schema placements read _ _ _ ih =>
    have hends := T.keeps_resolveWithin raw.length key (w, p) p ⟨rfl, hp⟩
    rw [show resolveWithin raw raw.length key p = .ok (schema, p1) from read] at hends
    obtain ⟨⟨w1, _⟩, ⟨-, hkept1⟩, ⟨⟨⟩, hp1⟩, -, htable⟩ := hends
    obtain ⟨w2, hp2, hkept2, hrest⟩ := ih hp1
    refine ⟨w2, hp2, hkept1.trans hkept2, fun e he => ?_⟩
    rcases List.mem_cons.1 he with rfl | he
    · exact hkept2 (by simp) (htable (by simp))
    · exact hrest e he

/-- At first, nothing has been read. -/
theorem Tracking.stands_empty {raw : List (Value × Value)} (T : Tracking raw) : T.Stands [] Register.empty {} :=
  ⟨rfl, fun hs => by simp [Assoc.get?] at hs, fun hs => by simp [Assoc.get?] at hs⟩

/-- The schemas of accepted definitions are named. -/
theorem Accepted.named {raw : List (Value × Value)} {p : Progress} {placements : List (String × Schema)}
    (h : Accepted raw raw {} placements p) : ∀ e ∈ placements, Named e.2 := by
  obtain ⟨w, hp, -, htable⟩ := h.tracked (namesTracked raw) (namesTracked raw).stands_empty
  exact fun e he => hp.part (htable e he)

/-! ## The hierarchy -/

theorem placed_placeEach : ∀ (placements : List (String × Schema)) {root : Package}, Placed [] root →
    (∀ e ∈ placements, "" ∉ segmentsOfKey e.1) → Placed [] (placeEach placements root)
  | [], _, h, _ => h
  | e :: rest, root, h, hn => by
    have hs : ∀ s ∈ segmentsOfKey e.1, IsSegment s := fun s hs => Package.isSegment_of_mem hs (hn e List.mem_cons_self)
    rw [placeEach]
    exact placed_placeEach rest (Placed.insertAt _ _ h hs) fun e he => hn e (List.mem_cons_of_mem _ he)

/-- Placements leave the name and the description of the root as they are. -/
theorem placeEach_root : ∀ (placements : List (String × Schema)) (root : Package),
    (placeEach placements root).name = root.name ∧ (placeEach placements root).description = root.description
  | [], root => ⟨rfl, rfl⟩
  | e :: rest, root => by
    have ih := placeEach_root rest (root.insertAt (visibleOfKey e.1) e.2 [] (segmentsOfKey e.1))
    rw [placeEach]
    cases hs : segmentsOfKey e.1 <;> rw [hs] at ih <;> exact ih

/-- The packages of a hierarchy are those that were there and those on the way to a placement. -/
theorem find?_placeEach (segments : List String) : ∀ (placements : List (String × Schema)) (root : Package),
    ((placeEach placements root).find? segments).isSome ↔
      (∃ e ∈ placements, segments <+: segmentsOfKey e.1) ∨ (root.find? segments).isSome
  | [], _ => by simp [placeEach]
  | e :: rest, root => by
    have ih := find?_placeEach segments rest (root.insertAt (visibleOfKey e.1) e.2 [] (segmentsOfKey e.1))
    rw [placeEach, ih, Package.find?_insertAt]
    simp only [List.mem_cons, exists_eq_or_imp]
    exact or_left_comm.trans or_assoc.symm

/-- The packages of a hierarchy are those on the way to the places of the definitions. -/
theorem find?_isSome_iff {raw info : List (Value × Value)} {placements : List (String × Schema)} {defaultName : String}
    (hkeys : placements.map (·.1) = keysOf raw) {segments : List String} :
    ((placeEach placements (emptyRoot defaultName info)).find? segments).isSome ↔
      (∃ k ∈ keysOf raw, segments <+: segmentsOfKey k) ∨ segments = [] := by
  have hempty : ((emptyRoot defaultName info).find? segments).isSome ↔ segments = [] :=
    Package.find?_ofEmpty (p := emptyRoot defaultName info) rfl segments
  rw [find?_placeEach, hempty, ← hkeys]
  simp

/-- What is visible under a name is the last schema placed there. -/
theorem schemaAt?_placeEach (segments : List String) (name : String) : ∀ (placements : List (String × Schema))
    (root : Package), schemaAt? segments name (placeEach placements root) =
      ((placements.reverse.find? fun e => segmentsOfKey e.1 = segments ∧ visibleOfKey e.1 = name).map (·.2)).or
        (schemaAt? segments name root)
  | [], _ => by simp [placeEach]
  | e :: rest, root => by
    rw [placeEach, schemaAt?_placeEach segments name rest, Package.schemaAt?_insertAt, List.reverse_cons,
      List.find?_append]
    cases List.find? _ rest.reverse with
    | some e' => simp
    | none =>
      rw [Option.none_or, Option.map_none, Option.none_or, List.find?_singleton]
      by_cases h : segmentsOfKey e.1 = segments ∧ visibleOfKey e.1 = name
      · simp [h]
      · rw [if_neg fun h' => h ⟨h'.1.symm, h'.2.symm⟩, if_neg (by simpa using h)]
        rfl

/-- What a hierarchy shows that was empty at first has been placed there. -/
theorem mem_of_schemaAt?_placeEach {placements : List (String × Schema)} {root : Package} (hs : root.schemas = [])
    (hb : root.subpackages = []) {segments : List String} {name : String} {schema : Schema}
    (h : schemaAt? segments name (placeEach placements root) = some schema) :
    ∃ key, (key, schema) ∈ placements ∧ segmentsOfKey key = segments ∧ visibleOfKey key = name := by
  rw [schemaAt?_placeEach, Package.schemaAt?_ofEmpty hs hb, Option.or_none, Option.map_eq_some_iff] at h
  obtain ⟨⟨key, _⟩, hf, rfl⟩ := h
  have hplace := List.find?_some hf
  simp only [decide_eq_true_eq] at hplace
  exact ⟨key, List.mem_reverse.1 (List.mem_of_find?_eq_some hf), hplace⟩

/-- A hierarchy shows something at every place of a definition. -/
theorem isSome_schemaAt?_placeEach {placements : List (String × Schema)} {key : String} {schema : Schema}
    (h : (key, schema) ∈ placements) (root : Package) :
    (schemaAt? (segmentsOfKey key) (visibleOfKey key) (placeEach placements root)).isSome := by
  rw [schemaAt?_placeEach, Option.isSome_or, Option.isSome_map, Bool.or_eq_true, List.find?_isSome]
  exact Or.inl ⟨(key, schema), List.mem_reverse.2 h, by simp⟩

/-- What is visible in a hierarchy is visible at the places of the definitions. -/
theorem schemaAt?_isSome_iff {raw info : List (Value × Value)} {placements : List (String × Schema)}
    {defaultName : String} (hkeys : placements.map (·.1) = keysOf raw) {segments : List String} {name : String} :
    (schemaAt? segments name (placeEach placements (emptyRoot defaultName info))).isSome ↔
      ∃ k ∈ keysOf raw, segmentsOfKey k = segments ∧ visibleOfKey k = name := by
  rw [← hkeys]
  constructor
  · intro h
    obtain ⟨schema, hs⟩ := Option.isSome_iff_exists.1 h
    obtain ⟨key, hm, hplace⟩ := mem_of_schemaAt?_placeEach rfl rfl hs
    exact ⟨key, List.mem_map_of_mem hm, hplace⟩
  · rintro ⟨key, hk, rfl, rfl⟩
    obtain ⟨⟨_, schema⟩, hm, rfl⟩ := List.mem_map.1 hk
    exact isSome_schemaAt?_placeEach hm _

/-- The hierarchy of an accepted dump: it is placed, and it shows schemas that are declared with a name and have no
problem, each under the key of a definition. -/
structure Holds (raw : List (Value × Value)) (root : Package) : Prop where
  placed : Placed [] root
  declared : ∀ {segments name schema}, schemaAt? segments name root = some schema → schema.problemOfDeclared? = none
  named : ∀ {segments name schema}, schemaAt? segments name root = some schema → Named schema
  keyed : ∀ {segments name schema}, schemaAt? segments name root = some schema →
    ∃ key value, (.str key, value) ∈ raw ∧ segmentsOfKey key = segments ∧ visibleOfKey key = name
  packages : ∀ {segments}, (root.find? segments).isSome → segments = [] ∨
    ∃ key value, (.str key, value) ∈ raw ∧ segments <+: segmentsOfKey key

/-- The segments of the path of a package come from the key of a definition. -/
theorem Holds.segment_of_package {raw : List (Value × Value)} {root p : Package} (h : Holds raw root)
    (hp : p ∈ root.walk) {s : String} (hs : s ∈ p.segments) :
    IsSegment s ∧ ∃ key value, (.str key, value) ∈ raw ∧ s ∈ segmentsOfKey key := by
  obtain ⟨segments, hf, hplaced, hsegments⟩ := h.placed.of_mem_walk hp
  rw [hplaced.segments_eq hsegments] at hs
  refine ⟨hsegments s hs, ?_⟩
  rcases h.packages (Option.isSome_iff_exists.2 ⟨p, hf⟩) with rfl | ⟨key, value, hkey, hstart⟩
  · simp at hs
  · exact ⟨key, value, hkey, hstart.subset hs⟩

/-- A sub-package of a package is in the walk, one segment further down. -/
theorem Holds.subpackage {raw : List (Value × Value)} {root p child : Package} {name : String} (h : Holds raw root)
    (hp : p ∈ root.walk) (hc : (name, child) ∈ p.subpackages) :
    child ∈ root.walk ∧ child.segments = p.segments ++ [name] := by
  obtain ⟨segments, hf, hplaced, hsegments⟩ := h.placed.of_mem_walk hp
  have hall : ∀ t ∈ segments ++ [name], IsSegment t := by
    intro t ht
    rcases List.mem_append.1 ht with ht | ht
    · exact hsegments t ht
    · rw [List.mem_singleton.1 ht]
      exact (hplaced.named hc).1
  refine ⟨h.placed.mem_walk_iff.2 ⟨segments ++ [name], ?_⟩, ?_⟩
  · rw [Package.find?_append, hf, Option.bind_some, Package.find?_cons, Assoc.get?_of_mem hplaced.nodup_subpackages hc]
    rfl
  · rw [(hplaced.child hc).segments_eq hall, hplaced.segments_eq hsegments]

/-- The hierarchy that accepted definitions are placed in holds what they describe. -/
theorem Accepted.holds {raw info : List (Value × Value)} {p : Progress} {placements : List (String × Schema)}
    {defaultName : String} (h : Accepted raw raw {} placements p) :
    Holds raw (placeEach placements (emptyRoot defaultName info)) := by
  have hempty : Placed [] (emptyRoot defaultName info) := Placed.ofEmpty rfl rfl rfl
  refine ⟨placed_placeEach _ hempty fun e he => (h.of_mem he).2.1, fun hs => ?_, fun hs => ?_, fun hs => ?_,
    fun hs => ?_⟩
  · obtain ⟨key, hm, -⟩ := mem_of_schemaAt?_placeEach rfl rfl hs
    exact (h.of_mem hm).1
  · obtain ⟨key, hm, -⟩ := mem_of_schemaAt?_placeEach rfl rfl hs
    exact h.named _ hm
  · obtain ⟨key, hm, hk⟩ := mem_of_schemaAt?_placeEach rfl rfl hs
    obtain ⟨-, -, value, hv⟩ := h.of_mem hm
    exact ⟨key, value, hv, hk⟩
  · rw [find?_placeEach] at hs
    rcases hs with ⟨⟨key, schema⟩, hm, hp⟩ | hs
    · obtain ⟨-, -, value, hv⟩ := h.of_mem hm
      exact Or.inr ⟨key, value, hv, hp⟩
    · exact Or.inl ((Package.find?_ofEmpty rfl _).1 hs)

/-- **The hierarchy of an accepted dump holds what its definitions describe.** -/
theorem holds_of_packageOf {defaultName : String} {document : List (Value × Value)} {root : Package}
    (h : packageOf defaultName document = .ok root) :
    ∃ raw, readDefinitions document = .ok raw ∧ Holds raw root := by
  obtain ⟨info, raw, placements, p, -, hr, ha, rfl⟩ := packageOf_ok.1 h
  exact ⟨raw, hr, ha.holds⟩

end Dump

end SchemaDocs
