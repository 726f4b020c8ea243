import SchemaDocs.Proofs.Mirrors
import SchemaDocs.Proofs.Widening

/-!
# Re-exports

A schema that is documented where it is declared can be made visible in one more place. The documents of schemas stay
as they are then, and so do the indices, but for those in which the new place itself is told (`documents_of_reexport`).

The new definition is read somewhere among the others, and may be the first that refers to some of them, so it changes
the order in which these are read. But each of them mirrors the same as before and has the same outline
(`outline_eq_of_accepted`), so the hierarchies are alike but for the new place (`widened_of_accepted`).
-/

namespace SchemaDocs

open Package (schemaAt?)

namespace Dump

variable {document document' raw raw' fields : List (Value × Value)} {placements placements' : List (String × Schema)}
  {p p' : Progress} {key visible defaultName : String} {value : Value} {s t : Schema} {root root' : Package}
  {segments : List String}

/-! ## The last definition that leads to a place -/

/-- The key of the definition that is visible in a place: the last one that leads there. -/
def lastAt (segments : List String) (visible : String) (keys : List String) : Option String :=
  keys.reverse.find? fun key => segmentsOfKey key = segments ∧ visibleOfKey key = visible

theorem lastAt_eq_some {keys : List String} (h : lastAt segments visible keys = some key) :
    key ∈ keys ∧ segmentsOfKey key = segments ∧ visibleOfKey key = visible := by
  have hplace := List.find?_some h
  simp only [decide_eq_true_eq] at hplace
  exact ⟨List.mem_reverse.1 (List.mem_of_find?_eq_some h), hplace⟩

/-- One more key does not show in another place. -/
theorem lastAt_oneMore {keys keys' : List String} (h : OneMore key keys keys')
    (hplace : ¬ (segmentsOfKey key = segments ∧ visibleOfKey key = visible)) :
    lastAt segments visible keys' = lastAt segments visible keys := by
  obtain ⟨front, back, rfl, rfl⟩ := h
  simp only [lastAt, List.reverse_append, List.reverse_cons, List.append_assoc, List.find?_append, List.find?_cons,
    List.find?_nil, hplace, decide_false, Option.none_or]

/-- The schema of the last definition that leads to a place is the one that is visible there. -/
theorem Accepted.schemaAt?_eq (h : Accepted raw raw {} placements p) {info : List (Value × Value)} :
    schemaAt? segments visible (placeEach placements (emptyRoot defaultName info)) = some s ↔
      ∃ key, lastAt segments visible (keysOf raw) = some key ∧ (key, s) ∈ placements := by
  have hlast : lastAt segments visible (keysOf raw) = (placements.reverse.find? fun e =>
      segmentsOfKey e.1 = segments ∧ visibleOfKey e.1 = visible).map (·.1) := by
    rw [lastAt, ← h.keys_eq, ← List.map_reverse, List.find?_map]
    rfl
  rw [schemaAt?_placeEach, Package.schemaAt?_ofEmpty rfl rfl, Option.or_none, hlast]
  simp only [Option.map_eq_some_iff]
  constructor
  · rintro ⟨e, he, rfl⟩
    exact ⟨e.1, ⟨e, he, rfl⟩, List.mem_reverse.1 (List.mem_of_find?_eq_some he)⟩
  · rintro ⟨_, ⟨e, he, rfl⟩, hm⟩
    exact ⟨e, he, h.eq_of_mem (List.mem_reverse.1 (List.mem_of_find?_eq_some he)) hm⟩

/-! ## Definitions with one more among them -/

/-- No definition leads to the place of the key. -/
def Unplaced (raw : List (Value × Value)) (key : String) : Prop :=
  ∀ other ∈ keysOf raw, Text.splitLast '.' other ≠ Text.splitLast '.' key

theorem Unplaced.not_mem (h : Unplaced raw key) : key ∉ keysOf raw := fun hm => h key hm rfl

theorem Unplaced.lastAt_eq_none (h : Unplaced raw key) :
    lastAt (segmentsOfKey key) (visibleOfKey key) (keysOf raw) = none := by
  rw [Option.eq_none_iff_forall_ne_some]
  intro other hother
  obtain ⟨hm, hsegments, hvisible⟩ := lastAt_eq_some hother
  exact h other hm (splitLast_eq_of_place hsegments hvisible)

section OneMore

variable (hmore : OneMore (.str key, value) raw raw')
include hmore

theorem keysOf_oneMore : OneMore key (keysOf raw) (keysOf raw') := hmore.map fun e => e.1.plain

theorem lookup_oneMore {name : String} (hne : name ≠ key) : Value.lookup name raw' = Value.lookup name raw := by
  obtain ⟨front, back, rfl, rfl⟩ := hmore
  rw [Value.lookup_append, Value.lookup_append, Value.lookup, if_neg hne.symm]

variable (hfresh : Unplaced raw key)
include hfresh

/-- The definitions that there were are still there. -/
theorem definedIn_oneMore : DefinedIn raw raw' := by
  intro name fields hfields
  have hne : name ≠ key := fun heq => hfresh.not_mem (heq ▸ hfields.mem_keysOf)
  rwa [IsDefined, lookup_oneMore hmore hne]

theorem isDefined_oneMore (hvalue : value.unmarked = .map fields) : IsDefined raw' key fields := by
  have hnone : Value.lookup key raw = none :=
    Value.lookup_eq_none_iff.2 fun value hm => hfresh.not_mem (mem_keysOf hm)
  obtain ⟨front, back, rfl, rfl⟩ := hmore
  rw [Value.lookup_append, Option.or_eq_none_iff] at hnone
  rw [IsDefined, Value.lookup_append, hnone.1, Option.none_or, Value.lookup, if_pos rfl, Option.map_some, hvalue]

/-- Where accepted definitions are placed, and these with one more among them, there is one more schema. -/
theorem widened_of_accepted (h : Accepted raw raw {} placements p) (h' : Accepted raw' raw' {} placements' p')
    (hm : (key, t) ∈ placements') {info : List (Value × Value)} :
    Widened (placeEach placements (emptyRoot defaultName info)) (placeEach placements' (emptyRoot defaultName info))
      (segmentsOfKey key) (visibleOfKey key) t where
  name := (placeEach_root _ _).1.trans (placeEach_root _ _).1.symm
  description := (placeEach_root _ _).2.trans (placeEach_root _ _).2.symm
  packages segments := by
    rw [find?_isSome_iff h.keys_eq, find?_isSome_iff h'.keys_eq, ← or_assoc]
    simp only [(keysOf_oneMore hmore).mem_iff, or_and_right, exists_or, exists_eq_left]
  fresh := by
    rw [Option.eq_none_iff_forall_ne_some]
    intro s hs
    obtain ⟨other, hother, -⟩ := h.schemaAt?_eq.1 hs
    rw [hfresh.lastAt_eq_none] at hother
    cases hother
  added := by
    refine h'.schemaAt?_of_mem rfl rfl hm fun other hother hsegments hvisible => ?_
    refine ((keysOf_oneMore hmore).mem_iff.1 hother).resolve_right fun hm => ?_
    exact hfresh other hm (splitLast_eq_of_place hsegments hvisible)
  schemas segments visible hplace := by
    have hlast := lastAt_oneMore (keysOf_oneMore hmore) fun hsame => hplace ⟨hsame.1.symm, hsame.2.symm⟩
    have houtline {k : String} {s s' : Schema} (hk : (k, s) ∈ placements) (hk' : (k, s') ∈ placements') :
        s.outline = s'.outline := outline_eq_of_accepted h h' (definedIn_oneMore hmore hfresh) hk hk'
    refine Option.ext fun o => ?_
    simp only [Option.map_eq_some_iff, h.schemaAt?_eq, h'.schemaAt?_eq, hlast]
    constructor
    · rintro ⟨s', ⟨k, hk, hs'⟩, rfl⟩
      obtain ⟨⟨_, s⟩, hs, rfl⟩ := List.mem_map.1 (h.keys_eq ▸ (lastAt_eq_some hk).1 : k ∈ placements.map (·.1))
      exact ⟨s, ⟨_, hk, hs⟩, houtline hs hs'⟩
    · rintro ⟨s, ⟨k, hk, hs⟩, rfl⟩
      have hmem := (keysOf_oneMore hmore).mem_iff.2 (.inr (lastAt_eq_some hk).1)
      obtain ⟨⟨_, s'⟩, hs', rfl⟩ := List.mem_map.1 (h'.keys_eq ▸ hmem : k ∈ placements'.map (·.1))
      exact ⟨s', ⟨_, hk, hs'⟩, (houtline hs hs').symm⟩

/-- The schema of the new definition has the model type that the definition declares. -/
theorem modelType_oneMore (h' : Accepted raw' raw' {} placements' p') (hm : (key, t) ∈ placements')
    (hvalue : value.unmarked = .map fields) {modelType : Option ModelType}
    (htype : modelTypeField key fields = .ok modelType) : t.modelType = modelType := by
  obtain ⟨fields', hfields', ⟨⟨_, ht⟩, _⟩, -⟩ := h'.mirrors hm
  obtain rfl := (isDefined_oneMore hmore hfresh hvalue).unique hfields'
  exact (unlocated_modelTypeField fields).unique ht htype

end OneMore

/-- The second dump is the first one with one more definition, which leads to a place where there is none yet. -/
structure AddsDefinition (document document' : List (Value × Value)) (key : String) (fields : List (Value × Value)) :
    Prop where
  info : readInfo document' = readInfo document
  definitions : ∃ raw raw' value, readDefinitions document = .ok raw ∧ readDefinitions document' = .ok raw' ∧
    OneMore (.str key, value) raw raw' ∧ value.unmarked = .map fields ∧ Unplaced raw key

/-- **The hierarchy of a dump with one more definition** is that of the dump with one more schema, of the model type
that the definition declares. -/
theorem widened_of_packageOf (hadds : AddsDefinition document document' key fields)
    (h : packageOf defaultName document = .ok root) (h' : packageOf defaultName document' = .ok root')
    {modelType : Option ModelType} (htype : modelTypeField key fields = .ok modelType) :
    ∃ t, t.modelType = modelType ∧ Widened root root' (segmentsOfKey key) (visibleOfKey key) t := by
  obtain ⟨raw, raw', value, hr, hr', hmore, hvalue, hfresh⟩ := hadds.definitions
  obtain ⟨info, _, placements, p, hinfo, hr1, ha, rfl⟩ := packageOf_ok.1 h
  obtain ⟨info', _, placements', p', hinfo', hr1', ha', rfl⟩ := packageOf_ok.1 h'
  cases hr.symm.trans hr1
  cases hr'.symm.trans hr1'
  cases hinfo.symm.trans (hadds.info.symm.trans hinfo')
  have hkey := (keysOf_oneMore hmore).mem_iff.2 (.inl rfl)
  obtain ⟨⟨_, t⟩, hm, rfl⟩ := List.mem_map.1 (ha'.keys_eq ▸ hkey : key ∈ placements'.map (·.1))
  exact ⟨t, modelType_oneMore hmore hfresh ha' hm hvalue htype, widened_of_accepted hmore hfresh ha ha' hm⟩

end Dump

namespace ImportPlan

/-- **One more re-export does not disturb the documents**: if a dump has a schema that is documented at home, and the
dump with one more definition of it is accepted as well, then the documents of schemas are the same, and the indices are
the same but for those that tell the new place. -/
theorem documents_of_reexport {document document' fields : List (Value × Value)} {key defaultName : String}
    {root root' : Package} {plan : ImportPlan} {m : ModelType} {c : Declaration}
    (hadds : Dump.AddsDefinition document document' key fields) (h : Dump.packageOf defaultName document = .ok root)
    (h' : Dump.packageOf defaultName document' = .ok root') (hplan : ofPackage? root = some plan)
    (htype : Dump.modelTypeField key fields = .ok (some m)) (hcanonical : plan.canonicalOf? m.origin = some c)
    (hhome : c.isHome = true) :
    ∃ plan', ofPackage? root' = some plan' ∧ ∀ o : Options, ∃ documents documents',
      plan.documents o root = .ok documents ∧ plan'.documents o root' = .ok documents' ∧
      Undisturbed o plan root (Dump.segmentsOfKey key) (Dump.visibleOfKey key) c documents documents' := by
  obtain ⟨t, ht, hwidened⟩ := Dump.widened_of_packageOf hadds h h' htype
  obtain ⟨_, -, hholds⟩ := Dump.holds_of_packageOf h
  obtain ⟨_, -, hholds'⟩ := Dump.holds_of_packageOf h'
  obtain ⟨plan1, hplan1, -, hrun⟩ := exists_run hholds
  obtain ⟨plan', hplan', -, hrun'⟩ := exists_run hholds'
  obtain rfl : plan = plan1 := Option.some_inj.1 (hplan.symm.trans hplan1)
  obtain ⟨front, back, d, hextends, hdirectory, hname, hschema⟩ := exists_extends hrun hrun' hwidened
  obtain ⟨m', hm', horigin⟩ := hrun'.inventory.origin_eq hextends.mem_declarations
  obtain rfl : m = m' := Option.some_inj.1 (ht.symm.trans (hschema ▸ hm'))
  rw [← hdirectory, ← hname, ← hschema] at hwidened
  have hadds : AddsAlias root root' plan plan' front back d c :=
    ⟨hrun, hrun', hwidened, hextends, horigin ▸ hcanonical, hhome⟩
  refine ⟨plan', hplan', fun o => ⟨_, _, documents_eq hrun, documents_eq hrun', ?_⟩⟩
  rw [← hdirectory, ← hname]
  exact hadds.undisturbed o

end ImportPlan

namespace Dump

/-- What is declared of a unit that has a link. -/
def unitFields : List (Value × Value) := [
  (.str "x-kcl-type", .map [(.str "type", .str "Unit"), (.str "import", .map [(.str "package", .str "base")])]),
  (.str "properties", .map [(.str "next", .map [(.str "$ref", .str "#/definitions/base.Link")])])]

def linkDefinition : Value :=
  declaredIn "base" "Link" [
    (.str "properties", .map [(.str "to", .map [(.str "$ref", .str "#/definitions/base.Unit")])])]

/-- A dump in which a unit and a link refer to each other, each at home. -/
def linked : List (Value × Value) :=
  [(.str "definitions", .map [(.str "base.Link", linkDefinition), (.str "base.Unit", .map unitFields)])]

/-- The dump with the unit in one more package, where it is read before it is at home. -/
def linkedTwice : List (Value × Value) :=
  [(.str "definitions", .map [
    (.str "base.Link", linkDefinition),
    (.str "api.v1.Part", .map unitFields),
    (.str "base.Unit", .map unitFields)])]

theorem addsDefinition_linked : AddsDefinition linked linkedTwice "api.v1.Part" unitFields :=
  ⟨rfl, _, _, _, rfl, rfl,
    ⟨[(.str "base.Link", linkDefinition)], [(.str "base.Unit", .map unitFields)], rfl, rfl⟩, rfl, by
    unfold Unplaced
    decide⟩

theorem documents_of_linked : ∃ root root' plan c, packageOf "main" linked = .ok root ∧
    packageOf "main" linkedTwice = .ok root' ∧ ImportPlan.ofPackage? root = some plan ∧
    plan.canonicalOf? ⟨"base", "Unit"⟩ = some c ∧ c.isHome = true ∧
    ∃ plan', ImportPlan.ofPackage? root' = some plan' ∧ ∀ o : Options, ∃ documents documents',
      plan.documents o root = .ok documents ∧ plan'.documents o root' = .ok documents' ∧
      ImportPlan.Undisturbed o plan root ["api", "v1"] "Part" c documents documents' := by
  have hhome : ((packageOf "main" linked).toOption.bind fun root => (ImportPlan.ofPackage? root).bind fun plan =>
      (plan.canonicalOf? ⟨"base", "Unit"⟩).map Declaration.isHome) = some true := by decide +kernel
  simp only [Option.bind_eq_some_iff, Option.map_eq_some_iff, toOption_eq_some] at hhome
  obtain ⟨root, h, plan, hplan, c, hc, hhome⟩ := hhome
  obtain ⟨root', h'⟩ := exists_ok_of_isOk (by decide +kernel : (packageOf "main" linkedTwice).isOk = true)
  have hsegments : segmentsOfKey "api.v1.Part" = ["api", "v1"] := by decide +kernel
  have hvisible : visibleOfKey "api.v1.Part" = "Part" := by decide +kernel
  refine ⟨root, root', plan, c, h, h', hplan, hc, hhome, ?_⟩
  rw [← hsegments, ← hvisible]
  exact ImportPlan.documents_of_reexport addsDefinition_linked h h' hplan
    (m := ⟨"Unit", "base", ""⟩) (by rfl) hc hhome

end Dump

end SchemaDocs
