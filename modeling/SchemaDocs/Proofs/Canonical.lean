import SchemaDocs.Proofs.Declarations
import SchemaDocs.Proofs.Placement

/-!
# Canonical declarations and aliases

The plan of a run gathers the declarations of each origin in a table, ranks them and keeps the best one. For the
declarations of a hierarchy this is the rule of `preferred?`: at home under the declared name, else the first at
home, else the first of all (`choose?_eq_preferred?`). What is not chosen is an alias, and the comparison of
locations by `isCanonical` tells the two apart (`Partition`). Every accepted dump has such a plan
(`partition_of_packageOf`).
-/

namespace SchemaDocs

open Declaration

namespace Declaration

def isHome (d : Declaration) : Bool := d.isAtOrigin && d.name = d.origin.name

theorem isHome_iff {d : Declaration} : d.isHome = true ↔ d.distance ≤ 0 := by
  unfold distance isHome
  split <;> rename_i h
  · split <;> simp_all
  · simp [h]

theorem isAtOrigin_iff {d : Declaration} : d.isAtOrigin = true ↔ d.distance ≤ 1 := by
  unfold distance
  split <;> rename_i h
  · split <;> simp [h]
  · simp [h]

theorem distance_le_two (d : Declaration) : d.distance ≤ 2 := by
  unfold distance
  split
  · split <;> omega
  · omega

theorem isBetter_iff {d e : Declaration} :
    d.isBetter e = true ↔ d.distance < e.distance ∨ d.distance = e.distance ∧ d.order < e.order := by
  simp [isBetter]

end Declaration

namespace ImportPlan

variable {declarations group : List Declaration} {origin : Origin} {c d e : Declaration} {plan : ImportPlan}

/-! ## Groups -/

def ofOrigin (origin : Origin) (declarations : List Declaration) : List Declaration :=
  declarations.filter fun d => d.origin = origin

/-- The table of groups after some more declarations have been put in. -/
def gather (groups : List (Origin × List Declaration)) (declarations : List Declaration) :
    List (Origin × List Declaration) :=
  declarations.foldl (fun groups d =>
    Assoc.alter d.origin (fun group => group.getD [] ++ [d]) groups) groups

theorem groups_eq_gather (declarations : List Declaration) : groups declarations = gather [] declarations := rfl

theorem nodup_gather : ∀ (declarations : List Declaration) {table : List (Origin × List Declaration)},
    (table.map (·.1)).Nodup → ((gather table declarations).map (·.1)).Nodup
  | [], _, h => h
  | _ :: rest, _, h => nodup_gather rest (Assoc.nodup_alter h _ _)

theorem get?_gather (origin : Origin) : ∀ (declarations : List Declaration)
    (table : List (Origin × List Declaration)), Assoc.get? origin (gather table declarations) =
      if ofOrigin origin declarations = [] then Assoc.get? origin table
      else some ((Assoc.get? origin table).getD [] ++ ofOrigin origin declarations)
  | [], _ => by simp [gather, ofOrigin]
  | d :: rest, table => by
    have ih := get?_gather origin rest (Assoc.alter d.origin (fun group => group.getD [] ++ [d]) table)
    rw [show gather table (d :: rest) = gather (Assoc.alter d.origin (fun group => group.getD [] ++ [d]) table) rest
      from rfl, ih]
    by_cases h : d.origin = origin
    · subst h
      have hcons : ofOrigin d.origin (d :: rest) = d :: ofOrigin d.origin rest := by simp [ofOrigin]
      rw [hcons, Assoc.get?_alter_self]
      split <;> simp_all
    · have hcons : ofOrigin origin (d :: rest) = ofOrigin origin rest := by simp [ofOrigin, h]
      rw [hcons, Assoc.get?_alter_of_ne (Ne.symm h)]

/-- **The group of an origin holds its declarations in their order**; there is no empty group. -/
theorem get?_groups (origin : Origin) (declarations : List Declaration) :
    Assoc.get? origin (groups declarations) =
      if ofOrigin origin declarations = [] then none else some (ofOrigin origin declarations) := by
  rw [groups_eq_gather, get?_gather]
  simp [Assoc.get?]

theorem nodup_groups (declarations : List Declaration) : ((groups declarations).map (·.1)).Nodup :=
  nodup_gather declarations List.nodup_nil

theorem mem_groups_iff : (origin, group) ∈ groups declarations ↔ group ≠ [] ∧ group = ofOrigin origin declarations := by
  rw [← Assoc.get?_eq_some_iff (nodup_groups declarations), get?_groups]
  by_cases h : ofOrigin origin declarations = []
  · simp only [h, ↓reduceIte]
    constructor
    · rintro ⟨⟩
    · rintro ⟨hne, rfl⟩
      exact absurd rfl hne
  · simp only [h, ↓reduceIte, Option.some.injEq]
    constructor
    · rintro rfl
      exact ⟨h, rfl⟩
    · rintro ⟨-, rfl⟩
      rfl

theorem mem_ofOrigin : d ∈ ofOrigin origin declarations ↔ d ∈ declarations ∧ d.origin = origin := by
  simp [ofOrigin]

/-! ## The choice -/

/-- The best choice is one of the candidates, and none of them is better. -/
theorem best_spec : ∀ (group : List Declaration) (d : Declaration), best d group ∈ d :: group ∧
    ∀ e ∈ d :: group, (best d group).distance < e.distance ∨
      (best d group).distance = e.distance ∧ (best d group).order ≤ e.order
  | [], d => by simp [best]
  | e :: rest, d => by
    obtain ⟨hmem, hmin⟩ := best_spec rest (if e.isBetter d then e else d)
    rw [best]
    by_cases h : e.isBetter d = true
    · rw [if_pos h] at hmem hmin ⊢
      refine ⟨List.mem_cons_of_mem _ hmem, fun f hf => ?_⟩
      rcases List.mem_cons.1 hf with rfl | hf
      · have := hmin e List.mem_cons_self
        have := isBetter_iff.1 h
        omega
      · exact hmin f hf
    · rw [if_neg h] at hmem hmin ⊢
      constructor
      · rcases List.mem_cons.1 hmem with hm | hm
        · rw [hm]
          exact List.mem_cons_self
        · exact List.mem_cons_of_mem _ (List.mem_cons_of_mem _ hm)
      · intro f hf
        rcases List.mem_cons.1 hf with rfl | hf
        · exact hmin f List.mem_cons_self
        · rcases List.mem_cons.1 hf with rfl | hf
          · have := hmin d List.mem_cons_self
            have hnot : ¬ (f.distance < d.distance ∨ f.distance = d.distance ∧ f.order < d.order) :=
              fun hb => h (isBetter_iff.2 hb)
            omega
          · exact hmin f (List.mem_cons_of_mem _ hf)

theorem choose?_spec (h : choose? group = some c) : c ∈ group ∧ ∀ e ∈ group,
    c.distance < e.distance ∨ c.distance = e.distance ∧ c.order ≤ e.order := by
  cases group with
  | nil => simp [choose?] at h
  | cons d rest =>
    cases h
    exact best_spec rest d

theorem choose?_isSome (h : group ≠ []) : (choose? group).isSome := by
  cases group with
  | nil => exact absurd rfl h
  | cons d rest => rfl

/-- The documented rule: the declaration at home under the declared name, else the first one at home, else the
first of all. -/
def preferred? (group : List Declaration) : Option Declaration :=
  (group.find? isHome).or ((group.find? isAtOrigin).or group.head?)

/-- In a group ordered by position, the best choice is the first one of its distance, and there is none nearer. -/
theorem find?_of_choose? {p : Declaration → Bool} {k : Nat} (ho : group.Pairwise fun d e => d.order < e.order)
    (hc : choose? group = some c) (hp : ∀ e, p e = true ↔ e.distance ≤ k) (hk : k ≤ c.distance) :
    group.find? p = if c.distance = k then some c else none := by
  obtain ⟨hmem, hmin⟩ := choose?_spec hc
  split
  · rename_i heq
    obtain ⟨l, r, rfl⟩ := List.append_of_mem hmem
    rw [List.find?_eq_some_iff_append]
    refine ⟨(hp c).2 (by omega), l, r, rfl, fun e he => ?_⟩
    have hlt := (List.pairwise_append.1 ho).2.2 e he c List.mem_cons_self
    have hbest := hmin e (List.mem_append_left _ he)
    rw [Bool.not_eq_true', Bool.eq_false_iff, Ne, hp]
    omega
  · refine List.find?_eq_none.2 fun e he hpe => ?_
    have hbest := hmin e he
    have hnear := (hp e).1 hpe
    omega

/-- **The ranking chooses by the documented rule.** -/
theorem choose?_eq_preferred? (ho : group.Pairwise fun d e => d.order < e.order) :
    choose? group = preferred? group := by
  by_cases hne : group = []
  · subst hne
    rfl
  · obtain ⟨c, hc⟩ := Option.isSome_iff_exists.1 (choose?_isSome hne)
    have hhead : group.head? = group.find? fun _ => true := by cases group <;> rfl
    have h2 := distance_le_two c
    rw [hc, preferred?, hhead, find?_of_choose? ho hc (fun _ => isHome_iff) (Nat.zero_le _)]
    by_cases h0 : c.distance = 0
    · simp [h0]
    · rw [if_neg h0, find?_of_choose? ho hc (fun _ => isAtOrigin_iff) (by omega)]
      by_cases h1 : c.distance = 1
      · simp [h1]
      · rw [if_neg h1, find?_of_choose? ho hc (fun e => by simpa using distance_le_two e) (by omega), if_pos (by omega)]
        rfl

/-! ## The plan -/

theorem canonical_keys_sublist : ∀ groups : List (Origin × List Declaration),
    ((groups.filterMap fun (origin, group) => (choose? group).map fun d => (origin, d)).map (·.1)).Sublist
      (groups.map (·.1))
  | [] => List.Sublist.slnil
  | (origin, group) :: rest => by
    have ih := canonical_keys_sublist rest
    cases hc : choose? group with
    | none => simpa [hc] using ih.trans (List.sublist_cons_self _ _)
    | some c => simpa [hc] using ih

theorem nodup_canonical (declarations : List Declaration) :
    ((ofDeclarations declarations).canonical.map (·.1)).Nodup :=
  (nodup_groups declarations).sublist (canonical_keys_sublist _)

/-- The canonical declaration of an origin is the choice among its declarations. -/
theorem canonicalOf?_ofDeclarations (declarations : List Declaration) (origin : Origin) :
    (ofDeclarations declarations).canonicalOf? origin = choose? (ofOrigin origin declarations) := by
  have hmem : ∀ c, Assoc.get? origin (ofDeclarations declarations).canonical = some c ↔
      choose? (ofOrigin origin declarations) = some c := by
    intro c
    rw [Assoc.get?_eq_some_iff (nodup_canonical declarations)]
    simp only [ofDeclarations, List.mem_filterMap, Prod.exists, Option.map_eq_some_iff, Prod.mk.injEq,
      mem_groups_iff]
    constructor
    · rintro ⟨o, g, ⟨hne, rfl⟩, d, hd, rfl, rfl⟩
      exact hd
    · intro hc
      refine ⟨origin, ofOrigin origin declarations, ⟨?_, rfl⟩, c, hc, rfl, rfl⟩
      intro hnil
      rw [hnil] at hc
      simp [choose?] at hc
  exact Option.ext hmem

/-- The plan parts its declarations into canonical ones and aliases. -/
structure Partition (plan : ImportPlan) : Prop where
  /-- No origin has two canonical declarations. -/
  nodup_canonical : (plan.canonical.map (·.1)).Nodup
  /-- A canonical declaration is a declaration of the run that has the very origin it stands for. -/
  canonical_mem : ∀ {origin c}, plan.canonicalOf? origin = some c → c ∈ plan.declarations ∧ c.origin = origin
  /-- Every origin of a declaration has a canonical declaration. -/
  canonical_isSome : ∀ d ∈ plan.declarations, (plan.canonicalOf? d.origin).isSome
  /-- It is the one that the documented rule prefers among the declarations of the origin. -/
  canonical_eq : ∀ origin, plan.canonicalOf? origin = preferred? (ofOrigin origin plan.declarations)
  /-- The schema of a declaration leads to the canonical declaration of its origin. -/
  canonicalFor_eq : ∀ d ∈ plan.declarations, plan.canonicalFor? d.schema = plan.canonicalOf? d.origin
  /-- The aliases are the declarations that are not canonical. -/
  mem_aliases : ∀ {d}, d ∈ plan.aliases ↔ d ∈ plan.declarations ∧ plan.canonicalOf? d.origin ≠ some d
  /-- No declaration is an alias twice. -/
  aliases_nodup : plan.aliases.Nodup
  /-- They are listed in the order of their positions. -/
  aliases_ordered : plan.aliases.Pairwise fun d e => d.order < e.order
  /-- The comparison of locations tells canonical declarations. -/
  isCanonical_iff : ∀ d ∈ plan.declarations, (plan.isCanonical d = true ↔ plan.canonicalOf? d.origin = some d)

theorem ofOrigin_ordered (h : Inventory declarations) (origin : Origin) :
    (ofOrigin origin declarations).Pairwise fun d e => d.order < e.order :=
  h.ordered.filter _

theorem others_sublist (group : List Declaration) : (others group).Sublist group := by
  unfold others
  cases choose? group with
  | none => exact List.nil_sublist _
  | some c => exact List.filter_sublist

theorem mem_others (h : Inventory declarations) : d ∈ others (ofOrigin origin declarations) ↔
    (d ∈ declarations ∧ d.origin = origin) ∧ choose? (ofOrigin origin declarations) ≠ some d := by
  unfold others
  cases hc : choose? (ofOrigin origin declarations) with
  | none =>
    have hnil : ofOrigin origin declarations = [] := by
      cases hg : ofOrigin origin declarations with
      | nil => rfl
      | cons e rest => simp [hg, choose?] at hc
    simp [← mem_ofOrigin, hnil]
  | some c =>
    have hcm := (mem_ofOrigin.1 (choose?_spec hc).1).1
    rw [List.mem_filter, mem_ofOrigin, bne_iff_ne, Ne, Ne, Option.some_inj]
    refine and_congr_right fun hd => not_congr ⟨fun ho => h.eq_of_order hcm hd.1 ho.symm, fun e => by rw [e]⟩

theorem mem_aliases_ofDeclarations (h : Inventory declarations) : d ∈ (ofDeclarations declarations).aliases ↔
    d ∈ declarations ∧ choose? (ofOrigin d.origin declarations) ≠ some d := by
  simp only [ofDeclarations, List.mem_mergeSort, List.mem_flatMap, Prod.exists, mem_groups_iff]
  constructor
  · rintro ⟨o, g, ⟨-, rfl⟩, ho⟩
    obtain ⟨⟨hd, rfl⟩, hne⟩ := (mem_others h).1 ho
    exact ⟨hd, hne⟩
  · rintro ⟨hd, hne⟩
    refine ⟨d.origin, _, ⟨?_, rfl⟩, (mem_others h).2 ⟨⟨hd, rfl⟩, hne⟩⟩
    exact List.ne_nil_of_mem (mem_ofOrigin.2 ⟨hd, rfl⟩)

/-- No declaration is an alias twice: the groups are disjoint, and each one is ordered. -/
theorem nodup_flatMap_others (h : Inventory declarations) :
    ((groups declarations).flatMap fun (_, group) => others group).Nodup := by
  rw [List.Nodup, List.pairwise_flatMap]
  constructor
  · rintro ⟨o, g⟩ hg
    obtain ⟨-, rfl⟩ := mem_groups_iff.1 hg
    have hnodup : (ofOrigin o declarations).Nodup :=
      (ofOrigin_ordered h o).imp fun hlt e => by rw [e] at hlt; omega
    exact hnodup.sublist (others_sublist _)
  · have hkeys := nodup_groups declarations
    rw [List.Nodup, List.pairwise_map] at hkeys
    refine hkeys.imp_of_mem fun {a b} ha hb hne d hda e hdb hde => ?_
    subst hde
    obtain ⟨-, hga⟩ := mem_groups_iff.1 ha
    obtain ⟨-, hgb⟩ := mem_groups_iff.1 hb
    simp only [hga] at hda
    simp only [hgb] at hdb
    exact hne (((mem_others h).1 hda).1.2.symm.trans ((mem_others h).1 hdb).1.2)

theorem aliases_pairwise (h : Inventory declarations) :
    (ofDeclarations declarations).aliases.Pairwise fun d e => d.order < e.order := by
  have hnodup : (ofDeclarations declarations).aliases.Nodup :=
    (List.mergeSort_perm _ _).nodup_iff.2 (nodup_flatMap_others h)
  have hsorted : (ofDeclarations declarations).aliases.Pairwise fun d e => decide (d.order ≤ e.order) = true :=
    List.pairwise_mergeSort (fun _ _ _ hab hbc => by simp at *; omega) (fun _ _ => by simp; omega) _
  refine (hnodup.and hsorted).imp_of_mem fun {d e} hd he hde => ?_
  have hne : d.order ≠ e.order := fun ho => hde.1
    (h.eq_of_order ((mem_aliases_ofDeclarations h).1 hd).1 ((mem_aliases_ofDeclarations h).1 he).1 ho)
  have hle : d.order ≤ e.order := of_decide_eq_true hde.2
  omega

/-- **The plan of a run parts its declarations.** -/
theorem partition_ofDeclarations (h : Inventory declarations) : (ofDeclarations declarations).Partition where
  nodup_canonical := ImportPlan.nodup_canonical declarations
  canonical_mem hc := by
    rw [canonicalOf?_ofDeclarations] at hc
    exact mem_ofOrigin.1 (choose?_spec hc).1
  canonical_isSome d hd := by
    rw [canonicalOf?_ofDeclarations]
    exact choose?_isSome (List.ne_nil_of_mem (mem_ofOrigin.2 ⟨hd, rfl⟩))
  canonical_eq origin := by
    rw [canonicalOf?_ofDeclarations]
    exact choose?_eq_preferred? (ofOrigin_ordered h origin)
  canonicalFor_eq d hd := by
    obtain ⟨m, hm, ho⟩ := h.origin_eq hd
    rw [canonicalFor?, hm, ho]
  mem_aliases := by
    intro d
    rw [mem_aliases_ofDeclarations h, canonicalOf?_ofDeclarations]
    rfl
  aliases_nodup := (List.mergeSort_perm _ _).nodup_iff.2 (nodup_flatMap_others h)
  aliases_ordered := aliases_pairwise h
  isCanonical_iff d hd := by
    rw [isCanonical, canonicalOf?_ofDeclarations]
    cases hc : choose? (ofOrigin d.origin declarations) with
    | none => simp
    | some c =>
      have hcm := (mem_ofOrigin.1 (choose?_spec hc).1).1
      simp only [sameLocation_iff, Option.some_inj]
      exact ⟨fun hl => h.eq_of_location hcm hd hl.1 hl.2, fun e => by simp [e]⟩

/-! ## The plan of a dump -/

/-- A placed hierarchy, in which all schemas are in order, with the plan for its declarations. -/
structure Run (root : Package) (plan : ImportPlan) : Prop where
  placed : Package.Placed [] root
  inventory : Inventory plan.declarations
  listed : plan.declarations.map (fun d => (d.path, d.name, d.schema)) = root.walk.flatMap Package.visibleSchemas
  declared : ∀ d ∈ plan.declarations, d.schema.problemOfDeclared? = none
  named : ∀ d ∈ plan.declarations, Dump.Named d.schema
  partition : plan.Partition

/-- A hierarchy that holds the definitions of a dump has a plan. -/
theorem exists_run {raw : List (Value × Value)} {root : Package} (h : Dump.Holds raw root) :
    ∃ plan, ofPackage? root = some plan ∧ root.declarations? = some plan.declarations ∧ Run root plan := by
  obtain ⟨declarations, hd, hinv, hmap⟩ := Package.exists_inventory h.placed fun _ _ _ hs =>
    (Schema.problemOfDeclared?_eq_none.1 (h.declared hs)).1
  refine ⟨ofDeclarations declarations, by rw [ofPackage?, hd]; rfl, hd, h.placed, hinv, hmap, fun d hd => ?_,
    fun d hd => ?_, partition_ofDeclarations hinv⟩
  · obtain ⟨segments, -, hs⟩ := Package.visible_of_declared h.placed hmap hd
    exact h.declared hs
  · obtain ⟨segments, -, hs⟩ := Package.visible_of_declared h.placed hmap hd
    exact h.named hs

/-- **Every accepted dump has a plan, and the plan parts the declarations of the dump.** Listing the declarations
once more gives those of the plan. -/
theorem partition_of_packageOf {defaultName : String} {document : List (Value × Value)} {root : Package}
    (h : Dump.packageOf defaultName document = .ok root) :
    ∃ plan, ofPackage? root = some plan ∧ root.declarations? = some plan.declarations ∧ plan.Partition := by
  obtain ⟨raw, -, hholds⟩ := Dump.holds_of_packageOf h
  obtain ⟨plan, hplan, hd, hrun⟩ := exists_run hholds
  exact ⟨plan, hplan, hd, hrun.partition⟩

end ImportPlan

namespace Dump

/-- The definition of a schema `name` that is declared in a package. -/
def declaredIn (package name : String) (fields : List (Value × Value)) : Value :=
  .map ((.str "x-kcl-type", .map [(.str "type", .str name),
    (.str "import", .map [(.str "package", .str package)])]) :: fields)

/-- A dump in which one schema is visible at home and, under another name, in a package before that. -/
def reexported : List (Value × Value) :=
  [(.str "definitions", .map [
    (.str "base.sub.Unit", declaredIn "base.sub" "Unit" []),
    (.str "api.Part", declaredIn "base.sub" "Unit" [])])]

theorem partition_of_reexported : ∃ root, packageOf "main" reexported = .ok root ∧
    ∃ plan, ImportPlan.ofPackage? root = some plan ∧ root.declarations? = some plan.declarations ∧ plan.Partition := by
  obtain ⟨root, h⟩ := exists_ok_of_isOk (by decide +kernel : (packageOf "main" reexported).isOk = true)
  exact ⟨root, h, ImportPlan.partition_of_packageOf h⟩

end Dump

end SchemaDocs
