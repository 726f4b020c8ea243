import SchemaDocs.Proofs.Outline
import SchemaDocs.Proofs.Pages

/-!
# Hierarchies that look alike

Two hierarchies look alike when they have the same packages and show schemas with the same outlines in the same places,
in whatever order these were put in. Their walks then tell the same, their declarations correspond one by one with the
same canonical ones among them, and so their pages are the same in every format and with all options
(`ImportPlan.pages_eq`).
-/

namespace SchemaDocs

open Package (Placed schemaAt? pathOf segmentsOf)

/-! ## Packages -/

/-- What documents tell about a package itself. -/
structure PackageOutline where
  name : String
  path : String
  description : String
  subpackages : List String
  schemas : List (String × Schema)

def Package.outline (p : Package) : PackageOutline where
  name := p.name
  path := p.path
  description := p.description
  subpackages := Assoc.sortByName id (p.subpackages.map (·.1))
  schemas := (Assoc.sortByName (·.1) p.schemas).map fun e => (e.1, e.2.outline)

/-- The two hierarchies have the same packages and show schemas with the same outlines. -/
structure Alike (root root' : Package) : Prop where
  name : root.name = root'.name
  description : root.description = root'.description
  packages : ∀ segments, (root.find? segments).isSome = (root'.find? segments).isSome
  schemas : ∀ segments name, (schemaAt? segments name root).map Schema.outline =
    (schemaAt? segments name root').map Schema.outline

namespace Alike

variable {root root' p q q' : Package} {segments : List String}

/-- Packages in the same place tell the same about themselves, if the roots do. -/
theorem package_eq (hname : root.name = root'.name) (hdescription : root.description = root'.description)
    (hp : Placed [] root) (hp' : Placed [] root') (hq : root.find? segments = some q)
    (hq' : root'.find? segments = some q') :
    q.name = q'.name ∧ q.path = q'.path ∧ q.description = q'.description := by
  have hpath : q.path = q'.path := (hp.find? hq).1.path_eq.trans (hp'.find? hq').1.path_eq.symm
  rcases List.eq_nil_or_concat segments with rfl | ⟨init, name, rfl⟩
  · cases hq
    cases hq'
    exact ⟨hname, hpath, hdescription⟩
  · rw [List.concat_eq_append] at hq hq'
    obtain ⟨h1, h2⟩ := hp.name_of_find? hq
    obtain ⟨h1', h2'⟩ := hp'.name_of_find? hq'
    exact ⟨h1.trans h1'.symm, hpath, h2.trans h2'.symm⟩

theorem mem_subpackages (hq : root.find? segments = some q) (name : String) :
    name ∈ q.subpackages.map (·.1) ↔ (root.find? (segments ++ [name])).isSome := by
  rw [Package.find?_append, hq, Option.bind_some, Package.find?_cons, ← Assoc.get?_isSome_iff]
  cases Assoc.get? name q.subpackages <;> rfl

theorem mem_schemas (hp : Placed [] root) (hq : root.find? segments = some q) (name : String) (o : Schema) :
    (name, o) ∈ (Assoc.sortByName (·.1) q.schemas).map (fun e => (e.1, e.2.outline)) ↔
      (schemaAt? segments name root).map Schema.outline = some o := by
  simp only [List.mem_map, Assoc.mem_sortByName, Prod.mk.injEq, schemaAt?, hq, Option.bind_some, Option.map_eq_some_iff,
    Assoc.get?_eq_some_iff (hp.find? hq).1.nodup_schemas]
  constructor
  · rintro ⟨⟨_, s⟩, hm, rfl, rfl⟩
    exact ⟨s, hm, rfl⟩
  · rintro ⟨s, hm, rfl⟩
    exact ⟨(name, s), hm, rfl, rfl⟩

theorem schemas_pairwise (hp : Placed [] root) (hq : root.find? segments = some q) :
    ((Assoc.sortByName (·.1) q.schemas).map fun e => (e.1, e.2.outline)).Pairwise fun e f => e.1 < f.1 :=
  List.pairwise_map.2 (Assoc.sortByName_pairwise Prod.fst (hp.find? hq).1.nodup_schemas)

theorem outline_eq (h : Alike root root') (hp : Placed [] root) (hp' : Placed [] root')
    (hq : root.find? segments = some q) (hq' : root'.find? segments = some q') : q.outline = q'.outline := by
  obtain ⟨hplaced, -⟩ := hp.find? hq
  obtain ⟨hplaced', -⟩ := hp'.find? hq'
  obtain ⟨hname, hpath, hdescription⟩ := package_eq h.name h.description hp hp' hq hq'
  have hsubpackages : Assoc.sortByName id (q.subpackages.map (·.1)) = Assoc.sortByName id (q'.subpackages.map (·.1)) := by
    refine Assoc.sortByName_eq_of_perm id ?_ (by simpa using hplaced.nodup_subpackages)
    refine (List.perm_ext_iff_of_nodup hplaced.nodup_subpackages hplaced'.nodup_subpackages).2 fun name => ?_
    rw [mem_subpackages hq, mem_subpackages hq', h.packages]
  have hschemas : (Assoc.sortByName (·.1) q.schemas).map (fun e => (e.1, e.2.outline)) =
      (Assoc.sortByName (·.1) q'.schemas).map fun e => (e.1, e.2.outline) := by
    refine Assoc.eq_of_pairwise_of_mem_iff (fun _ _ => String.lt_asymm) (schemas_pairwise hp hq) (schemas_pairwise hp' hq')
      fun e => ?_
    rw [mem_schemas hp hq, mem_schemas hp' hq', h.schemas]
  rw [Package.outline, Package.outline, hname, hdescription, hpath, hsubpackages, hschemas]

theorem mem_walk_outline (hp : Placed [] root) {x : PackageOutline} :
    x ∈ root.walk.map Package.outline ↔ ∃ segments, (root.find? segments).map Package.outline = some x := by
  simp only [List.mem_map, hp.mem_walk_iff, Option.map_eq_some_iff]
  constructor
  · rintro ⟨q, ⟨segments, hq⟩, rfl⟩
    exact ⟨segments, q, hq, rfl⟩
  · rintro ⟨segments, q, hq, rfl⟩
    exact ⟨q, ⟨segments, hq⟩, rfl⟩

/-- **The walks of two hierarchies that look alike tell the same.** -/
theorem walk_eq (h : Alike root root') (hp : Placed [] root) (hp' : Placed [] root') :
    root.walk.map Package.outline = root'.walk.map Package.outline := by
  have hpairwise : ∀ {r : Package}, Placed [] r →
      (r.walk.map Package.outline).Pairwise fun x y => segmentsOf x.path < segmentsOf y.path :=
    fun hr => List.pairwise_map.2 (hr.walk_pairwise (by simp))
  refine Assoc.eq_of_pairwise_of_mem_iff (fun _ _ => List.lt_asymm) (hpairwise hp) (hpairwise hp') fun x => ?_
  rw [mem_walk_outline hp, mem_walk_outline hp']
  refine exists_congr fun segments => ?_
  have hsome := h.packages segments
  cases hq : root.find? segments with
  | none =>
    cases hq' : root'.find? segments with
    | none => rfl
    | some q' => simp [hq, hq'] at hsome
  | some q =>
    cases hq' : root'.find? segments with
    | none => simp [hq, hq'] at hsome
    | some q' => rw [Option.map_some, Option.map_some, h.outline_eq hp hp' hq hq']

end Alike

/-! ## Declarations -/

namespace Declaration

/-- What documents tell about a declaration: its schema in outline, and not its position. -/
def outline (d : Declaration) : Declaration := { d with schema := d.schema.outline, order := 0 }

variable {d d' : Declaration}

theorem outline_eq_iff : d.outline = d'.outline ↔
    d.path = d'.path ∧ d.name = d'.name ∧ d.schema.outline = d'.schema.outline ∧ d.origin = d'.origin := by
  simp [outline]

/-- The outline of a declaration, made from what is visible. -/
def ofVisible (path name : String) (schema : Schema) : Declaration where
  path := path
  name := name
  schema := schema
  origin := (schema.modelType.map ModelType.origin).getD ⟨"", ""⟩
  order := 0

theorem facts_eq (h : d.outline = d'.outline) : d.schema.toFacts = d'.schema.toFacts := by
  rw [← Schema.toFacts_outline, (outline_eq_iff.1 h).2.2.1, Schema.toFacts_outline]

end Declaration

namespace ImportPlan

variable {root root' : Package} {plan plan' : ImportPlan} {o : Options} {d d' c c' : Declaration} {p p' : Package}

theorem outline_eq_ofVisible (h : Run root plan) (hd : d ∈ plan.declarations) :
    d.outline = Declaration.ofVisible d.path d.name d.schema.outline := by
  obtain ⟨m, hm, ho⟩ := h.inventory.origin_eq hd
  rw [Declaration.outline, Declaration.ofVisible, Schema.toFacts_outline, hm, ho]
  rfl

/-- **The declarations of hierarchies that look alike are the same in outline.** -/
theorem declarations_eq (h : Run root plan) (h' : Run root' plan') (ha : Alike root root') :
    plan.declarations.map Declaration.outline = plan'.declarations.map Declaration.outline := by
  have hwalk : ∀ {root plan}, Run root plan → plan.declarations.map Declaration.outline =
      (root.walk.map Package.outline).flatMap fun x => x.schemas.map fun e => Declaration.ofVisible x.path e.1 e.2 := by
    intro root plan h
    have hvisible := congrArg (List.map fun v : String × String × Schema =>
      Declaration.ofVisible v.1 v.2.1 v.2.2.outline) h.listed
    rw [List.map_map, List.map_flatMap] at hvisible
    rw [List.map_congr_left fun d hd => outline_eq_ofVisible h hd, List.flatMap_map]
    refine Eq.trans hvisible (congrArg (fun f => List.flatMap f root.walk) (funext fun p => ?_))
    simp only [Package.visibleSchemas, Package.outline, List.map_map]
    rfl
  rw [hwalk h, hwalk h', ha.walk_eq h.placed h'.placed]

/-! ## Canonical declarations -/

theorem preferred?_outline (group : List Declaration) :
    preferred? (group.map Declaration.outline) = (preferred? group).map Declaration.outline := by
  have hhome : Declaration.isHome ∘ Declaration.outline = Declaration.isHome := rfl
  have horigin : Declaration.isAtOrigin ∘ Declaration.outline = Declaration.isAtOrigin := rfl
  rw [preferred?, preferred?, List.find?_map, List.find?_map, hhome, horigin, List.head?_map, Option.map_or, Option.map_or]

theorem ofOrigin_outline (origin : Origin) (declarations : List Declaration) :
    ofOrigin origin (declarations.map Declaration.outline) = (ofOrigin origin declarations).map Declaration.outline := by
  rw [ofOrigin, List.filter_map]
  rfl

def SameCanonical (plan plan' : ImportPlan) : Prop :=
  ∀ origin, (plan.canonicalOf? origin).map Declaration.outline = (plan'.canonicalOf? origin).map Declaration.outline

theorem sameCanonical (h : Run root plan) (h' : Run root' plan') (ha : Alike root root') :
    SameCanonical plan plan' := by
  intro origin
  rw [h.partition.canonical_eq, h'.partition.canonical_eq, ← preferred?_outline, ← preferred?_outline, ← ofOrigin_outline,
    ← ofOrigin_outline, declarations_eq h h' ha]

/-- Either neither plan has a canonical declaration of an origin, or they have the same one in outline. -/
theorem SameCanonical.cases (hc : SameCanonical plan plan') (origin : Origin) :
    plan.canonicalOf? origin = none ∧ plan'.canonicalOf? origin = none ∨
      ∃ c c', plan.canonicalOf? origin = some c ∧ plan'.canonicalOf? origin = some c' ∧ c.outline = c'.outline := by
  have h := hc origin
  cases hp : plan.canonicalOf? origin with
  | none =>
    cases hp' : plan'.canonicalOf? origin with
    | none => exact Or.inl ⟨rfl, rfl⟩
    | some c' => simp [hp, hp'] at h
  | some c =>
    cases hp' : plan'.canonicalOf? origin with
    | none => simp [hp, hp'] at h
    | some c' =>
      simp only [hp, hp', Option.map_some, Option.some_inj] at h
      exact Or.inr ⟨c, c', rfl, rfl, h⟩

theorem isIgnored_congr (h : c.outline = c'.outline) : isIgnored o c = isIgnored o c' := by
  rw [isIgnored, isIgnored, Declaration.facts_eq h]

theorem documentPath_congr (h : c.outline = c'.outline) : c.documentPath o = c'.documentPath o := by
  obtain ⟨hpath, hname, -, -⟩ := Declaration.outline_eq_iff.1 h
  rw [Declaration.documentPath, Declaration.documentPath, Declaration.directory, Declaration.directory, hpath, hname]

theorem isNominal_link (plan : ImportPlan) (o : Options) (directory : List String) :
    (o.view (plan.link o directory)).IsNominal := by
  intro s t h
  simp only [Options.view, link, canonicalFor?, h]

section SameCanonical

variable (hc : SameCanonical plan plan')
include hc

theorem isCanonical_congr (hd : d.outline = d'.outline) : plan.isCanonical d = plan'.isCanonical d' := by
  obtain ⟨hpath, hname, -, horigin⟩ := Declaration.outline_eq_iff.1 hd
  rw [isCanonical, isCanonical, horigin]
  rcases hc.cases d'.origin with ⟨h1, h2⟩ | ⟨c, c', h1, h2, h⟩
  · rw [h1, h2]
  · obtain ⟨hpath', hname', -, -⟩ := Declaration.outline_eq_iff.1 h
    simp only [h1, h2, Declaration.sameLocation, hpath, hname, hpath', hname']

theorem link_congr (directory : List String) : plan.link o directory = plan'.link o directory := by
  funext s
  rw [link, link, canonicalFor?, canonicalFor?]
  cases s.modelType with
  | none => rfl
  | some m =>
    dsimp only
    rcases hc.cases m.origin with ⟨h1, h2⟩ | ⟨c, c', h1, h2, h⟩
    · rw [h1, h2]
    · simp only [h1, h2, isIgnored_congr h, documentPath_congr h]

/-- The entry of a declaration in the index depends on outlines only. -/
theorem entry?_congr (hd : d.outline = d'.outline) : plan.entry? o d = plan'.entry? o d' := by
  obtain ⟨hpath, hname, -, horigin⟩ := Declaration.outline_eq_iff.1 hd
  unfold entry?
  rw [horigin]
  rcases hc.cases d'.origin with ⟨h1, h2⟩ | ⟨c, c', h1, h2, h⟩
  · rw [h1, h2]
  · obtain ⟨-, -, -, horigin'⟩ := Declaration.outline_eq_iff.1 h
    simp only [h1, h2, isIgnored_congr h, isCanonical_congr hc hd, documentPath_congr h, Declaration.directory, hpath, hname,
      horigin', Declaration.facts_eq hd, Declaration.facts_eq h]

/-- The page of a declaration depends on outlines only: of the schemas that are referred to it tells the names. -/
theorem page?_congr (hd : d.outline = d'.outline) : plan.page? o d = plan'.page? o d' := by
  obtain ⟨hpath, -, hschema, -⟩ := Declaration.outline_eq_iff.1 hd
  have hfacts := Declaration.facts_eq hd
  have hattributes : d.schema.attributes (o.view (plan.link o d.directory)) =
      d'.schema.attributes (o.view (plan'.link o d'.directory)) := by
    rw [Declaration.directory, Declaration.directory, hpath, link_congr hc,
      ← Schema.attributes_outline (isNominal_link _ _ _), hschema, Schema.attributes_outline (isNominal_link _ _ _)]
  simp only [page?, Schema.page, isCanonical_congr hc hd, isIgnored_congr hd, documentPath_congr hd, hfacts, hattributes]

end SameCanonical

/-! ## Pages -/

theorem flatMap_eq_of_map_eq {α β γ : Type} {f : α → β} {g g' : α → List γ} (hg : ∀ a b, f a = f b → g a = g' b) :
    ∀ {l l' : List α}, l.map f = l'.map f → l.flatMap g = l'.flatMap g'
  | [], [], _ => rfl
  | a :: l, b :: l', h => by
    rw [List.map_cons, List.map_cons, List.cons.injEq] at h
    rw [List.flatMap_cons, List.flatMap_cons, hg a b h.1, flatMap_eq_of_map_eq hg h.2]

theorem filterMap_eq_of_map_eq {α β γ : Type} {f : α → β} {g g' : α → Option γ} (hg : ∀ a b, f a = f b → g a = g' b)
    {l l' : List α} (h : l.map f = l'.map f) : l.filterMap g = l'.filterMap g' := by
  rw [List.filterMap_eq_flatMap_toList, List.filterMap_eq_flatMap_toList]
  exact flatMap_eq_of_map_eq (fun a b hab => congrArg Option.toList (hg a b hab)) h

theorem declaredIn_outline (plan : ImportPlan) (p : Package) : (plan.declaredIn p).map Declaration.outline =
    (plan.declarations.map Declaration.outline).filter fun d => d.path = p.path := by
  rw [declaredIn, List.filter_map]
  rfl

theorem pagesOf_congr (hdeclarations : plan.declarations.map Declaration.outline =
    plan'.declarations.map Declaration.outline) (hc : SameCanonical plan plan') (hp : p.outline = p'.outline) :
    plan.pagesOf o p = plan'.pagesOf o p' := by
  simp only [Package.outline, PackageOutline.mk.injEq] at hp
  obtain ⟨hname, hpath, hdescription, hsubpackages, -⟩ := hp
  have hdeclared : (plan.declaredIn p).map Declaration.outline = (plan'.declaredIn p').map Declaration.outline := by
    rw [declaredIn_outline, declaredIn_outline, hdeclarations, hpath]
  have hpages := filterMap_eq_of_map_eq (fun d d' => page?_congr (o := o) hc) hdeclared
  have hentries := filterMap_eq_of_map_eq (fun d d' => entry?_congr (o := o) hc) hdeclared
  simp only [pagesOf, indexPage, PackageOutcome.index, Package.segments, hpages, hentries, hname, hpath, hdescription,
    hsubpackages]

/-- **Hierarchies that look alike have the same pages**, in every format and with all options. -/
theorem pages_eq (h : Run root plan) (h' : Run root' plan') (ha : Alike root root') (o : Options) :
    plan.pages o root = plan'.pages o root' :=
  flatMap_eq_of_map_eq (fun _ _ => pagesOf_congr (declarations_eq h h' ha) (sameCanonical h h' ha))
    (ha.walk_eq h.placed h'.placed)

end ImportPlan

end SchemaDocs
