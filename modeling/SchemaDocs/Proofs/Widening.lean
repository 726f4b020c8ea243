import SchemaDocs.Proofs.Likeness

/-!
# Hierarchies with one more schema

A hierarchy can show one more schema than another one, in a place of its own and with the packages on the way there
(`Widened`). The declarations are then the same in outline, and one more (`Extends`). If the new one is of a schema that
is documented at home, it is an alias, since it is not at home itself, and every origin keeps its canonical declaration
(`AddsAlias.sameCanonical`). So the documents of schemas are the same, and an index differs only if it tells the new
place: that of the package with it lists one more schema, and that of the last package on the way that was there before
lists one more sub-package (`AddsAlias.undisturbed`).
-/

namespace SchemaDocs

open Package (Placed schemaAt? pathOf segmentsOf)

/-- The second list is the first one with one more element. -/
def OneMore {α : Type} (a : α) (l l' : List α) : Prop := ∃ front back, l = front ++ back ∧ l' = front ++ a :: back

theorem OneMore.map {α β : Type} {a : α} {l l' : List α} (h : OneMore a l l') (f : α → β) :
    OneMore (f a) (l.map f) (l'.map f) := by
  obtain ⟨front, back, rfl, rfl⟩ := h
  exact ⟨front.map f, back.map f, List.map_append, by rw [List.map_append, List.map_cons]⟩

theorem OneMore.mem_iff {α : Type} {a b : α} {l l' : List α} (h : OneMore a l l') : b ∈ l' ↔ b = a ∨ b ∈ l := by
  obtain ⟨front, back, rfl, rfl⟩ := h
  rw [List.mem_append, List.mem_append, List.mem_cons, or_left_comm]

theorem OneMore.eq_singleton {α : Type} {a : α} {l : List α} (h : OneMore a [] l) : l = [a] := by
  obtain ⟨front, back, hnil, rfl⟩ := h
  obtain ⟨rfl, rfl⟩ := List.append_eq_nil_iff.1 hnil.symm
  rfl

theorem oneMore_insertByName {α : Type} (name : α → String) (a : α) : ∀ l : List α,
    OneMore a l (Assoc.insertByName name a l)
  | [] => ⟨[], [], rfl, rfl⟩
  | b :: rest => by
    rw [Assoc.insertByName]
    split
    · obtain ⟨front, back, hl, hl'⟩ := oneMore_insertByName name a rest
      exact ⟨b :: front, back, congrArg _ hl, congrArg _ hl'⟩
    · exact ⟨[], b :: rest, rfl, rfl⟩

/-! ## Hierarchies with one more schema -/

/-- The second hierarchy is the first one with one more schema, visible in a place where there was none, and with the
packages on the way to it. -/
structure Widened (root root' : Package) (segments : List String) (visible : String) (t : Schema) : Prop where
  name : root'.name = root.name
  description : root'.description = root.description
  packages : ∀ segments', (root'.find? segments').isSome ↔ segments' <+: segments ∨ (root.find? segments').isSome
  fresh : schemaAt? segments visible root = none
  added : schemaAt? segments visible root' = some t
  schemas : ∀ segments' visible', ¬ (segments' = segments ∧ visible' = visible) →
    (schemaAt? segments' visible' root').map Schema.outline = (schemaAt? segments' visible' root).map Schema.outline

namespace Widened

variable {root root' p p' : Package} {segments segments' : List String} {visible : String} {t : Schema}

/-- A package that there was has the same name, path and description. -/
theorem package_eq (h : Widened root root' segments visible t) (hroot : Placed [] root) (hroot' : Placed [] root')
    (hp : root.find? segments' = some p) (hp' : root'.find? segments' = some p') :
    p'.name = p.name ∧ p'.path = p.path ∧ p'.description = p.description :=
  Alike.package_eq h.name h.description hroot' hroot hp' hp

/-- The sub-packages of a package that there was are the same, but for one on the way to the new place. -/
theorem mem_subpackages (h : Widened root root' segments visible t) (hp : root.find? segments' = some p)
    (hp' : root'.find? segments' = some p') (child : String) : child ∈ p'.subpackages.map (·.1) ↔
      segments' ++ [child] <+: segments ∨ child ∈ p.subpackages.map (·.1) := by
  rw [Alike.mem_subpackages hp', Alike.mem_subpackages hp, h.packages]

theorem subpackages_eq (h : Widened root root' segments visible t) (hroot : Placed [] root) (hroot' : Placed [] root')
    (hp : root.find? segments' = some p) (hp' : root'.find? segments' = some p')
    (hway : ∀ child, segments' ++ [child] <+: segments → (root.find? (segments' ++ [child])).isSome) :
    Assoc.sortByName id (p'.subpackages.map (·.1)) = Assoc.sortByName id (p.subpackages.map (·.1)) := by
  have hplaced := (hroot.find? hp).1.nodup_subpackages
  have hplaced' := (hroot'.find? hp').1.nodup_subpackages
  refine Assoc.sortByName_eq_of_perm id ((List.perm_ext_iff_of_nodup hplaced' hplaced).2 fun child => ?_)
    (by simpa using hplaced')
  rw [h.mem_subpackages hp hp', or_iff_right_iff_imp]
  exact fun hchild => (Alike.mem_subpackages hp child).2 (hway child hchild)

theorem subpackages_oneMore (h : Widened root root' segments visible t) (hroot : Placed [] root)
    (hroot' : Placed [] root') (hp : root.find? segments' = some p) (hp' : root'.find? segments' = some p')
    {child : String}
    (hway : segments' ++ [child] <+: segments) (hnew : root.find? (segments' ++ [child]) = none) :
    OneMore child (Assoc.sortByName id (p.subpackages.map (·.1))) (Assoc.sortByName id (p'.subpackages.map (·.1))) := by
  have hplaced := (hroot.find? hp).1.nodup_subpackages
  have hplaced' := (hroot'.find? hp').1.nodup_subpackages
  have hnot : child ∉ p.subpackages.map (·.1) := by
    rw [Alike.mem_subpackages hp, hnew]
    simp
  have hperm : (p'.subpackages.map (·.1)).Perm (child :: p.subpackages.map (·.1)) := by
    refine (List.perm_ext_iff_of_nodup hplaced' (List.nodup_cons.2 ⟨hnot, hplaced⟩)).2 fun other => ?_
    rw [h.mem_subpackages hp hp', List.mem_cons]
    refine or_congr_left ⟨fun hother => ?_, fun hother => hother ▸ hway⟩
    -- there is only one way to a place
    have hlength := (List.prefix_of_prefix_length_le hother hway (by simp)).eq_of_length (by simp)
    simpa using hlength
  rw [Assoc.sortByName_eq_of_perm id hperm (by simpa using hplaced'), Assoc.sortByName]
  exact oneMore_insertByName id child _

/-- If the package with the new place is new itself, there is nothing else in it. -/
theorem newcomer (h : Widened root root' segments visible t) (hroot' : Placed [] root')
    (hnew : root.find? segments = none) (hp' : root'.find? segments = some p') :
    p'.path = pathOf segments ∧ pathOf segments ≠ "" ∧ p'.description = "" ∧ p'.subpackages.map (·.1) = [] := by
  obtain ⟨hplaced', hsegments'⟩ := hroot'.find? hp'
  obtain ⟨front, last, rfl⟩ := (List.eq_nil_or_concat segments).resolve_left fun heq => by
    rw [heq] at hnew
    cases hnew
  rw [List.concat_eq_append] at *
  refine ⟨hplaced'.path_eq, fun hempty => ?_, (hroot'.name_of_find? hp').2, ?_⟩
  · exact absurd (Package.join_eq_empty (fun s hs => (hsegments' s hs).1) hempty) (by simp)
  · refine List.eq_nil_iff_forall_not_mem.2 fun child hchild => ?_
    rw [Alike.mem_subpackages hp', h.packages, Package.find?_append, hnew] at hchild
    rcases hchild with hway | hchild
    · exact absurd hway.length_le (by simp)
    · cases hchild

end Widened

/-! ## Declarations -/

namespace ImportPlan

variable {root root' p p' : Package} {plan plan' : ImportPlan} {o : Options} {c d : Declaration}
  {segments segments' : List String} {visible : String} {t : Schema}

/-- The declarations of a run in outline are the schemas that are visible, in outline. -/
theorem Run.mem_outline (h : Run root plan) {x : Declaration} : x ∈ plan.declarations.map Declaration.outline ↔
    ∃ segments name s, schemaAt? segments name root = some s ∧
      x = Declaration.ofVisible (pathOf segments) name s.outline := by
  rw [List.mem_map]
  constructor
  · rintro ⟨d, hd, rfl⟩
    obtain ⟨segments, hpath, hs⟩ := h.visible hd
    exact ⟨segments, d.name, d.schema, hs, by rw [outline_eq_ofVisible h hd, hpath]⟩
  · rintro ⟨segments, name, s, hs, rfl⟩
    obtain ⟨d, hd, hpath, rfl, rfl⟩ := h.exists_declaration hs
    exact ⟨d, hd, by rw [outline_eq_ofVisible h hd, hpath]⟩

/-- The declarations of the second plan are those of the first one in outline, and one more in a place of its own. -/
structure Extends (plan plan' : ImportPlan) (front back : List Declaration) (d : Declaration) : Prop where
  declarations : plan'.declarations = front ++ d :: back
  outline : (front ++ back).map Declaration.outline = plan.declarations.map Declaration.outline
  fresh : ∀ e ∈ front ++ back, ¬ (e.path = d.path ∧ e.name = d.name)

/-- The segments of a place are determined by its path. -/
theorem segments_unique {s s' : Schema} {visible' : String} (hroot : Placed [] root) (hroot' : Placed [] root')
    (hs : schemaAt? segments visible root = some s) (hs' : schemaAt? segments' visible' root' = some s')
    (hpath : pathOf segments = pathOf segments') : segments = segments' := by
  rw [← Package.segmentsOf_pathOf (hroot.isSegment_of_schemaAt? hs), hpath,
    Package.segmentsOf_pathOf (hroot'.isSegment_of_schemaAt? hs')]

/-- The declarations of a run, cut at one of them. The others stand in other places. -/
theorem Run.exists_cut (h : Run root plan) (hd : d ∈ plan.declarations) : ∃ front back,
    plan.declarations = front ++ d :: back ∧ (front ++ back).Pairwise Declaration.Before ∧
      (∀ e ∈ front ++ back, ¬ (e.path = d.path ∧ e.name = d.name)) ∧
      ∀ e, e ∈ front ++ back ↔ e ∈ plan.declarations ∧ e ≠ d := by
  obtain ⟨front, back, hdeclarations⟩ := List.append_of_mem hd
  have hlocated := h.inventory.located
  rw [hdeclarations] at hlocated
  have hfresh : ∀ e ∈ front ++ back, ¬ (e.path = d.path ∧ e.name = d.name) := by
    intro e he
    obtain ⟨-, hback, hacross⟩ := List.pairwise_append.1 hlocated
    rcases List.mem_append.1 he with he | he
    · exact (hacross e he d List.mem_cons_self).not_sameLocation
    · exact fun hsame => ((List.pairwise_cons.1 hback).1 e he).not_sameLocation ⟨hsame.1.symm, hsame.2.symm⟩
  refine ⟨front, back, hdeclarations,
    hlocated.sublist ((List.Sublist.refl front).append (List.sublist_cons_self d back)), hfresh, fun e => ?_⟩
  rw [hdeclarations, List.mem_append, List.mem_append, List.mem_cons]
  constructor
  · intro he
    exact ⟨he.imp_right .inr, fun heq => hfresh e (List.mem_append.2 he) (heq ▸ ⟨rfl, rfl⟩)⟩
  · rintro ⟨he | rfl | he, hne⟩
    · exact .inl he
    · exact absurd rfl hne
    · exact .inr he

/-- **The declarations of a hierarchy with one more schema** are the same in outline, and one more. -/
theorem exists_extends (h : Run root plan) (h' : Run root' plan') (hw : Widened root root' segments visible t) :
    ∃ front back d, Extends plan plan' front back d ∧ d.directory = segments ∧ d.name = visible ∧ d.schema = t := by
  obtain ⟨d, hd, hpath, hname, hschema⟩ := h'.exists_declaration hw.added
  obtain ⟨front, back, hdeclarations, hbefore, hfresh, hmem⟩ := h'.exists_cut hd
  have hdirectory : d.directory = segments := by
    rw [Declaration.directory, hpath, Package.segmentsOf_pathOf (h'.placed.isSegment_of_schemaAt? hw.added)]
  refine ⟨front, back, d, ⟨hdeclarations, ?_, hfresh⟩, hdirectory, hname, hschema⟩
  have hasymm (a b : Declaration) : a.Before b → ¬ b.Before a := Declaration.Before.asymm
  refine Assoc.eq_of_pairwise_of_mem_iff hasymm (List.pairwise_map.2 hbefore)
    (List.pairwise_map.2 h.inventory.located) fun x => ?_
  rw [h.mem_outline, List.mem_map]
  constructor
  · rintro ⟨e, he, rfl⟩
    obtain ⟨segments', hpath', hs⟩ := h'.visible ((hmem e).1 he).1
    have hplace : ¬ (segments' = segments ∧ e.name = visible) := fun hsame =>
      hfresh e he ⟨by rw [hpath', hpath, hsame.1], hsame.2.trans hname.symm⟩
    have hschemas := hw.schemas _ _ hplace
    rw [hs, Option.map_some, eq_comm, Option.map_eq_some_iff] at hschemas
    obtain ⟨s, hs', houtline⟩ := hschemas
    exact ⟨segments', e.name, s, hs', by rw [outline_eq_ofVisible h' ((hmem e).1 he).1, hpath', houtline]⟩
  · rintro ⟨segments', visible', s, hs, rfl⟩
    have hplace : ¬ (segments' = segments ∧ visible' = visible) := by
      rintro ⟨rfl, rfl⟩
      rw [hw.fresh] at hs
      cases hs
    have hschemas := hw.schemas _ _ hplace
    rw [hs, Option.map_some, Option.map_eq_some_iff] at hschemas
    obtain ⟨s', hs', houtline⟩ := hschemas
    obtain ⟨e, he, hpath', hname', rfl⟩ := h'.exists_declaration hs'
    refine ⟨e, (hmem e).2 ⟨he, fun heq => ?_⟩, by rw [outline_eq_ofVisible h' he, hpath', hname', houtline]⟩
    subst heq
    exact hplace ⟨segments_unique h'.placed h'.placed hs' hw.added (hpath'.symm.trans hpath), hname'.symm.trans hname⟩

/-! ## Canonical declarations -/

/-- A declaration that is not at home does not matter where there is one at home. -/
theorem preferred?_of_home {front back : List Declaration} (hd : d.isHome = false)
    (hhome : ∃ e ∈ front ++ back, e.isHome = true) : preferred? (front ++ d :: back) = preferred? (front ++ back) := by
  obtain ⟨e, he⟩ := Option.isSome_iff_exists.1 (List.find?_isSome.2 hhome)
  have hinsert : (front ++ d :: back).find? Declaration.isHome = some e := by
    rw [← he, List.find?_append, List.find?_append, List.find?_cons_of_neg (by simp [hd])]
  rw [preferred?, preferred?, hinsert, he, Option.some_or, Option.some_or]

namespace Extends

variable {front back : List Declaration} (he : Extends plan plan' front back d)
include he

/-- A declaration that there was is there in outline. -/
theorem exists_outline (hc : c ∈ plan.declarations) : ∃ e ∈ front ++ back, e.outline = c.outline := by
  have hm : c.outline ∈ plan.declarations.map Declaration.outline := List.mem_map_of_mem hc
  rwa [← he.outline, List.mem_map] at hm

theorem mem_declarations : d ∈ plan'.declarations := he.declarations ▸ List.mem_append_right _ List.mem_cons_self

/-- The new declaration is not where one stands that there was. -/
theorem not_sameLocation (hc : c ∈ plan.declarations) : ¬ (c.path = d.path ∧ c.name = d.name) := by
  obtain ⟨e, hm, houtline⟩ := he.exists_outline hc
  obtain ⟨hpath, hname, -, -⟩ := Declaration.outline_eq_iff.1 houtline
  rw [← hpath, ← hname]
  exact he.fresh e hm

/-- What is made of the declarations in a package, if it depends on their outlines, is the same, but for the new one. -/
theorem filterMap_declaredIn {β : Type} {f g : Declaration → Option β} (hp : p'.path = p.path)
    (hfg : ∀ a b, a.outline = b.outline → f a = g b) : ∃ l r, (plan.declaredIn p).filterMap f = l ++ r ∧
      (plan'.declaredIn p').filterMap g = l ++ (if d.path = p'.path then (g d).toList else []) ++ r := by
  have houtline : ((front ++ back).filter fun e => e.path = p'.path).map Declaration.outline =
      (plan.declaredIn p).map Declaration.outline := by
    rw [declaredIn_outline, ← he.outline, hp, List.filter_map]
    rfl
  refine ⟨(front.filter fun e => e.path = p'.path).filterMap g, (back.filter fun e => e.path = p'.path).filterMap g,
    ?_, ?_⟩
  · rw [← List.filterMap_append, ← List.filter_append]
    exact (filterMap_eq_of_map_eq (fun a b hab => (hfg b a hab.symm).symm) houtline).symm
  · rw [declaredIn, he.declarations, List.filter_append, List.filter_cons, List.filterMap_append]
    by_cases hd : d.path = p'.path
    · simp only [hd, decide_true, ↓reduceIte, List.filterMap_cons]
      cases g d <;> simp
    · simp [hd]

end Extends

/-- A run, and one that has one more declaration `d`, of a schema that has its document at home, with `c`. -/
structure AddsAlias (root root' : Package) (plan plan' : ImportPlan) (front back : List Declaration)
    (d c : Declaration) : Prop where
  run : Run root plan
  run' : Run root' plan'
  widened : Widened root root' d.directory d.name d.schema
  extended : Extends plan plan' front back d
  canonical : plan.canonicalOf? d.origin = some c
  home : c.isHome = true

namespace AddsAlias

variable {front back : List Declaration} (h : AddsAlias root root' plan plan' front back d c)
include h

theorem not_home : d.isHome = false := by
  obtain ⟨hcm, horigin⟩ := h.run.partition.canonical_mem h.canonical
  have hhome := h.home
  rw [Bool.eq_false_iff]
  intro hd
  simp only [Declaration.isHome, Declaration.isAtOrigin, Bool.and_eq_true, decide_eq_true_eq] at hd hhome
  exact h.extended.not_sameLocation hcm ⟨hhome.1.trans (horigin ▸ hd.1.symm), hhome.2.trans (horigin ▸ hd.2.symm)⟩

/-- **Every origin keeps its canonical declaration.** -/
theorem sameCanonical : SameCanonical plan plan' := by
  obtain ⟨hcm, horigin⟩ := h.run.partition.canonical_mem h.canonical
  intro origin
  rw [h.run.partition.canonical_eq, h.run'.partition.canonical_eq, ← preferred?_outline, ← preferred?_outline,
    ← ofOrigin_outline, ← ofOrigin_outline, h.extended.declarations, ← h.extended.outline]
  simp only [List.map_append, List.map_cons, ofOrigin, List.filter_append, List.filter_cons]
  by_cases ho : d.outline.origin = origin
  · simp only [ho, decide_true, ↓reduceIte]
    have hnot : d.outline.isHome = false := h.not_home
    refine (preferred?_of_home hnot ⟨c.outline, ?_, h.home⟩).symm
    rw [← List.filter_append, ← List.map_append, h.extended.outline, List.mem_filter]
    exact ⟨List.mem_map_of_mem hcm, decide_eq_true (horigin.trans ho)⟩
  · simp [ho]

/-- The canonical declaration of the new one is the one at home. -/
theorem exists_canonical : ∃ c', plan'.canonicalOf? d.origin = some c' ∧ c.outline = c'.outline := by
  rcases h.sameCanonical.cases d.origin with ⟨hnone, -⟩ | ⟨c1, c', hc1, hc', houtline⟩
  · rw [h.canonical] at hnone
    cases hnone
  · obtain rfl : c = c1 := Option.some_inj.1 (h.canonical.symm.trans hc1)
    exact ⟨c', hc', houtline⟩

/-- The new declaration is an alias. -/
theorem not_canonical : plan'.isCanonical d = false := by
  obtain ⟨c', hc', houtline⟩ := h.exists_canonical
  rw [Bool.eq_false_iff, Ne, h.run'.partition.isCanonical_iff d h.extended.mem_declarations]
  intro hcanonical
  obtain rfl : d = c' := Option.some_inj.1 (hcanonical.symm.trans hc')
  obtain ⟨hpath, hname, -, -⟩ := Declaration.outline_eq_iff.1 houtline
  exact h.extended.not_sameLocation (h.run.partition.canonical_mem h.canonical).1 ⟨hpath, hname⟩

end AddsAlias

/-! ## Pages -/

/-- The entry for a schema in the index of one more package, by the name under which it is visible there. -/
def reexport (o : Options) (directory : List String) (visible : String) (c : Declaration) : IndexEntry where
  name := visible
  link := o.platform.relativeLink (c.documentPath o) directory
  aliasOf := some c.origin.text
  deprecated := c.schema.isDeprecated

namespace AddsAlias

variable {front back : List Declaration} (h : AddsAlias root root' plan plan' front back d c)
include h

/-- The entry of the new declaration links to the document at home, and tells the same about the schema. -/
theorem entry?_new : plan'.entry? o d = if isIgnored o c then none else some (reexport o d.directory d.name c) := by
  obtain ⟨c', hc', houtline⟩ := h.exists_canonical
  obtain ⟨-, -, -, horigin⟩ := Declaration.outline_eq_iff.1 houtline
  unfold entry? reexport
  simp only [hc', ← isIgnored_congr houtline, h.not_canonical, Bool.false_eq_true, ↓reduceIte,
    ← documentPath_congr houtline, ← horigin, Facts.isDeprecated, Facts.deprecation?, Declaration.facts_eq houtline]

/-- The new declaration has no page. -/
theorem page?_new : plan'.page? o d = none := by
  simp [page?, h.not_canonical]

/-- **The pages of declarations are the same.** -/
theorem mem_page?_iff {page : List String × Page} : (∃ e ∈ plan'.declarations, plan'.page? o e = some page) ↔
    ∃ e ∈ plan.declarations, plan.page? o e = some page := by
  constructor
  · rintro ⟨e, hm, hpage⟩
    have hne : e ≠ d := by
      rintro rfl
      rw [h.page?_new] at hpage
      cases hpage
    have hm : e ∈ front ++ back := by
      rw [h.extended.declarations] at hm
      simpa [hne] using hm
    obtain ⟨e', hm', houtline⟩ := List.mem_map.1 (h.extended.outline ▸ List.mem_map_of_mem hm)
    exact ⟨e', hm', (page?_congr h.sameCanonical houtline).trans hpage⟩
  · rintro ⟨e, hm, hpage⟩
    obtain ⟨e', hm', houtline⟩ := h.extended.exists_outline hm
    refine ⟨e', ?_, (page?_congr h.sameCanonical houtline.symm).symm.trans hpage⟩
    rw [h.extended.declarations]
    simp only [List.mem_append, List.mem_cons] at hm' ⊢
    exact hm'.imp_right .inr

/-- The index of a package in another place lists the same schemas. -/
theorem entries_eq (hp : p'.path = p.path) (hplace : d.path ≠ p'.path) :
    (plan'.declaredIn p').filterMap (plan'.entry? o) = (plan.declaredIn p).filterMap (plan.entry? o) := by
  obtain ⟨l, r, hl, hr⟩ :=
    h.extended.filterMap_declaredIn hp fun _ _ hab => entry?_congr (o := o) h.sameCanonical hab
  rw [hl, hr, if_neg hplace, List.append_nil]

/-- The index of the package with the new place lists one more schema, unless it is left out. -/
theorem entries_oneMore (hp : p'.path = p.path) (hplace : d.path = p'.path) :
    if isIgnored o c then
      (plan'.declaredIn p').filterMap (plan'.entry? o) = (plan.declaredIn p).filterMap (plan.entry? o)
    else OneMore (reexport o d.directory d.name c) ((plan.declaredIn p).filterMap (plan.entry? o))
      ((plan'.declaredIn p').filterMap (plan'.entry? o)) := by
  obtain ⟨l, r, hl, hr⟩ :=
    h.extended.filterMap_declaredIn hp fun _ _ hab => entry?_congr (o := o) h.sameCanonical hab
  rw [hl, hr, if_pos hplace, h.entry?_new]
  split
  · simp
  · exact ⟨l, r, rfl, by simp⟩

end AddsAlias

/-! ## Documents -/

/-- The documents of a hierarchy and of the one with one more declaration of a schema, which is visible under a name in
a package and has its document with the declaration `c`. -/
structure Undisturbed (o : Options) (plan : ImportPlan) (root : Package) (segments : List String) (visible : String)
    (c : Declaration) (documents documents' : Documents) : Prop where
  /-- No document overwrites another. -/
  nodup : (documents.map (·.1)).Nodup ∧ (documents'.map (·.1)).Nodup
  /-- The documents of schemas are the same. -/
  schemas : ∀ path text, path.getLast? ≠ some o.indexFile → ((path, text) ∈ documents' ↔ (path, text) ∈ documents)
  /-- There are indices of the packages that there were, and of those on the way to the new place. -/
  indices : ∀ segments', segments' ++ [o.indexFile] ∈ documents'.map (·.1) ↔
    segments' ++ [o.indexFile] ∈ documents.map (·.1) ∨ segments' <+: segments
  /-- The index of a package is the same in another place, if there is no new package in it. -/
  same : ∀ {segments' p}, root.find? segments' = some p → segments' ≠ segments →
    (∀ child, segments' ++ [child] <+: segments → (root.find? (segments' ++ [child])).isSome) →
      (segments' ++ [o.indexFile], o.indexDocument (plan.indexPage o p)) ∈ documents ∧
      (segments' ++ [o.indexFile], o.indexDocument (plan.indexPage o p)) ∈ documents'
  /-- The index of the package with the new place lists one more schema, with a link to its document, unless it is left
  out. -/
  holder : ∀ {p}, root.find? segments = some p → ∃ entries,
    (segments ++ [o.indexFile], o.indexDocument (plan.indexPage o p)) ∈ documents ∧
    (segments ++ [o.indexFile], o.indexDocument { plan.indexPage o p with entries := entries }) ∈ documents' ∧
    if isIgnored o c then entries = (plan.indexPage o p).entries
    else OneMore (reexport o segments visible c) (plan.indexPage o p).entries entries
  /-- The index of the last package on the way that there was lists one more sub-package. -/
  ancestor : ∀ {segments' p child}, root.find? segments' = some p → segments' ++ [child] <+: segments →
    root.find? (segments' ++ [child]) = none → ∃ links,
      (segments' ++ [o.indexFile], o.indexDocument (plan.indexPage o p)) ∈ documents ∧
      (segments' ++ [o.indexFile], o.indexDocument { plan.indexPage o p with subpackages := links }) ∈ documents' ∧
      OneMore ⟨child, o.platform.joinPath [child, o.indexFile]⟩ (plan.indexPage o p).subpackages links
  /-- If the package with the new place is new itself, its index lists just the schema, unless it is left out. -/
  newcomer : root.find? segments = none → (segments ++ [o.indexFile], o.indexDocument {
    name := pathOf segments
    description := ""
    entries := if isIgnored o c then [] else [reexport o segments visible c]
    subpackages := [] }) ∈ documents'

/-- The index of a package is among the documents. -/
theorem mem_render_index (h : Run root plan) (hp : root.find? segments = some p) :
    (segments ++ [o.indexFile], o.indexDocument (plan.indexPage o p)) ∈ render o (plan.pages o root) := by
  obtain ⟨hplaced, hsegments⟩ := h.placed.find? hp
  refine mem_render.2 ⟨.index (plan.indexPage o p), (mem_pages_iff h).2 (.inr ⟨p, ?_, ?_, rfl⟩), rfl⟩
  · exact h.placed.mem_walk_iff.2 ⟨segments, hp⟩
  · rw [hplaced.segments_eq hsegments, List.nil_append]

/-- There are indices of the packages of the hierarchy and of nothing else. -/
theorem mem_render_index_iff (h : Run root plan) :
    segments ++ [o.indexFile] ∈ (render o (plan.pages o root)).map (·.1) ↔ (root.find? segments).isSome := by
  constructor
  · intro hm
    obtain ⟨⟨_, text⟩, hm, rfl⟩ := List.mem_map.1 hm
    obtain ⟨page, hm, -⟩ := mem_render.1 hm
    rcases (mem_pages_iff h).1 hm with ⟨d, -, hpage⟩ | ⟨p, hp, hpath, -⟩
    · obtain ⟨-, -, hpath, -⟩ := page?_eq_some hpage
      rw [Declaration.documentPath] at hpath
      have hlast := (List.append_inj' hpath rfl).2
      exact absurd (List.cons.inj hlast).1.symm (schemaFile_ne_indexFile d.name)
    · obtain ⟨segments', hfind, hplaced, hsegments⟩ := h.placed.of_mem_walk hp
      rw [hplaced.segments_eq hsegments, List.nil_append] at hpath
      rw [(List.append_inj' hpath rfl).1, hfind]
      rfl
  · intro hp
    obtain ⟨p, hp⟩ := Option.isSome_iff_exists.1 hp
    exact List.mem_map.2 ⟨_, mem_render_index h hp, rfl⟩

namespace AddsAlias

variable {front back : List Declaration} (h : AddsAlias root root' plan plan' front back d c)
include h

/-- The new declaration lies in the package of its directory. -/
theorem path_eq_iff (hp' : root'.find? segments = some p') : d.path = p'.path ↔ segments = d.directory := by
  obtain ⟨hplaced', hsegments'⟩ := h.run'.placed.find? hp'
  rw [hplaced'.path_eq, List.nil_append, Declaration.directory]
  refine ⟨fun heq => ?_, fun heq => ?_⟩
  · rw [heq, Package.segmentsOf_pathOf hsegments']
  · rw [heq, Package.pathOf_segmentsOf]

/-- A package that there was is still there, and it tells the same about itself. -/
theorem exists_package_eq (hp : root.find? segments = some p) : ∃ p', root'.find? segments = some p' ∧
    p'.name = p.name ∧ p'.path = p.path ∧ p'.description = p.description := by
  obtain ⟨p', hp'⟩ := Option.isSome_iff_exists.1 ((h.widened.packages segments).2 (.inr (by rw [hp]; rfl)))
  exact ⟨p', hp', h.widened.package_eq h.run.placed h.run'.placed hp hp'⟩

/-- The documents of schemas are the same. -/
theorem schemas {path : List String} {text : String} (hlast : path.getLast? ≠ some o.indexFile) :
    (path, text) ∈ render o (plan'.pages o root') ↔ (path, text) ∈ render o (plan.pages o root) := by
  simp only [mem_render, mem_pages_iff h.run, mem_pages_iff h.run']
  refine exists_congr fun page => and_congr_left fun _ => ?_
  rw [h.mem_page?_iff, or_iff_left, or_iff_left]
  all_goals
    rintro ⟨q, -, rfl, -⟩
    simp at hlast

/-- The index of a package is the same in another place, if there is no new package in it. -/
theorem same (hp : root.find? segments = some p) (hne : segments ≠ d.directory)
    (hway : ∀ child, segments ++ [child] <+: d.directory → (root.find? (segments ++ [child])).isSome) :
    (segments ++ [o.indexFile], o.indexDocument (plan.indexPage o p)) ∈ render o (plan'.pages o root') := by
  obtain ⟨p', hp', hname, hpath, hdescription⟩ := h.exists_package_eq hp
  have hentries := h.entries_eq (o := o) hpath (mt (h.path_eq_iff hp').1 hne)
  have hlinks := h.widened.subpackages_eq h.run.placed h.run'.placed hp hp' hway
  have hindex : plan'.indexPage o p' = plan.indexPage o p := by
    simp only [indexPage, PackageOutcome.index, hname, hpath, hdescription, hentries, hlinks]
  exact hindex ▸ mem_render_index h.run' hp'

/-- The index of the package with the new place lists one more schema, unless it is left out. -/
theorem holder (hp : root.find? d.directory = some p) : ∃ entries,
    (d.directory ++ [o.indexFile], o.indexDocument { plan.indexPage o p with entries := entries }) ∈
      render o (plan'.pages o root') ∧
    if isIgnored o c then entries = (plan.indexPage o p).entries
    else OneMore (reexport o d.directory d.name c) (plan.indexPage o p).entries entries := by
  obtain ⟨p', hp', hname, hpath, hdescription⟩ := h.exists_package_eq hp
  have hlinks := h.widened.subpackages_eq h.run.placed h.run'.placed hp hp' fun child hchild =>
    absurd hchild.length_le (by simp)
  have hindex : plan'.indexPage o p' =
      { plan.indexPage o p with entries := (plan'.declaredIn p').filterMap (plan'.entry? o) } := by
    simp only [indexPage, PackageOutcome.index, hname, hpath, hdescription, hlinks]
  exact ⟨_, hindex ▸ mem_render_index h.run' hp', h.entries_oneMore hpath ((h.path_eq_iff hp').2 rfl)⟩

/-- The index of the last package on the way that there was lists one more sub-package. -/
theorem ancestor {child : String} (hp : root.find? segments = some p) (hway : segments ++ [child] <+: d.directory)
    (hnew : root.find? (segments ++ [child]) = none) : ∃ links,
    (segments ++ [o.indexFile], o.indexDocument { plan.indexPage o p with subpackages := links }) ∈
      render o (plan'.pages o root') ∧
    OneMore ⟨child, o.platform.joinPath [child, o.indexFile]⟩ (plan.indexPage o p).subpackages links := by
  obtain ⟨p', hp', hname, hpath, hdescription⟩ := h.exists_package_eq hp
  have hne : segments ≠ d.directory := fun heq => absurd hway.length_le (by simp [heq])
  have hentries := h.entries_eq (o := o) hpath (mt (h.path_eq_iff hp').1 hne)
  have hlinks := h.widened.subpackages_oneMore h.run.placed h.run'.placed hp hp' hway hnew
  have hindex : plan'.indexPage o p' =
      { plan.indexPage o p with subpackages := (plan'.indexPage o p').subpackages } := by
    simp only [indexPage, PackageOutcome.index, hname, hpath, hdescription, hentries]
  exact ⟨_, hindex ▸ mem_render_index h.run' hp', hlinks.map _⟩

/-- Nothing was declared in a package that is new. -/
theorem declaredIn_eq_nil (hnew : root.find? d.directory = none) (hpath : p.path = pathOf d.directory) :
    plan.declaredIn p = [] := by
  refine List.eq_nil_iff_forall_not_mem.2 fun e he => ?_
  obtain ⟨he, hplace⟩ := mem_declaredIn.1 he
  obtain ⟨segments, hsegments, hs⟩ := h.run.visible he
  obtain rfl := segments_unique h.run.placed h.run'.placed hs h.widened.added
    (hsegments.symm.trans (hplace.trans hpath))
  rw [schemaAt?, hnew] at hs
  cases hs

/-- If the package with the new place is new itself, its index lists just the schema, unless it is left out. -/
theorem newcomer (hnew : root.find? d.directory = none) :
    (d.directory ++ [o.indexFile], o.indexDocument {
      name := pathOf d.directory
      description := ""
      entries := if isIgnored o c then [] else [reexport o d.directory d.name c]
      subpackages := [] }) ∈ render o (plan'.pages o root') := by
  obtain ⟨p', hp'⟩ := Option.isSome_iff_exists.1 ((h.widened.packages d.directory).2 (.inl (List.prefix_refl _)))
  obtain ⟨hpath, hnonempty, hdescription, hlinks⟩ := h.widened.newcomer h.run'.placed hnew hp'
  have hentries : (plan'.declaredIn p').filterMap (plan'.entry? o) =
      if isIgnored o c then [] else [reexport o d.directory d.name c] := by
    have hmore := h.entries_oneMore (o := o) (p := p') rfl ((h.path_eq_iff hp').2 rfl)
    rw [h.declaredIn_eq_nil hnew hpath, List.filterMap_nil] at hmore
    cases hi : isIgnored o c with
    | true => simpa [hi] using hmore
    | false => exact OneMore.eq_singleton (by simpa [hi] using hmore)
  have hindex : plan'.indexPage o p' = {
      name := pathOf d.directory
      description := ""
      entries := if isIgnored o c then [] else [reexport o d.directory d.name c]
      subpackages := [] } := by
    simp only [indexPage, PackageOutcome.index, hpath, String.isEmpty_iff, hnonempty, ↓reduceIte, hdescription, hlinks,
      hentries, Assoc.sortByName, List.map_nil]
  exact hindex ▸ mem_render_index h.run' hp'

/-- **One more declaration of a schema that is documented at home leaves the documents as they are**, but for the
indices that tell the new place. -/
theorem undisturbed (o : Options) : Undisturbed o plan root d.directory d.name c (render o (plan.pages o root))
    (render o (plan'.pages o root')) where
  nodup := ⟨nodup_render h.run, nodup_render h.run'⟩
  schemas _ _ hlast := h.schemas hlast
  indices segments := by rw [mem_render_index_iff h.run, mem_render_index_iff h.run', h.widened.packages, or_comm]
  same hp hne hway := ⟨mem_render_index h.run hp, h.same hp hne hway⟩
  holder hp := (h.holder hp).imp fun _ hentries => ⟨mem_render_index h.run hp, hentries⟩
  ancestor hp hway hnew := (h.ancestor hp hway hnew).imp fun _ hlinks => ⟨mem_render_index h.run hp, hlinks⟩
  newcomer := h.newcomer

end AddsAlias

end ImportPlan

end SchemaDocs
