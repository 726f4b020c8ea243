import SchemaDocs.Proofs.Canonical
import SchemaDocs.Proofs.Writable

/-!
# The pages of a run

The planner settles every declaration, checks its schema once more and puts documents into a table as it goes. For
the plan of a hierarchy nothing of this can fail or overwrite: the documents are the renderings of a list of pages
that is read off from the plan (`documents_eq`), and their keys are as many as there are pages (`Planned`).

What can fail is the writing of a value that a page shows. It does exactly when a page shows one that has no literal
(`Unwritable`), as a YAML collection that lies in itself (`not_written_of_knotted`).
-/

namespace SchemaDocs

open Package (segmentsOf)

/-- What a document tells, before it is written in a format. -/
inductive Page where
  | schema (page : SchemaPage)
  | index (page : IndexPage)

def Options.text (o : Options) : Page → String
  | .schema page => o.schemaDocument page
  | .index page => o.indexDocument page

/-- The index marks an entry as re-exported: it tells where the schema is declared. -/
def IndexEntry.isMarked (e : IndexEntry) : Bool := e.aliasOf.any fun origin => !origin.isEmpty

namespace ImportPlan

variable {o : Options} {plan : ImportPlan} {root p : Package} {c d : Declaration}

/-! ## The pages of a plan -/

/-- The declaration is left out, or would be if it were not an alias. -/
def isSkipped (o : Options) (plan : ImportPlan) (d : Declaration) : Bool :=
  (plan.canonicalOf? d.origin).any (isIgnored o)

def entry? (o : Options) (plan : ImportPlan) (d : Declaration) : Option IndexEntry :=
  match plan.canonicalOf? d.origin with
  | none => none
  | some canonical =>
    if isIgnored o canonical then none
    else if plan.isCanonical d then some {
      name := d.name
      link := o.schemaFile d.name
      deprecated := d.schema.isDeprecated }
    else some {
      name := d.name
      link := o.platform.relativeLink (canonical.documentPath o) d.directory
      aliasOf := some canonical.origin.text
      deprecated := canonical.schema.isDeprecated }

/-- The page of a declaration, at the path of its document. -/
def page? (o : Options) (plan : ImportPlan) (d : Declaration) : Option (List String × Page) :=
  if plan.isCanonical d && !isIgnored o d then d.schema.modelType.map fun modelType =>
    (d.documentPath o, .schema (d.schema.page o.platform (o.view (plan.link o d.directory)) modelType))
  else none

def declaredIn (plan : ImportPlan) (p : Package) : List Declaration :=
  plan.declarations.filter fun d => d.path = p.path

def indexPage (o : Options) (plan : ImportPlan) (p : Package) : IndexPage :=
  PackageOutcome.index o p ((plan.declaredIn p).filterMap (plan.entry? o))

def pagesOf (o : Options) (plan : ImportPlan) (p : Package) : List (List String × Page) :=
  (plan.declaredIn p).filterMap (plan.page? o) ++ [(p.segments ++ [o.indexFile], .index (plan.indexPage o p))]

def pages (o : Options) (plan : ImportPlan) (root : Package) : List (List String × Page) :=
  root.walk.flatMap (plan.pagesOf o)

def render (o : Options) (pages : List (List String × Page)) : Documents :=
  pages.map fun entry => (entry.1, o.text entry.2)

/-! ## The planner writes these pages -/

/-- The canonical declaration of a declaration of a run, and whether it is the declaration itself. -/
theorem Run.canonical (h : Run root plan) (hd : d ∈ plan.declarations) :
    ∃ c ∈ plan.declarations, plan.canonicalOf? d.origin = some c ∧ c.origin = d.origin ∧
      (plan.isCanonical d = true ↔ c = d) := by
  obtain ⟨c, hc⟩ := Option.isSome_iff_exists.1 (h.partition.canonical_isSome d hd)
  obtain ⟨hm, ho⟩ := h.partition.canonical_mem hc
  refine ⟨c, hm, hc, ho, ?_⟩
  rw [h.partition.isCanonical_iff d hd, hc, Option.some_inj]

/-- A declaration of a run is visible where it says. -/
theorem Run.visible (h : Run root plan) (hd : d ∈ plan.declarations) :
    ∃ segments, d.path = Package.pathOf segments ∧ Package.schemaAt? segments d.name root = some d.schema :=
  Package.visible_of_declared h.placed h.listed hd

/-- Everything that is visible is declared in the run. -/
theorem Run.exists_declaration (h : Run root plan) {segments : List String} {name : String} {s : Schema}
    (hs : Package.schemaAt? segments name root = some s) :
    ∃ d ∈ plan.declarations, d.path = Package.pathOf segments ∧ d.name = name ∧ d.schema = s :=
  Package.exists_declared h.placed h.listed hs

/-- A schema that was accepted is documented: the second look at it finds no more than the first. -/
theorem document_ok {s : Schema} {modelType : ModelType} (link : Schema → Option String)
    (hs : s.problemOfDeclared? = none) (hm : s.modelType = some modelType) :
    o.document link s = .ok (o.schemaDocument (s.page o.platform (o.view link) modelType)) := by
  rw [Options.document, hm, (Schema.problemOfDeclared?_eq_none.1 hs).2]

/-- What becomes of a declaration of a run: it gets its entry, and its page is added. -/
theorem outcome_ok (h : Run root plan) (hd : d ∈ plan.declarations) : ∃ outcome, plan.outcome o d = .ok outcome ∧
    PackageOutcome.entryOf outcome = plan.entry? o d ∧
    ∀ documents, PackageOutcome.addDocument o d documents outcome =
      (render o (plan.page? o d).toList).foldl (fun table entry => Assoc.put entry.1 entry.2 table) documents := by
  obtain ⟨c, -, hc, -, hiff⟩ := h.canonical hd
  obtain ⟨m, hm, -⟩ := h.inventory.origin_eq hd
  unfold outcome entry? page?
  rw [hc]
  by_cases hi : isIgnored o c = true
  · refine ⟨.leftOut, by simp [hi], by simp [hi, PackageOutcome.entryOf], fun documents => ?_⟩
    have hnone : (plan.isCanonical d && !isIgnored o d) = false := by
      cases hcd : plan.isCanonical d with
      | false => rfl
      | true => simp [← hiff.1 hcd, hi]
    simp [hnone, PackageOutcome.addDocument, render]
  · by_cases hcd : plan.isCanonical d = true
    · have he := hiff.1 hcd
      subst he
      simp only [hi, hcd, document_ok _ (h.declared c hd) hm, hm]
      exact ⟨_, rfl, rfl, fun documents => by simp [PackageOutcome.addDocument, render, Options.text]⟩
    · simp only [hi, hcd]
      exact ⟨_, rfl, rfl, fun documents => by simp [PackageOutcome.addDocument, render]⟩

/-- The table with documents put in one after another. -/
def putAll (documents more : Documents) : Documents :=
  more.foldl (fun table entry => Assoc.put entry.1 entry.2 table) documents

theorem putAll_append (documents more others : Documents) :
    putAll documents (more ++ others) = putAll (putAll documents more) others :=
  List.foldl_append

theorem addDeclarations_eq (h : Run root plan) : ∀ (ds : List Declaration), (∀ d ∈ ds, d ∈ plan.declarations) →
    ∀ documents, PackageOutcome.addDeclarations o (ds.map fun d => (d, plan.outcome o d)) documents =
      .ok (putAll documents (render o (ds.filterMap (plan.page? o))), ds.filterMap (plan.entry? o))
  | [], _, documents => rfl
  | d :: rest, hds, documents => by
    obtain ⟨outcome, ho, he, ha⟩ := outcome_ok (o := o) h (hds d List.mem_cons_self)
    have ih := addDeclarations_eq h rest fun e he => hds e (List.mem_cons_of_mem _ he)
    rw [List.map_cons, ho, PackageOutcome.addDeclarations, ih, ha, he, List.filterMap_cons]
    cases plan.page? o d <;> cases he' : plan.entry? o d <;>
      simp [putAll, render, he', bind, Except.bind, pure, Except.pure]

theorem addPackages_eq (h : Run root plan) : ∀ (packages : List Package) (documents : Documents),
    PackageOutcome.addPackages o (packages.map (plan.packageOutcome o)) documents =
      .ok (putAll documents (render o (packages.flatMap (plan.pagesOf o))))
  | [], documents => rfl
  | p :: rest, documents => by
    have hp : PackageOutcome.addPackage o (plan.packageOutcome o p) documents =
        .ok (putAll documents (render o (plan.pagesOf o p))) := by
      rw [PackageOutcome.addPackage, packageOutcome, addDeclarations_eq h _ fun d hd => (List.mem_filter.1 hd).1]
      simp [bind, Except.bind, pure, Except.pure, pagesOf, declaredIn, render, putAll, Options.text, indexPage]
    rw [List.map_cons, PackageOutcome.addPackages, hp]
    simp only [bind, Except.bind]
    rw [addPackages_eq h rest, List.flatMap_cons, ← putAll_append]
    simp only [render, List.map_append]

/-! ## Distinct keys -/

theorem schemaFile_ne_indexFile (name : String) : o.schemaFile name ≠ o.indexFile := by
  intro h
  have hd : (o.schemaFile name).toList.head? = some 'd' := by simp [Options.schemaFile, String.toList_append]
  have hi : (o.indexFile).toList.head? = some 'i' := by simp [Options.indexFile, String.toList_append]
  rw [h, hi] at hd
  simp at hd

theorem schemaFile_inj {m n : String} (h : o.schemaFile m = o.schemaFile n) : m = n := by
  have hl := congrArg String.toList h
  simp only [Options.schemaFile, String.toList_append, List.append_assoc, List.append_cancel_left_eq,
    List.append_cancel_right_eq] at hl
  exact String.toList_inj.1 hl

theorem mem_declaredIn : d ∈ plan.declaredIn p ↔ d ∈ plan.declarations ∧ d.path = p.path := by
  simp [declaredIn]

theorem documentPath_eq (hd : d ∈ plan.declaredIn p) : d.documentPath o = p.segments ++ [o.schemaFile d.name] := by
  rw [Declaration.documentPath, Declaration.directory, (mem_declaredIn.1 hd).2]
  rfl

theorem page?_eq_some {path : List String} {page : Page} (h : plan.page? o d = some (path, page)) :
    plan.isCanonical d = true ∧ isIgnored o d = false ∧ path = d.documentPath o ∧
      ∃ m, page = .schema (d.schema.page o.platform (o.view (plan.link o d.directory)) m) := by
  unfold page? at h
  split at h
  · rename_i hc
    simp only [Bool.and_eq_true, Bool.not_eq_true'] at hc
    rw [Option.map_eq_some_iff] at h
    obtain ⟨m, -, he⟩ := h
    obtain ⟨hpath, hpage⟩ := Prod.mk.inj he
    exact ⟨hc.1, hc.2, hpath.symm, m, hpage.symm⟩
  · simp at h

/-- The declarations of a package are listed by name. -/
theorem declaredIn_pairwise (h : Run root plan) (p : Package) :
    (plan.declaredIn p).Pairwise fun d e => d.name < e.name := by
  refine (h.inventory.located.filter _).imp_of_mem fun {d e} hd he hbefore => ?_
  have hpath : d.path = e.path := (mem_declaredIn.1 hd).2.trans (mem_declaredIn.1 he).2.symm
  rcases hbefore with hlt | ⟨-, hlt⟩
  · rw [hpath] at hlt
    exact absurd hlt (List.lt_irrefl _)
  · exact hlt

theorem mem_pagesOf_fst {path : List String} (h : path ∈ (plan.pagesOf o p).map (·.1)) :
    ∃ file, path = p.segments ++ [file] := by
  simp only [pagesOf, List.map_append, List.mem_append, List.mem_map, List.mem_filterMap, List.map_cons, List.map_nil,
    List.mem_singleton] at h
  rcases h with ⟨⟨path', page⟩, ⟨d, hd, hpage⟩, rfl⟩ | rfl
  · obtain ⟨-, -, rfl, -⟩ := page?_eq_some hpage
    exact ⟨_, documentPath_eq hd⟩
  · exact ⟨_, rfl⟩

theorem nodup_pagesOf (h : Run root plan) (p : Package) : ((plan.pagesOf o p).map (·.1)).Nodup := by
  rw [pagesOf, List.map_append, List.nodup_append]
  refine ⟨?_, by simp, ?_⟩
  · rw [List.Nodup, List.pairwise_map, List.pairwise_filterMap]
    refine (declaredIn_pairwise h p).imp_of_mem fun {d e} hd he hlt x hx y hy heq => ?_
    obtain ⟨-, -, hpx, -⟩ := page?_eq_some hx
    obtain ⟨-, -, hpy, -⟩ := page?_eq_some hy
    rw [hpx, hpy, documentPath_eq hd, documentPath_eq he, List.append_cancel_left_eq, List.cons.injEq] at heq
    rw [schemaFile_inj heq.1] at hlt
    exact String.lt_irrefl _ hlt
  · intro x hx y hy heq
    rw [List.map_cons, List.map_nil, List.mem_singleton] at hy
    simp only [List.mem_map, List.mem_filterMap] at hx
    obtain ⟨⟨path, page⟩, ⟨d, hd, hpage⟩, rfl⟩ := hx
    obtain ⟨-, -, hpath, -⟩ := page?_eq_some hpage
    rw [hy, hpath, documentPath_eq hd, List.append_cancel_left_eq, List.cons.injEq] at heq
    exact schemaFile_ne_indexFile d.name heq.1

/-- **No two pages of a run have one path.** -/
theorem nodup_pages (h : Run root plan) : ((plan.pages o root).map (·.1)).Nodup := by
  rw [pages, List.map_flatMap, List.Nodup, List.pairwise_flatMap]
  refine ⟨fun p _ => nodup_pagesOf h p, ?_⟩
  refine (h.placed.walk_pairwise (by simp)).imp fun {p q} hlt x hx y hy heq => ?_
  obtain ⟨f, rfl⟩ := mem_pagesOf_fst hx
  obtain ⟨g, rfl⟩ := mem_pagesOf_fst hy
  have hsegments : p.segments = q.segments := by simpa using congrArg List.dropLast heq
  rw [hsegments] at hlt
  exact List.lt_irrefl _ hlt

theorem nodup_render (h : Run root plan) : ((render o (plan.pages o root)).map (·.1)).Nodup := by
  rw [render, List.map_map]
  exact nodup_pages h

theorem mem_render {pages : List (List String × Page)} {path : List String} {text : String} :
    (path, text) ∈ render o pages ↔ ∃ page, (path, page) ∈ pages ∧ o.text page = text := by
  simp [render]

/-- **The planner does not fail, and its documents are the renderings of the pages**, in their order. -/
theorem documents_eq (h : Run root plan) : plan.documents o root = .ok (render o (plan.pages o root)) := by
  rw [documents, packageOutcomes, addPackages_eq h]
  exact congrArg Except.ok (Assoc.ofList_of_nodup (nodup_render h))

/-! ## What is planned -/

/-- Every declaration of a run lies in one package of the walk. -/
theorem exists_package (h : Run root plan) (hd : d ∈ plan.declarations) : ∃ p ∈ root.walk, d ∈ plan.declaredIn p := by
  have hm : (d.path, d.name, d.schema) ∈ root.walk.flatMap Package.visibleSchemas := by
    rw [← h.listed]
    exact List.mem_map_of_mem hd
  simp only [List.mem_flatMap, Package.visibleSchemas, List.mem_map, Prod.mk.injEq] at hm
  obtain ⟨p, hp, _, -, hpath, -⟩ := hm
  exact ⟨p, hp, mem_declaredIn.2 ⟨hd, hpath.symm⟩⟩

/-- The pages of a run are those of its declarations and the indices of its packages. -/
theorem mem_pages_iff (h : Run root plan) {path : List String} {page : Page} : (path, page) ∈ plan.pages o root ↔
    (∃ d ∈ plan.declarations, plan.page? o d = some (path, page)) ∨
      ∃ p ∈ root.walk, path = p.segments ++ [o.indexFile] ∧ page = .index (plan.indexPage o p) := by
  simp only [pages, pagesOf, List.mem_flatMap, List.mem_append, List.mem_filterMap, List.mem_singleton, Prod.mk.injEq]
  constructor
  · rintro ⟨p, hp, ⟨d, hd, hpage⟩ | hindex⟩
    · exact .inl ⟨d, (mem_declaredIn.1 hd).1, hpage⟩
    · exact .inr ⟨p, hp, hindex⟩
  · rintro (⟨d, hd, hpage⟩ | ⟨p, hp, hindex⟩)
    · obtain ⟨p, hp, hdp⟩ := exists_package h hd
      exact ⟨p, hp, .inl ⟨d, hdp, hpage⟩⟩
    · exact ⟨p, hp, .inr hindex⟩

/-- The packages of the walk share out the declarations. -/
theorem declaredIn_perm (h : Run root plan) : (root.walk.flatMap plan.declaredIn).Perm plan.declarations := by
  have hnodup : plan.declarations.Nodup := h.inventory.ordered.imp fun hlt e => by rw [e] at hlt; omega
  refine (List.perm_ext_iff_of_nodup ?_ hnodup).2 fun d => ?_
  · rw [List.Nodup, List.pairwise_flatMap]
    refine ⟨fun p _ => hnodup.filter _, (h.placed.walk_pairwise (by simp)).imp fun {p q} hlt d hd e he hde => ?_⟩
    rw [hde] at hd
    have hpath : p.path = q.path := (mem_declaredIn.1 hd).2.symm.trans (mem_declaredIn.1 he).2
    rw [Package.segments, hpath] at hlt
    exact List.lt_irrefl _ hlt
  · rw [List.mem_flatMap]
    constructor
    · rintro ⟨p, -, hd⟩
      exact (mem_declaredIn.1 hd).1
    · exact exists_package h

theorem page?_isSome (h : Run root plan) (hd : d ∈ plan.declarations) :
    (plan.page? o d).isSome = (plan.isCanonical d && !isIgnored o d) := by
  obtain ⟨m, hm, -⟩ := h.inventory.origin_eq hd
  unfold page?
  split <;> simp_all

/-- What the index tells about a declaration: where its document is, or that of the canonical declaration; of an alias
also where the schema is declared; and whether the schema is deprecated. -/
def Lists (o : Options) (plan : ImportPlan) (d : Declaration) (e : IndexEntry) : Prop :=
  ∃ c, plan.canonicalOf? d.origin = some c ∧ e.name = d.name ∧ e.deprecated = c.schema.isDeprecated ∧
    (c = d → e.link = o.schemaFile d.name ∧ e.aliasOf = none) ∧
    (c ≠ d → e.link = o.platform.relativeLink (c.documentPath o) d.directory ∧ e.aliasOf = some c.origin.text)

/-- What the documents of a run are, whatever format and options are chosen. -/
structure Planned (o : Options) (root : Package) (plan : ImportPlan) (documents : Documents) : Prop where
  /-- The keys are those of the indices of all packages and of the documents of all canonical declarations that are
  not skipped. -/
  mem_keys : ∀ path, path ∈ documents.map (·.1) ↔
    (∃ p ∈ root.walk, path = p.segments ++ [o.indexFile]) ∨
    ∃ d ∈ plan.declarations, plan.canonicalOf? d.origin = some d ∧ plan.isSkipped o d = false ∧
      path = d.directory ++ [o.schemaFile d.name]
  /-- No document overwrites another. -/
  nodup_keys : (documents.map (·.1)).Nodup
  /-- There are as many documents as packages and canonical declarations that are not skipped. -/
  length_eq : documents.length =
    root.walk.length + (plan.declarations.filter fun d => plan.isCanonical d && !plan.isSkipped o d).length
  /-- The index of a package lists its declarations that are not skipped, by name, and marks those that are not
  canonical. -/
  index : ∀ p ∈ root.walk, ∃ entries : List IndexEntry,
    (p.segments ++ [o.indexFile], o.indexDocument (PackageOutcome.index o p entries)) ∈ documents ∧
    entries.Pairwise (fun e f => e.name < f.name) ∧
    (entries.map (fun e => (e.name, e.isMarked)) =
      ((plan.declarations.filter fun d => !plan.isSkipped o d && d.path = p.path).map fun d =>
        (d.name, !plan.isCanonical d))) ∧
    ∀ e ∈ entries, ∃ d ∈ plan.declarations, d.path = p.path ∧ Lists o plan d e

/-- A canonical declaration is skipped when it is ignored itself. -/
theorem isSkipped_eq (hc : plan.canonicalOf? d.origin = some d) : plan.isSkipped o d = isIgnored o d := by
  rw [isSkipped, hc]
  rfl

theorem text_ne_empty {origin : Origin} (h : origin.name ≠ "") : origin.text.isEmpty = false := by
  rw [Bool.eq_false_iff, Ne, String.isEmpty_iff, Origin.text]
  split
  · exact h
  · intro he
    have hl := congrArg (fun s : String => s.toList.length) he
    simp [String.toList_append] at hl

theorem map_filterMap_of {α β γ : Type} {f : α → Option β} {g : β → γ} {leftOut : α → Bool} {k : α → γ} :
    ∀ {l : List α}, (∀ a ∈ l, (f a).map g = if leftOut a then none else some (k a)) →
      (l.filterMap f).map g = (l.filter fun a => !leftOut a).map k
  | [], _ => rfl
  | a :: rest, h => by
    have ih := map_filterMap_of fun b hb => h b (List.mem_cons_of_mem _ hb)
    have ha := h a List.mem_cons_self
    rw [List.filterMap_cons, List.filter_cons]
    cases hf : f a <;> cases hl : leftOut a <;> simp_all

/-- What the index tells about a declaration of a run. -/
theorem entry?_map (h : Run root plan) (hd : d ∈ plan.declarations) :
    (plan.entry? o d).map (fun e => (e.name, e.isMarked)) =
      if plan.isSkipped o d then none else some (d.name, !plan.isCanonical d) := by
  obtain ⟨c, hm, hc, -, -⟩ := h.canonical hd
  obtain ⟨m, hmc, ho⟩ := h.inventory.origin_eq hm
  have hname : c.origin.name ≠ "" := by
    rw [ho]
    exact h.named c hm m hmc
  unfold entry? isSkipped
  rw [hc, Option.any_some]
  by_cases hi : isIgnored o c = true
  · simp [hi]
  · by_cases hcd : plan.isCanonical d = true
    · simp [hi, hcd, IndexEntry.isMarked]
    · simp [hi, hcd, IndexEntry.isMarked, text_ne_empty hname]

theorem entry?_lists (h : Run root plan) (hd : d ∈ plan.declarations) {e : IndexEntry}
    (he : plan.entry? o d = some e) : Lists o plan d e := by
  obtain ⟨c, -, hc, -, hiff⟩ := h.canonical hd
  unfold entry? at he
  rw [hc] at he
  refine ⟨c, hc, ?_⟩
  by_cases hi : isIgnored o c = true
  · simp [hi] at he
  · by_cases hcd : plan.isCanonical d = true
    · obtain rfl := hiff.1 hcd
      simp only [hi, hcd] at he
      obtain rfl := Option.some_inj.1 he
      simp
    · have hne : c ≠ d := fun heq => hcd (hiff.2 heq)
      simp only [hi, hcd] at he
      obtain rfl := Option.some_inj.1 he
      simp [hne]

/-- Every package has one page of its own beside those of its declarations. -/
theorem length_flatMap_pagesOf : ∀ packages : List Package, (packages.flatMap (plan.pagesOf o)).length =
    packages.length + ((packages.flatMap plan.declaredIn).filterMap (plan.page? o)).length
  | [] => rfl
  | p :: rest => by
    simp only [List.flatMap_cons, List.length_append, List.filterMap_append, length_flatMap_pagesOf rest, pagesOf,
      List.length_cons, List.length_nil]
    omega

/-- **The documents of a run are planned.** -/
theorem planned_render (h : Run root plan) : Planned o root plan (render o (plan.pages o root)) where
  mem_keys path := by
    simp only [render, List.map_map, pages, pagesOf, List.mem_map, List.mem_flatMap, List.mem_append,
      List.mem_filterMap, List.mem_singleton, Function.comp_apply]
    constructor
    · rintro ⟨⟨path', page⟩, ⟨p, hp, ⟨d, hd, hpage⟩ | he⟩, rfl⟩
      · obtain ⟨hcd, hi, rfl, -⟩ := page?_eq_some hpage
        have hm := (mem_declaredIn.1 hd).1
        have hc := (h.partition.isCanonical_iff d hm).1 hcd
        exact Or.inr ⟨d, hm, hc, (isSkipped_eq hc).trans hi, rfl⟩
      · exact Or.inl ⟨p, hp, (Prod.mk.inj he).1⟩
    · rintro (⟨p, hp, rfl⟩ | ⟨d, hd, hc, hi, rfl⟩)
      · exact ⟨_, ⟨p, hp, Or.inr rfl⟩, rfl⟩
      · obtain ⟨p, hp, hdp⟩ := exists_package h hd
        have hsome : (plan.page? o d).isSome := by
          rw [page?_isSome h hd, (h.partition.isCanonical_iff d hd).2 hc, ← isSkipped_eq hc, hi]
          rfl
        obtain ⟨⟨path, page⟩, hpage⟩ := Option.isSome_iff_exists.1 hsome
        refine ⟨(path, page), ⟨p, hp, Or.inl ⟨d, hdp, hpage⟩⟩, ?_⟩
        exact (page?_eq_some hpage).2.2.1
  nodup_keys := nodup_render h
  length_eq := by
    rw [render, List.length_map, pages, length_flatMap_pagesOf, ((declaredIn_perm h).filterMap _).length_eq]
    congr 1
    rw [List.length_filterMap_eq_countP, List.countP_eq_length_filter]
    refine congrArg List.length (List.filter_congr fun d hd => ?_)
    rw [page?_isSome h hd]
    cases hcd : plan.isCanonical d with
    | false => rfl
    | true => rw [isSkipped_eq ((h.partition.isCanonical_iff d hd).1 hcd)]
  index p hp := by
    have hentries : ((plan.declaredIn p).filterMap (plan.entry? o)).map (fun e => (e.name, e.isMarked)) =
        ((plan.declarations.filter fun d => !plan.isSkipped o d && d.path = p.path).map fun d =>
          (d.name, !plan.isCanonical d)) := by
      rw [map_filterMap_of fun d hd => entry?_map h (mem_declaredIn.1 hd).1, declaredIn, List.filter_filter]
    refine ⟨(plan.declaredIn p).filterMap (plan.entry? o), ?_, ?_, hentries, fun e he => ?_⟩
    · refine List.mem_map.2 ⟨(_, .index (plan.indexPage o p)), List.mem_flatMap.2 ⟨p, hp, ?_⟩, rfl⟩
      exact List.mem_append_right _ List.mem_cons_self
    · have hnames : ((plan.declaredIn p).filterMap (plan.entry? o)).map (·.name) =
          ((plan.declaredIn p).filter fun d => !plan.isSkipped o d).map (·.name) := by
        have := congrArg (List.map Prod.fst) hentries
        rw [← List.filter_filter] at this
        simpa only [List.map_map, Function.comp_def, declaredIn] using this
      have hpairwise : ((plan.declaredIn p).filter fun d => !plan.isSkipped o d).Pairwise fun d e => d.name < e.name :=
        (declaredIn_pairwise h p).filter _
      rw [← List.pairwise_map] at hpairwise ⊢
      rwa [hnames]
    · obtain ⟨d, hd, he⟩ := List.mem_filterMap.1 he
      obtain ⟨hm, hpath⟩ := mem_declaredIn.1 hd
      exact ⟨d, hm, hpath, entry?_lists h hm he⟩

/-! ## What is written -/

/-- The document of a canonical declaration that is not left out shows a value that has no literal. -/
def Unwritable (o : Options) (plan : ImportPlan) (fault : Value.LiteralFault) : Prop :=
  ∃ d ∈ plan.declarations, plan.isCanonical d = true ∧ isIgnored o d = false ∧
    ∃ v ∈ d.schema.shownValues (o.view fun _ => none), v.literalFault? = some fault

/-- A declaration of a run is flawed when it has a page that shows a value without a literal. -/
theorem flawOf?_outcome (h : Run root plan) (hd : d ∈ plan.declarations) :
    PackageOutcome.flawOf? o d (plan.outcome o d) =
      if plan.isCanonical d && !isIgnored o d then (o.literalFault? d.schema).map .literal else none := by
  obtain ⟨c, -, hc, -, hiff⟩ := h.canonical hd
  obtain ⟨m, hm, -⟩ := h.inventory.origin_eq hd
  unfold outcome
  rw [hc]
  by_cases hi : isIgnored o c = true
  · have hnone : (plan.isCanonical d && !isIgnored o d) = false := by
      cases hcd : plan.isCanonical d with
      | false => rfl
      | true => simp [← hiff.1 hcd, hi]
    simp [hi, hnone, PackageOutcome.flawOf?]
  · by_cases hcd : plan.isCanonical d = true
    · obtain rfl := hiff.1 hcd
      simp [hi, hcd, document_ok _ (h.declared c hd) hm, PackageOutcome.flawOf?]
    · simp [hi, hcd, PackageOutcome.flawOf?]

theorem unwritable_of_flawOf? (h : Run root plan) (hd : d ∈ plan.declarations) {flaw : PackageOutcome.Flaw}
    (hflaw : PackageOutcome.flawOf? o d (plan.outcome o d) = some flaw) :
    ∃ fault, flaw = .literal fault ∧ Unwritable o plan fault := by
  rw [flawOf?_outcome h hd, Option.ite_none_right_eq_some, Option.map_eq_some_iff] at hflaw
  obtain ⟨hc, fault, hfault, rfl⟩ := hflaw
  simp only [Bool.and_eq_true, Bool.not_eq_true'] at hc
  exact ⟨fault, rfl, d, hd, hc.1, hc.2, Schema.exists_of_literalFault? hfault⟩

/-- **The documents of a run are written, unless one of them shows a value that has no literal.** -/
theorem written_cases (h : Run root plan) :
    plan.written o root = .ok (render o (plan.pages o root)) ∧ (∀ fault, ¬ Unwritable o plan fault) ∨
      ∃ fault, plan.written o root = .error (.literal fault) ∧ Unwritable o plan fault := by
  cases hflaw : PackageOutcome.flaw? o (plan.packageOutcomes o root) with
  | none =>
    refine .inl ⟨written_eq_ok.2 ⟨hflaw, documents_eq h⟩, ?_⟩
    rintro fault ⟨d, hd, hc, hi, v, hv, hfault⟩
    obtain ⟨p, hp, hdp⟩ := exists_package h hd
    simp only [PackageOutcome.flaw?, packageOutcomes, List.findSome?_eq_none_iff, List.mem_map] at hflaw
    have hnone := hflaw _ ⟨p, hp, rfl⟩ (d, plan.outcome o d) (List.mem_map_of_mem hdp)
    rw [flawOf?_outcome h hd, hc, hi, Bool.not_false, Bool.and_true, if_pos rfl, Option.map_eq_none_iff] at hnone
    rw [Schema.literalFault?_eq_none.1 hnone v hv] at hfault
    cases hfault
  | some flaw =>
    obtain ⟨p, hp, hfound⟩ := List.exists_of_findSome?_eq_some hflaw
    obtain ⟨⟨d, outcome⟩, hd, hfound⟩ := List.exists_of_findSome?_eq_some hfound
    obtain ⟨p, -, rfl⟩ := List.mem_map.1 hp
    obtain ⟨e, he, heq⟩ := List.mem_map.1 hd
    obtain ⟨rfl, rfl⟩ := Prod.mk.inj heq
    obtain ⟨fault, rfl, hunwritable⟩ := unwritable_of_flawOf? h (mem_declaredIn.1 he).1 hfound
    refine .inr ⟨fault, ?_, hunwritable⟩
    rw [written, PackageOutcome.written, hflaw]

/-- **Every accepted dump is documented as planned**, in every format and with all options: every declaration has its
page, no document is lost or overwritten, and the documents are written, unless one of them shows a value that has no
literal. -/
theorem planned_of_packageOf {defaultName : String} {document : List (Value × Value)}
    (h : Dump.packageOf defaultName document = .ok root) (o : Options) :
    ∃ plan documents, ofPackage? root = some plan ∧ plan.documents o root = .ok documents ∧
      Planned o root plan documents ∧
      (plan.written o root = .ok documents ∧ (∀ fault, ¬ Unwritable o plan fault) ∨
        ∃ fault, plan.written o root = .error (.literal fault) ∧ Unwritable o plan fault) := by
  obtain ⟨raw, -, hholds⟩ := Dump.holds_of_packageOf h
  obtain ⟨plan, hplan, -, hrun⟩ := exists_run hholds
  exact ⟨plan, _, hplan, documents_eq hrun, planned_render hrun, written_cases hrun⟩

end ImportPlan

namespace Dump

def isWritten (o : Options) (document : List (Value × Value)) : Bool :=
  match packageOf "main" document with
  | .error _ => false
  | .ok root => (ImportPlan.ofPackage? root).any fun plan => (plan.written o root).isOk

/-- A re-exported and a deprecated schema are documented as planned. -/
theorem planned_of_reexported : ∃ root, packageOf "main" reexported = .ok root ∧
    ∃ plan documents, ImportPlan.ofPackage? root = some plan ∧
      plan.written { ignoreDeprecated := true } root = .ok documents ∧
      ImportPlan.Planned { ignoreDeprecated := true } root plan documents := by
  obtain ⟨root, h⟩ := exists_ok_of_isOk (by decide +kernel : (packageOf "main" reexported).isOk = true)
  have hwritten : isWritten { ignoreDeprecated := true } reexported = true := by decide +kernel
  obtain ⟨plan, documents, hplan, -, hplanned, hw⟩ := ImportPlan.planned_of_packageOf h { ignoreDeprecated := true }
  rcases hw with ⟨hw, -⟩ | ⟨fault, hw, -⟩
  · exact ⟨root, h, plan, documents, hplan, hw, hplanned⟩
  · simp [isWritten, h, hplan, hw, Except.isOk, Except.toBool] at hwritten

/-- A list that is its only item. -/
def endless : Value := .knot (0, 0) (.list [.knot (0, 0) (.list [])])

/-- A dump in which the default of an attribute is a list that lies in itself. -/
def knotted : List (Value × Value) :=
  [(.str "definitions", .map [(.str "A", declaredIn "" "A" [
    (.str "properties", .map [(.str "p", .map [(.str "default", endless)])])])])]

/-- A dump with a default that lies in itself is accepted and planned, and its documents are not written. -/
theorem not_written_of_knotted : ∃ root, packageOf "main" knotted = .ok root ∧
    ∃ plan, ImportPlan.ofPackage? root = some plan ∧ ∃ flaw, plan.written {} root = .error flaw := by
  obtain ⟨root, h⟩ := exists_ok_of_isOk (by decide +kernel : (packageOf "main" knotted).isOk = true)
  obtain ⟨raw, -, hholds⟩ := holds_of_packageOf h
  obtain ⟨plan, hplan, -⟩ := ImportPlan.exists_run hholds
  refine ⟨root, h, plan, hplan, ?_⟩
  have hwritten : isWritten {} knotted = false := by decide +kernel
  cases hw : plan.written {} root with
  | error flaw => exact ⟨flaw, rfl⟩
  | ok documents => simp [isWritten, h, hplan, hw, Except.isOk, Except.toBool] at hwritten

end Dump

end SchemaDocs
