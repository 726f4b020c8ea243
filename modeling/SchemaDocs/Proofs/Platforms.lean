import Mathlib.Data.List.Forall2
import SchemaDocs.Proofs.LinkIntegrity
import SchemaDocs.Proofs.Separators

/-!
# The same documents on every platform

The two platforms differ in the separator of the links and in the line ends of the documents. Here a dump is documented
for both of them, and the two results are set side by side.

The pages come first: the links of an index and of a schema, at every depth of its attributes, are those of the other
platform with backslashes in place of slashes, and nothing else in a page differs (`ImportPlan.pages_windows`). Then the
documents: a document is a template whose open places are the separators in its links (`Options.templated_text`), so
both platforms fill one template, and the line ends become pairs in the filled text. `Restyled` says so of a pair of
documents, and `ImportPlan.restyled_of_packageOf` of all documents of an accepted dump, which are at the same paths in
the same order.

A slash in a segment of a link would become a backslash as well, so the keys, the packages and the source files that
links are made of are to have none (`Dump.Segmented`). Backslashes and line ends in them do no harm, and the other texts
of a dump may contain anything.
-/

namespace SchemaDocs

/-! ## Separators of links -/

theorem separatedBy_append (x : Char) (front back : String) :
    separatedBy x (front ++ back) = separatedBy x front ++ separatedBy x back := by
  rw [← String.toList_inj]
  simp [separatedBy]

theorem separatedBy_of_not_mem {s : String} (h : '/' ∉ s.toList) (x : Char) : separatedBy x s = s := by
  rw [← String.toList_inj, separatedBy, String.toList_ofList]
  refine (List.map_congr_left fun c hc => ?_).trans (List.map_id _)
  have hslash : c ≠ '/' := fun heq => h (heq ▸ hc)
  exact if_neg hslash

theorem separatedBy_slash (s : String) : separatedBy '/' s = s := by
  rw [← String.toList_inj, separatedBy, String.toList_ofList]
  refine (List.map_congr_left fun c _ => ?_).trans (List.map_id _)
  exact ite_eq_right_iff.2 Eq.symm

theorem separatedBy_singleton (x : Char) : separatedBy x (String.singleton '/') = String.singleton x := by
  rw [← String.toList_inj]
  simp [separatedBy]

theorem separatedBy_join (x : Char) : ∀ {segments : List String}, (∀ s ∈ segments, '/' ∉ s.toList) →
    separatedBy x (Text.join (String.singleton '/') segments) = Text.join (String.singleton x) segments
  | [], _ => by rfl
  | [s], h => separatedBy_of_not_mem (h s List.mem_cons_self) x
  | s :: t :: rest, h => by
    rw [List.forall_mem_cons] at h
    rw [Text.join, Text.join, separatedBy_append, separatedBy_append, separatedBy_of_not_mem h.1,
      separatedBy_singleton, separatedBy_join x h.2]

namespace Platform

/-- A path is written with backslashes on one platform where it is written with slashes on the other. -/
theorem joinPath_windows {segments : List String} (h : ∀ s ∈ segments, '/' ∉ s.toList) :
    windows.joinPath segments = separatedBy '\\' (unix.joinPath segments) :=
  (separatedBy_join '\\' fun s hs => h s (List.mem_filter.1 hs).1).symm

theorem not_mem_foldl_step : ∀ {segments : List String} (place : Place), (∀ s ∈ segments, '/' ∉ s.toList) →
    (∀ s ∈ place.segments, '/' ∉ s.toList) → ∀ s ∈ (segments.foldl Place.step place).segments, '/' ∉ s.toList
  | [], _, _, h => h
  | segment :: rest, place, hsegments, h => by
    rw [List.forall_mem_cons] at hsegments
    refine not_mem_foldl_step (place.step segment) hsegments.2 fun s hs => ?_
    rw [Place.step] at hs
    split at hs
    · exact h s hs
    · split at hs
      · split at hs
        · exact h s hs
        · exact h s (List.dropLast_subset _ hs)
      · rcases List.mem_append.1 hs with hs | hs
        · exact h s hs
        · rw [List.mem_singleton.1 hs]
          exact hsegments.1

/-- The segments of a place hold no slash: a slash parts a segment. -/
theorem not_mem_ofSegments (segments : List String) :
    ∀ s ∈ (Place.ofSegments segments).segments, '/' ∉ s.toList := by
  refine not_mem_foldl_step ⟨0, []⟩ (fun s hs => ?_) fun s hs => absurd hs List.not_mem_nil
  obtain ⟨segment, -, hs⟩ := List.mem_flatMap.1 hs
  exact Text.not_mem_of_mem_split hs

/-- A way climbs, and goes down to the target from there. -/
theorem way_eq_climb (target start : Place) : ∃ n down, (∀ s ∈ down, s ∈ target.segments) ∧ way target start =
    if (List.replicate n ".." ++ down).isEmpty then ["."] else List.replicate n ".." ++ down := by
  by_cases hclimb : target.climb = start.climb
  · refine ⟨_, (dropCommon target.segments start.segments).1, fun s hs => ?_, by rw [way, if_pos hclimb]⟩
    rw [← (commonStart_append_dropCommon target.segments start.segments).1]
    exact List.mem_append_right _ hs
  · exact ⟨_, target.segments, fun s hs => hs, by rw [way, if_neg hclimb]⟩

/-- The segments of a way hold no slash either. -/
theorem not_mem_way (target start : List String) :
    ∀ s ∈ way (Place.ofSegments target) (Place.ofSegments start), '/' ∉ s.toList := by
  obtain ⟨n, down, hdown, hway⟩ := way_eq_climb (Place.ofSegments target) (Place.ofSegments start)
  intro s hs
  rw [hway] at hs
  split at hs
  · rw [List.mem_singleton.1 hs]
    decide
  · rcases List.mem_append.1 hs with hs | hs
    · rw [List.eq_of_mem_replicate hs]
      decide
    · exact not_mem_ofSegments target s (hdown s hs)

theorem relativeLink_windows (target start : List String) :
    windows.relativeLink target start = separatedBy '\\' (unix.relativeLink target start) :=
  joinPath_windows (not_mem_way target start)

end Platform

/-! ## Attributes -/

mutual

theorem Attribute.relink_eq_mapLink (f : String → String) : ∀ a : Attribute, a.relink f = a.mapLink (Option.map f)
  | ⟨name, token, required, readOnly, deprecated, description, default, link, children⟩ => by
    rw [relink, mapLink, relinks_eq_mapLinks f children]

theorem Attribute.relinks_eq_mapLinks (f : String → String) : ∀ attributes : List Attribute,
    relinks f attributes = mapLinks (Option.map f) attributes
  | [] => rfl
  | a :: rest => by rw [relinks, mapLinks, relink_eq_mapLink f a, relinks_eq_mapLinks f rest]

end

namespace Schema

variable {v w : View} {f : String → String}

theorem attributes_relink (hl : ∀ s, w.link s = (v.link s).map f) (hi : w.ignoreDeprecated = v.ignoreDeprecated)
    (s : Schema) : s.attributes w = Attribute.relinks f (s.attributes v) := by
  rw [Attribute.relinks_eq_mapLinks]
  exact attributes_mapLinks rfl hl hi s

end Schema

/-! ## Pages -/

theorem Attribute.relinks_slash (attributes : List Attribute) :
    Attribute.relinks (separatedBy '/') attributes = attributes := by
  rw [relinks_eq_mapLinks]
  refine mapLinks_of_fixed attributes fun a _ => ?_
  cases a.link <;> simp [separatedBy_slash]

/-- With slashes in its links a page is as it was. -/
theorem Page.relink_slash (page : Page) : page.relink (separatedBy '/') = page := by
  cases page with
  | schema page =>
    obtain ⟨name, deprecation, description, attributes, examples, label, path⟩ := page
    simp only [Page.relink, SchemaPage.relink, Attribute.relinks_slash, separatedBy_slash]
  | index page =>
    obtain ⟨name, description, entries, subpackages⟩ := page
    have hentry : IndexEntry.relink (separatedBy '/') = id := funext fun entry => by
      simp only [IndexEntry.relink, separatedBy_slash, id_eq]
    have hitem : PackageLink.relink (separatedBy '/') = id := funext fun item => by
      simp only [PackageLink.relink, separatedBy_slash, id_eq]
    simp only [Page.relink, IndexPage.relink, hentry, hitem, List.map_id]

/-- The texts of a dump that become segments of links hold no slash: the keys of its definitions, and the packages and
source files that its schemas come from. -/
structure Dump.Segmented (raw : List (Value × Value)) (root : Package) : Prop where
  keys : ∀ key value, (.str key, value) ∈ raw → '/' ∉ key.toList
  sources : ∀ p ∈ root.walk, ∀ e ∈ p.schemas, ∀ m, e.2.modelType = some m →
    '/' ∉ m.package.toList ∧ '/' ∉ m.sourceFile.toList

def Options.on (o : Options) (platform : Platform) : Options := { o with platform := platform }

/-- Backslashes in place of slashes. -/
abbrev backslashed (link : String) : String := separatedBy '\\' link

theorem Options.text_windows (o : Options) (page : Page) :
    (o.on .windows).text page = Text.pairLineEnds ((o.on .unix).text page) := by
  cases page <;> rfl

namespace ImportPlan

variable {o : Options} {plan : ImportPlan} {root p : Package} {c d : Declaration} {raw : List (Value × Value)}

theorem isIgnored_on (platform : Platform) (d : Declaration) : isIgnored (o.on platform) d = isIgnored o d := rfl

theorem schemaFile_on (platform : Platform) (name : String) : (o.on platform).schemaFile name = o.schemaFile name :=
  rfl

theorem documentPath_on (platform : Platform) (d : Declaration) : d.documentPath (o.on platform) = d.documentPath o :=
  rfl

theorem link_windows (directory : List String) (s : Schema) :
    plan.link (o.on .windows) directory s = (plan.link (o.on .unix) directory s).map backslashed := by
  rw [link, link]
  cases plan.canonicalFor? s with
  | none => rfl
  | some canonical =>
    by_cases hi : isIgnored o canonical = true
    · simp only [isIgnored_on, hi, ↓reduceIte, Option.map_none]
    · simp only [isIgnored_on, hi, Bool.false_eq_true, ↓reduceIte, Option.map_some]
      exact congrArg some (Platform.relativeLink_windows _ directory)

/-- The page of a schema differs in its links only. -/
theorem page_windows {m : ModelType} (s : Schema) (directory : List String) (hpackage : '/' ∉ m.package.toList)
    (hfile : '/' ∉ m.sourceFile.toList) :
    s.page .windows ((o.on .windows).view (plan.link (o.on .windows) directory)) m =
      (s.page .unix ((o.on .unix).view (plan.link (o.on .unix) directory)) m).relink backslashed := by
  have hlink : ∀ t, ((o.on .windows).view (plan.link (o.on .windows) directory)).link t =
      (((o.on .unix).view (plan.link (o.on .unix) directory)).link t).map backslashed := link_windows directory
  have hattributes := Schema.attributes_relink hlink rfl s
  have hsegments : ∀ segment ∈ m.packageSegments ++ [m.sourceFile], '/' ∉ segment.toList := by
    intro segment hs
    rcases List.mem_append.1 hs with hs | hs
    · rw [ModelType.packageSegments] at hs
      split at hs
      · exact absurd hs List.not_mem_nil
      · exact fun hslash => hpackage (Text.mem_of_mem_split hs hslash)
    · rwa [List.mem_singleton.1 hs]
  delta Schema.page SchemaPage.relink
  dsimp only
  rw [hattributes, Platform.joinPath_windows hsegments]

theorem page?_windows
    (hsource : ∀ m, d.schema.modelType = some m → '/' ∉ m.package.toList ∧ '/' ∉ m.sourceFile.toList) :
    plan.page? (o.on .windows) d = (plan.page? (o.on .unix) d).map fun e => (e.1, e.2.relink backslashed) := by
  rw [page?, page?]
  by_cases hi : (plan.isCanonical d && !isIgnored o d) = true
  · simp only [isIgnored_on, hi, ↓reduceIte]
    cases hm : d.schema.modelType with
    | none => rfl
    | some m =>
      obtain ⟨hpackage, hfile⟩ := hsource m hm
      exact congrArg (fun page => some (d.documentPath o, Page.schema page))
        (page_windows d.schema d.directory hpackage hfile)
  · simp only [isIgnored_on, hi, Bool.false_eq_true, ↓reduceIte, Option.map_none]

theorem entry?_windows (hname : '/' ∉ d.name.toList) :
    plan.entry? (o.on .windows) d = (plan.entry? (o.on .unix) d).map (IndexEntry.relink backslashed) := by
  have hfile : backslashed (o.schemaFile d.name) = o.schemaFile d.name := by
    apply separatedBy_of_not_mem
    cases hf : o.format <;> simp [Options.schemaFile, hf, Format.extension, hname]
  unfold entry?
  simp only [isIgnored_on, schemaFile_on, documentPath_on]
  cases plan.canonicalOf? d.origin with
  | none => rfl
  | some canonical =>
    by_cases hi : isIgnored o canonical = true
    · simp only [hi, ↓reduceIte, Option.map_none]
    · simp only [hi, Bool.false_eq_true, ↓reduceIte]
      by_cases hd : plan.isCanonical d = true
      · simp only [hd, ↓reduceIte, Option.map_some, IndexEntry.relink, hfile]
      · simp only [hd, Bool.false_eq_true, ↓reduceIte, Option.map_some, IndexEntry.relink, Options.on,
          Platform.relativeLink_windows]

theorem filterMap_eq_map {α β γ : Type} {f : α → Option β} {g : α → Option γ} {k : γ → β} {l : List α}
    (h : ∀ a ∈ l, f a = (g a).map k) : l.filterMap f = (l.filterMap g).map k := by
  rw [List.map_filterMap]
  exact List.filterMap_congr h

/-- The index of a package differs in its links only. -/
theorem indexPage_windows (hnames : ∀ d ∈ plan.declaredIn p, '/' ∉ d.name.toList)
    (hsubpackages : ∀ e ∈ p.subpackages, '/' ∉ e.1.toList) :
    plan.indexPage (o.on .windows) p = (plan.indexPage (o.on .unix) p).relink backslashed := by
  have hentries : (plan.declaredIn p).filterMap (plan.entry? (o.on .windows)) =
      ((plan.declaredIn p).filterMap (plan.entry? (o.on .unix))).map (IndexEntry.relink backslashed) :=
    filterMap_eq_map fun d hd => entry?_windows (hnames d hd)
  have hlinks : ((Assoc.sortByName id (p.subpackages.map (·.1))).map fun name =>
      (⟨name, Platform.windows.joinPath [name, o.indexFile]⟩ : PackageLink)) =
      ((Assoc.sortByName id (p.subpackages.map (·.1))).map fun name =>
        (⟨name, Platform.unix.joinPath [name, o.indexFile]⟩ : PackageLink)).map (PackageLink.relink backslashed) := by
    rw [List.map_map]
    refine List.map_congr_left fun name hname => ?_
    have hplain : '/' ∉ name.toList := by
      rw [Assoc.mem_sortByName] at hname
      obtain ⟨e, he, rfl⟩ := List.mem_map.1 hname
      exact hsubpackages e he
    have hfile : '/' ∉ o.indexFile.toList := by
      cases hf : o.format <;> simp [Options.indexFile, hf, Format.extension]
    rw [Platform.joinPath_windows (by simp [hplain, hfile])]
    rfl
  exact congrArg₂ (fun entries links => IndexPage.mk (if p.path.isEmpty then p.name else p.path) p.description
    entries links) hentries hlinks

/-- The schema of a declaration is one of the schemas of a package. -/
theorem Run.exists_schema (hrun : Run root plan) (hd : d ∈ plan.declarations) :
    ∃ p ∈ root.walk, ∃ e ∈ p.schemas, e.2 = d.schema := by
  have hm : (d.path, d.name, d.schema) ∈ root.walk.flatMap Package.visibleSchemas := by
    rw [← hrun.listed]
    exact List.mem_map_of_mem hd
  obtain ⟨p, hp, hvisible⟩ := List.mem_flatMap.1 hm
  obtain ⟨e, he, heq⟩ := List.mem_map.1 hvisible
  exact ⟨p, hp, e, (Assoc.mem_sortByName _).1 he, congrArg (·.2.2) heq⟩

/-- The pages of a run are at the same paths on both platforms, and differ in their links only. -/
theorem pages_windows (h : Dump.Holds raw root) (hraw : Dump.Segmented raw root) (hrun : Run root plan) :
    plan.pages (o.on .windows) root =
      (plan.pages (o.on .unix) root).map fun e => (e.1, e.2.relink backslashed) := by
  have hname : ∀ {p d}, d ∈ plan.declaredIn p → '/' ∉ d.name.toList := by
    intro p d hd
    obtain ⟨segments, -, hvisible⟩ := hrun.visible (mem_declaredIn.1 hd).1
    obtain ⟨key, value, hkey, -, hname⟩ := h.keyed hvisible
    rw [← hname]
    exact fun hslash => hraw.keys key value hkey (Text.mem_of_mem_splitLast_snd hslash)
  have hsubpackage : ∀ p ∈ root.walk, ∀ e ∈ p.subpackages, '/' ∉ e.1.toList := by
    intro p hp e he
    obtain ⟨hchild, hsegments⟩ := h.subpackage hp he
    obtain ⟨-, key, value, hkey, hmem⟩ := h.segment_of_package hchild (s := e.1) (by simp [hsegments])
    exact fun hslash => hraw.keys key value hkey
      (Text.mem_of_mem_splitLast_fst (Package.mem_of_mem_segmentsOf hmem hslash))
  rw [pages, pages, List.map_flatMap]
  refine List.flatMap_congr fun p hp => ?_
  have hpages : (plan.declaredIn p).filterMap (plan.page? (o.on .windows)) =
      ((plan.declaredIn p).filterMap (plan.page? (o.on .unix))).map fun e => (e.1, e.2.relink backslashed) := by
    refine filterMap_eq_map fun d hd => page?_windows fun m hm => ?_
    obtain ⟨q, hq, e, he, hschema⟩ := hrun.exists_schema (mem_declaredIn.1 hd).1
    exact hraw.sources q hq e he m (by rw [hschema, hm])
  rw [pagesOf, pagesOf, hpages, indexPage_windows (fun d hd => hname hd) (hsubpackage p hp), List.map_append]
  rfl

/-- One document on two platforms: both are one template, filled with the separator of the platform, and the line ends
of the second one are pairs. The places that are open are those of the separators in the links of the page: with any
separator in its links, the page is written as this template, filled with that separator. -/
structure Restyled (o : Options) (page : Page) (t : Template) (unix windows : String) : Prop where
  template : ∀ x, IsSeparator x → ((o.on .unix).text (page.relink (separatedBy x))).toList = t.fill x
  unix : unix.toList = t.fill '/'
  windows : windows.toList = Text.pairLineEndsList (t.fill '\\')

theorem exists_restyled (o : Options) (page : Page) : ∃ t, Restyled o page t ((o.on .unix).text page)
    ((o.on .windows).text (page.relink backslashed)) := by
  obtain ⟨t, ht⟩ := (o.on .unix).templated_text rfl page
  have hunix := ht '/' isSeparator_slash
  simp only [Page.relink_slash] at hunix
  refine ⟨t, ht, hunix, ?_⟩
  rw [Options.text_windows, Text.pairLineEnds, String.toList_ofList, ht '\\' isSeparator_backslash]

/-- **The platform changes nothing but the separators of links and the line ends**: on both platforms an accepted dump
is documented at the same paths in the same order, and each document is the same template. -/
theorem restyled_of_packageOf {defaultName : String} {document : List (Value × Value)}
    (h : Dump.packageOf defaultName document = .ok root)
    (hsegmented : ∀ raw, Dump.readDefinitions document = .ok raw → Dump.Segmented raw root) (o : Options) :
    ∃ plan unix windows, ofPackage? root = some plan ∧ plan.documents (o.on .unix) root = .ok unix ∧
      plan.documents (o.on .windows) root = .ok windows ∧
      List.Forall₂ (fun u w => u.1 = w.1 ∧ ∃ page t, (u.1, page) ∈ plan.pages (o.on .unix) root ∧
        Restyled o page t u.2 w.2) unix windows := by
  obtain ⟨raw, hr, hholds⟩ := Dump.holds_of_packageOf h
  obtain ⟨plan, hplan, -, hrun⟩ := exists_run hholds
  refine ⟨plan, _, _, hplan, documents_eq hrun, documents_eq hrun, ?_⟩
  rw [pages_windows hholds (hsegmented raw hr) hrun, render, render, List.map_map, List.forall₂_map_left_iff,
    List.forall₂_map_right_iff, List.forall₂_same]
  intro e he
  obtain ⟨t, ht⟩ := exists_restyled o e.2
  exact ⟨rfl, e.2, t, he, ht⟩

end ImportPlan

namespace Dump

/-- Whether the packages and the source files of all schemas of a package and of what is below it have no slashes. -/
def sourcesSlashFree (root : Package) : Bool :=
  root.walk.all fun p => p.schemas.all fun e => e.2.modelType.all fun m =>
    !m.package.toList.contains '/' && !m.sourceFile.toList.contains '/'

theorem Segmented.of_sourcesSlashFree {raw : List (Value × Value)} {root : Package} (hkeys : SlashFree raw)
    (h : sourcesSlashFree root = true) : Segmented raw root where
  keys key value hm := (hkeys key value hm).1
  sources p hp e he m hm := by
    have hsources := List.all_eq_true.1 (List.all_eq_true.1 h p hp) e he
    simpa [hm] using hsources

theorem restyled_of_referring : ∃ root, packageOf "main" referring = .ok root ∧ ∃ plan unix windows,
    ImportPlan.ofPackage? root = some plan ∧
      plan.documents (Options.on { } .unix) root = .ok unix ∧
      plan.documents (Options.on { } .windows) root = .ok windows ∧
      List.Forall₂ (fun u w => u.1 = w.1 ∧ ∃ page t, (u.1, page) ∈ plan.pages (Options.on { } .unix) root ∧
        ImportPlan.Restyled { } page t u.2 w.2) unix windows := by
  obtain ⟨root, h⟩ := exists_ok_of_isOk (by decide +kernel : (packageOf "main" referring).isOk = true)
  have hsources : (packageOf "main" referring).toOption.all sourcesSlashFree = true := by decide +kernel
  rw [h] at hsources
  exact ⟨root, h, ImportPlan.restyled_of_packageOf h
    (fun raw hr => .of_sourcesSlashFree (slashFree_referring raw hr) hsources) _⟩

end Dump

end SchemaDocs
