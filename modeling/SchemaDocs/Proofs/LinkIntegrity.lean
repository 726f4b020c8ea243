import SchemaDocs.Proofs.Attributes
import SchemaDocs.Proofs.Links
import SchemaDocs.Proofs.Pages

/-!
# Link integrity

Links are written in four places: in the entries and the sub-package list of an index, and in the attributes of a
page, at every depth of inline objects. Each of them leads to a document that is planned in the same run, and the
links that stand for a schema lead to its canonical declaration (`Linked`). What this rests on is that the segments of
package paths and of file names are plain, which keys without slashes and backslashes ensure.
-/

namespace SchemaDocs

open Platform (IsPlain)

/-- A page has the link somewhere: in an entry, in its list of sub-packages, or in an attribute at some depth. -/
inductive Page.Emits (link : String) : Page → Prop
  | entry {page : IndexPage} {e : IndexEntry} (mem : e ∈ page.entries) (eq : e.link = link) : Emits link (.index page)
  | subpackage {page : IndexPage} {s : PackageLink} (mem : s ∈ page.subpackages) (eq : s.link = link) :
    Emits link (.index page)
  | told {page : SchemaPage} {a : Attribute} (mem : a.In page.attributes) (eq : a.link = some link) :
    Emits link (.schema page)

/-- No key of a definition contains a slash or a backslash. -/
def Dump.SlashFree (raw : List (Value × Value)) : Prop :=
  ∀ key value, (.str key, value) ∈ raw → '/' ∉ key.toList ∧ '\\' ∉ key.toList

namespace ImportPlan

variable {o : Options} {plan : ImportPlan} {root p : Package} {c d : Declaration} {raw : List (Value × Value)}

/-! ## Plain places -/

theorem isPlain_of_isSegment {s : String} (h : Package.IsSegment s) (hslash : '/' ∉ s.toList)
    (hback : '\\' ∉ s.toList) : IsPlain s where
  ne_empty := h.1
  ne_here e := h.2 (by simp [e])
  ne_up e := h.2 (by simp [e])
  no_slash := hslash
  no_backslash := hback

theorem isPlain_schemaFile {name : String} (hslash : '/' ∉ name.toList) (hback : '\\' ∉ name.toList) :
    IsPlain (o.schemaFile name) := by
  have hlist : (o.schemaFile name).toList = ['d', 'o', 'c', '_'] ++ name.toList ++ ['.'] ++ o.format.extension.toList := by
    simp [Options.schemaFile, String.toList_append]
  have hne : ∀ s : String, s.toList.head? ≠ some 'd' → o.schemaFile name ≠ s := by
    rintro s hs rfl
    rw [hlist] at hs
    simp at hs
  have hextension : '/' ∉ o.format.extension.toList ∧ '\\' ∉ o.format.extension.toList := by
    cases o.format <;> decide
  refine ⟨hne _ (by decide), hne _ (by decide), hne _ (by decide), ?_, ?_⟩
  · rw [hlist]
    simp [hslash, hextension.1]
  · rw [hlist]
    simp [hback, hextension.2]

theorem isPlain_indexFile : IsPlain o.indexFile := by
  unfold Options.indexFile
  constructor <;> cases o.format <;> decide

/-- The segments of every package of the hierarchy are plain. -/
theorem isPlain_segments (h : Dump.Holds raw root) (hraw : Dump.SlashFree raw) (hp : p ∈ root.walk) :
    ∀ s ∈ p.segments, Package.IsSegment s ∧ IsPlain s := by
  intro s hs
  obtain ⟨hsegment, key, value, hkey, hmem⟩ := h.segment_of_package hp hs
  have hchar : ∀ x ∈ s.toList, x ∈ key.toList := fun x hx => Text.mem_of_mem_splitLast_fst (Package.mem_of_mem_segmentsOf hmem hx)
  obtain ⟨hslash, hback⟩ := hraw key value hkey
  exact ⟨hsegment, isPlain_of_isSegment hsegment (fun hx => hslash (hchar _ hx)) fun hx => hback (hchar _ hx)⟩

theorem isPlain_file (h : Dump.Holds raw root) (hraw : Dump.SlashFree raw) {segments : List String} {name : String}
    {schema : Schema} (hs : Package.schemaAt? segments name root = some schema) : IsPlain (o.schemaFile name) := by
  obtain ⟨key, value, hkey, -, rfl⟩ := h.keyed hs
  obtain ⟨hslash, hback⟩ := hraw key value hkey
  exact isPlain_schemaFile (fun hx => hslash (Text.mem_of_mem_splitLast_snd hx)) fun hx =>
    hback (Text.mem_of_mem_splitLast_snd hx)

/-- The directory of a declaration is that of its package. -/
theorem directory_eq (hd : d ∈ plan.declaredIn p) : d.directory = p.segments := by
  rw [Declaration.directory, (mem_declaredIn.1 hd).2]
  rfl

/-- The links that are written for a declaration lead to its document. -/
theorem follow_documentPath (h : Dump.Holds raw root) (hraw : Dump.SlashFree raw) (hrun : Run root plan)
    (hp : p ∈ root.walk) (hc : c ∈ plan.declarations) :
    o.platform.follow p.segments (o.platform.relativeLink (c.documentPath o) p.segments) = some (c.documentPath o) := by
  obtain ⟨q, hq, hcq⟩ := exists_package hrun hc
  obtain ⟨segments, -, hvisible⟩ := hrun.visible hc
  have hstart := isPlain_segments h hraw hp
  refine Platform.follow_relativeLink (fun s hs => IsPlain.isName ?_ _) fun s hs => (hstart s hs).2.isName _
  rw [Declaration.documentPath, directory_eq hcq] at hs
  rcases List.mem_append.1 hs with hs | hs
  · exact (isPlain_segments h hraw hq s hs).2
  · rw [List.mem_singleton.1 hs]
    exact isPlain_file h hraw hvisible

/-! ## The links of a run -/

/-- The links of the documents of a run lead to documents of the same run, and to the right ones. -/
structure Linked (o : Options) (root : Package) (plan : ImportPlan) (documents : Documents) : Prop where
  /-- Every link on a page, followed from the directory of the page, leads to a document. -/
  leads : ∀ {path page link}, (path, page) ∈ plan.pages o root → page.Emits link →
    ∃ target ∈ documents.map (·.1), o.platform.follow path.dropLast link = some target
  /-- The entry of a declaration, re-exported or not, leads to the document of the canonical declaration. -/
  entry : ∀ {p d e}, p ∈ root.walk → d ∈ plan.declaredIn p → plan.entry? o d = some e →
    ∃ c, plan.canonicalOf? d.origin = some c ∧ o.platform.follow p.segments e.link = some (c.documentPath o)
  /-- The attributes of a page, at every depth, stand for the nodes that it shows. -/
  shown : ∀ {path page}, (path, .schema page) ∈ plan.pages o root → ∃ d ∈ plan.declarations,
    path = d.documentPath o ∧ ∀ a, a.In page.attributes ↔ ∃ t, d.schema.Shows (o.view (plan.link o d.directory)) a t
  /-- The link of an attribute leads to the document of the canonical declaration of the schema referred to. -/
  told : ∀ {d a t link}, d ∈ plan.declarations → d.schema.Shows (o.view (plan.link o d.directory)) a t →
    a.link = some link → ∃ c, plan.canonicalFor? t.element = some c ∧
      o.platform.follow d.directory link = some (c.documentPath o)
  /-- An attribute whose element refers to a schema of the dump that is not skipped has such a link. -/
  complete : ∀ {d a t m e}, d ∈ plan.declarations → d.schema.Shows (o.view (plan.link o d.directory)) a t →
    t.element.modelType = some m → e ∈ plan.declarations → e.origin = m.origin → plan.isSkipped o e = false →
    a.link.isSome

/-- What the link of an attribute is: it is written for the canonical declaration of the element. -/
theorem link_of_shows {a : Attribute} {t : Schema} {link : String}
    (hs : d.schema.Shows (o.view (plan.link o d.directory)) a t) (hl : a.link = some link) :
    ∃ c, plan.canonicalFor? t.element = some c ∧ isIgnored o c = false ∧
      link = o.platform.relativeLink (c.documentPath o) d.directory := by
  rw [hs.link_eq] at hl
  split at hl
  · simp only [Options.view, ImportPlan.link] at hl
    split at hl
    · simp at hl
    · rename_i c hc
      split at hl
      · simp at hl
      · rename_i hi
        exact ⟨c, hc, by simpa using hi, (Option.some_inj.1 hl).symm⟩
  · simp at hl

theorem canonicalFor?_spec (hrun : Run root plan) {s : Schema} (h : plan.canonicalFor? s = some c) :
    c ∈ plan.declarations ∧ plan.canonicalOf? c.origin = some c := by
  unfold canonicalFor? at h
  split at h
  · obtain ⟨hm, ho⟩ := hrun.partition.canonical_mem h
    exact ⟨hm, by rw [ho]; exact h⟩
  · simp at h

theorem mem_keys_of_canonical (hrun : Run root plan) (hc : c ∈ plan.declarations)
    (hself : plan.canonicalOf? c.origin = some c) (hi : isIgnored o c = false) :
    c.documentPath o ∈ (render o (plan.pages o root)).map (·.1) :=
  ((planned_render hrun).mem_keys _).2 (Or.inr ⟨c, hc, hself, by rw [isSkipped_eq hself, hi], rfl⟩)

/-- The entry of a declaration is written for the canonical declaration. -/
theorem follow_entry (h : Dump.Holds raw root) (hraw : Dump.SlashFree raw) (hrun : Run root plan)
    (hp : p ∈ root.walk) (hd : d ∈ plan.declaredIn p) {e : IndexEntry} (he : plan.entry? o d = some e) :
    ∃ c ∈ plan.declarations, plan.canonicalOf? d.origin = some c ∧ plan.canonicalOf? c.origin = some c ∧
      isIgnored o c = false ∧ o.platform.follow p.segments e.link = some (c.documentPath o) := by
  obtain ⟨c, hm, hc, ho, hiff⟩ := hrun.canonical (mem_declaredIn.1 hd).1
  refine ⟨c, hm, hc, by rw [ho]; exact hc, ?_⟩
  unfold entry? at he
  rw [hc] at he
  by_cases hi : isIgnored o c = true
  · simp [hi] at he
  · refine ⟨by simpa using hi, ?_⟩
    by_cases hcd : plan.isCanonical d = true
    · have hself := hiff.1 hcd
      subst hself
      obtain ⟨segments, -, hvisible⟩ := hrun.visible hm
      simp only [hi, hcd, Bool.false_eq_true, ↓reduceIte, Option.some_inj] at he
      subst he
      have hfile := isPlain_file (o := o) h hraw hvisible
      have hjoin : o.schemaFile c.name = o.platform.joinPath [o.schemaFile c.name] := by
        simp [Platform.joinPath, hfile.ne_empty, Text.join]
      rw [hjoin, Platform.follow_joinPath (by simp) (by simpa using hfile.isName _), documentPath_eq hd]
    · simp only [hi, hcd, Bool.false_eq_true, ↓reduceIte, Option.some_inj] at he
      subst he
      dsimp only
      rw [directory_eq hd, follow_documentPath h hraw hrun hp hm]

/-- The page of a schema at a path is that of a canonical declaration that is not skipped. -/
theorem mem_pages_schema {path : List String} {page : SchemaPage} (hm : (path, .schema page) ∈ plan.pages o root) :
    ∃ p ∈ root.walk, ∃ d ∈ plan.declaredIn p, path = d.documentPath o ∧
      page.attributes = d.schema.attributes (o.view (plan.link o d.directory)) := by
  simp only [pages, pagesOf, List.mem_flatMap, List.mem_append, List.mem_filterMap, List.mem_singleton] at hm
  obtain ⟨p, hp, ⟨d, hd, hpage⟩ | he⟩ := hm
  · obtain ⟨-, -, hpath, m, he⟩ := page?_eq_some hpage
    refine ⟨p, hp, d, hd, hpath, ?_⟩
    rw [Page.schema.inj he]
    rfl
  · exact absurd (Prod.mk.inj he).2 (by simp)

theorem mem_pages_index {path : List String} {page : IndexPage} (hm : (path, .index page) ∈ plan.pages o root) :
    ∃ p ∈ root.walk, path = p.segments ++ [o.indexFile] ∧ page = plan.indexPage o p := by
  simp only [pages, pagesOf, List.mem_flatMap, List.mem_append, List.mem_filterMap, List.mem_singleton] at hm
  obtain ⟨p, hp, ⟨d, hd, hpage⟩ | he⟩ := hm
  · obtain ⟨-, -, -, m, he⟩ := page?_eq_some hpage
    exact absurd he (by simp)
  · obtain ⟨h1, h2⟩ := Prod.mk.inj he
    exact ⟨p, hp, h1, Page.index.inj h2⟩

/-- The link to a sub-package leads to its index. -/
theorem follow_subpackage (h : Dump.Holds raw root) (hp : p ∈ root.walk)
    (hraw : Dump.SlashFree raw) {s : PackageLink} (hs : s ∈ (plan.indexPage o p).subpackages) :
    ∃ q ∈ root.walk, o.platform.follow p.segments s.link = some (q.segments ++ [o.indexFile]) := by
  simp only [indexPage, PackageOutcome.index, List.mem_map, Assoc.mem_sortByName] at hs
  obtain ⟨name, ⟨⟨name, child⟩, hc, rfl⟩, rfl⟩ := hs
  obtain ⟨hchild, hsegments⟩ := h.subpackage hp hc
  have hplain := (isPlain_segments h hraw hchild name (by simp [hsegments])).2
  refine ⟨child, hchild, ?_⟩
  rw [Platform.follow_joinPath (by simp) (by simpa using ⟨hplain.isName _, isPlain_indexFile.isName _⟩), hsegments]
  simp

/-- **The links of a run lead where they should.** -/
theorem linked_render (h : Dump.Holds raw root) (hraw : Dump.SlashFree raw) (hrun : Run root plan) :
    Linked o root plan (render o (plan.pages o root)) where
  entry hp hd he := by
    obtain ⟨c, -, hc, -, -, hf⟩ := follow_entry h hraw hrun hp hd he
    exact ⟨c, hc, hf⟩
  shown hm := by
    obtain ⟨p, hp, d, hd, hpath, ha⟩ := mem_pages_schema hm
    refine ⟨d, (mem_declaredIn.1 hd).1, hpath, fun a => ?_⟩
    rw [ha]
    exact Schema.in_attributes_iff
  told hd hs hl := by
    obtain ⟨p, hp, hdp⟩ := exists_package hrun hd
    obtain ⟨c, hc, -, hlink⟩ := link_of_shows hs hl
    refine ⟨c, hc, ?_⟩
    rw [hlink, directory_eq hdp]
    exact follow_documentPath h hraw hrun hp (canonicalFor?_spec hrun hc).1
  complete := by
    intro d a t m e hd hs hm he ho hi
    obtain ⟨c, hcm, hc, -, -⟩ := hrun.canonical he
    have hfor : plan.canonicalFor? t.element = some c := by
      simp only [canonicalFor?, hm]
      rw [← ho]
      exact hc
    have hignored : isIgnored o c = false := by
      rw [isSkipped, hc] at hi
      exact hi
    rw [hs.link_eq, if_pos (Schema.kind_eq_reference.2 (by rw [hm]; rfl))]
    simp [Options.view, ImportPlan.link, hfor, hignored]
  leads := by
    intro path page link hm hl
    cases hl with
    | entry mem eq =>
      obtain ⟨p, hp, rfl, rfl⟩ := mem_pages_index hm
      simp only [indexPage, PackageOutcome.index, List.mem_filterMap] at mem
      obtain ⟨d, hd, he⟩ := mem
      obtain ⟨c, hcm, -, hself, hi, hf⟩ := follow_entry h hraw hrun hp hd he
      refine ⟨_, mem_keys_of_canonical hrun hcm hself hi, ?_⟩
      rw [List.dropLast_concat, ← eq]
      exact hf
    | subpackage mem eq =>
      obtain ⟨p, hp, rfl, rfl⟩ := mem_pages_index hm
      obtain ⟨q, hq, hf⟩ := follow_subpackage h hp hraw mem
      refine ⟨_, ((planned_render hrun).mem_keys _).2 (Or.inl ⟨q, hq, rfl⟩), ?_⟩
      rw [List.dropLast_concat, ← eq]
      exact hf
    | told mem eq =>
      obtain ⟨p, hp, d, hd, rfl, ha⟩ := mem_pages_schema hm
      rw [ha, Schema.in_attributes_iff] at mem
      obtain ⟨t, hs⟩ := mem
      obtain ⟨c, hc, hi, hlink⟩ := link_of_shows hs eq
      obtain ⟨hcm, hself⟩ := canonicalFor?_spec hrun hc
      refine ⟨_, mem_keys_of_canonical hrun hcm hself hi, ?_⟩
      rw [hlink, Declaration.documentPath, List.dropLast_concat, directory_eq hd]
      exact follow_documentPath h hraw hrun hp hcm

/-- **Link integrity of every accepted dump** whose keys have no slashes and no backslashes, in every format, on every
platform and with all options. -/
theorem linked_of_packageOf {defaultName : String} {document : List (Value × Value)}
    (h : Dump.packageOf defaultName document = .ok root)
    (hkeys : ∀ raw, Dump.readDefinitions document = .ok raw → Dump.SlashFree raw) (o : Options) :
    ∃ plan documents, ofPackage? root = some plan ∧ plan.documents o root = .ok documents ∧
      documents = render o (plan.pages o root) ∧ Linked o root plan documents := by
  obtain ⟨raw, hr, hholds⟩ := Dump.holds_of_packageOf h
  obtain ⟨plan, hplan, -, hrun⟩ := exists_run hholds
  exact ⟨plan, _, hplan, documents_eq hrun, rfl, linked_render hholds (hkeys raw hr) hrun⟩

end ImportPlan

namespace Dump

/-- A dump in which an attribute refers, through an array, to a schema that is declared in another package and
re-exported next to the attribute. -/
def referring : List (Value × Value) :=
  [(.str "definitions", .map [
    (.str "base.sub.Unit", declaredIn "base.sub" "Unit" []),
    (.str "base.api.Part", declaredIn "base.sub" "Unit" []),
    (.str "base.api.Whole", declaredIn "base.api" "Whole" [(.str "properties", .map [
      (.str "parts", .map [(.str "type", .str "array"), (.str "items", .map [
        (.str "$ref", .str "#/definitions/base.api.Part")])])])])])]

theorem slashFree_referring : ∀ raw, readDefinitions referring = .ok raw → SlashFree raw := by
  intro raw h
  have hraw := Except.ok.inj h
  subst hraw
  intro key value hm
  simp only [List.mem_cons, Prod.mk.injEq, Value.str.injEq, List.not_mem_nil, or_false] at hm
  rcases hm with ⟨rfl, -⟩ | ⟨rfl, -⟩ | ⟨rfl, -⟩ <;> decide

theorem linked_of_referring : ∃ root, packageOf "main" referring = .ok root ∧ ∃ plan documents,
    ImportPlan.ofPackage? root = some plan ∧ plan.documents { platform := .windows } root = .ok documents ∧
      documents = ImportPlan.render { platform := .windows } (plan.pages { platform := .windows } root) ∧
      ImportPlan.Linked { platform := .windows } root plan documents := by
  obtain ⟨root, h⟩ := exists_ok_of_isOk (by decide +kernel : (packageOf "main" referring).isOk = true)
  exact ⟨root, h, ImportPlan.linked_of_packageOf h slashFree_referring _⟩

end Dump

end SchemaDocs
