import SchemaDocs.Proofs.Confinement
import SchemaDocs.Proofs.Keys
import SchemaDocs.Proofs.LinkIntegrity

/-!
# Showing one document

A schema can be shown on its own, or be documented with all others. The one asks the schema itself whether it is left
out, the other its canonical declaration; the one has no links, the other looks them up in the plan. For a canonical
declaration the two agree (`ImportPlan.Shown`): nothing is shown exactly when no document is planned, and else what is
shown is the planned page without the links of its attributes, since a link comes into nothing but the attribute that
has it (`Schema.attributes_mapLinks`). `Command.execute_shows` says so of the command line.

The key leads to the declaration as long as no two keys lead to one place.
-/

namespace SchemaDocs

/-- The page without the links of its attributes, at every depth. -/
def SchemaPage.unlink (page : SchemaPage) : SchemaPage :=
  { page with attributes := Attribute.mapLinks (fun _ => none) page.attributes }

namespace Schema

variable {o : Options} {link : Schema → Option String} {s : Schema}

/-- Without links the page of a schema is told without them, and nothing else changes. -/
theorem page_unlink (o : Options) (link : Schema → Option String) (m : ModelType) (s : Schema) :
    s.page o.platform (o.view fun _ => none) m = (s.page o.platform (o.view link) m).unlink := by
  have htold : (o.view fun _ => none).ignoreDeprecated = (o.view link).ignoreDeprecated := rfl
  have hattributes : s.attributes (o.view fun _ => none) =
      Attribute.mapLinks (fun _ => none) (s.attributes (o.view link)) :=
    attributes_mapLinks rfl (fun _ => rfl) htold s
  rw [page, hattributes]
  rfl

/-- A page that has no links stays as it is. -/
theorem unlink_page (m : ModelType) (h : ∀ a t, Shows (o.view link) s a t → a.link = none) :
    (s.page o.platform (o.view link) m).unlink = s.page o.platform (o.view link) m := by
  have hattributes : Attribute.mapLinks (fun _ => none) (s.attributes (o.view link)) = s.attributes (o.view link) :=
    Attribute.mapLinks_of_fixed _ fun a ha => by
      obtain ⟨t, ht⟩ := in_attributes_iff.1 ha
      exact (h a t ht).symm
  rw [SchemaPage.unlink, page, hattributes]

end Schema

/-! ## Documents are not empty -/

theorem Platform.withLineEnds_ne_empty (p : Platform) {s : String} (h : s ≠ "") : p.withLineEnds s ≠ "" := by
  have hunify : ∀ {cs : List Char}, cs ≠ [] → Text.unifyLineEndsList cs ≠ [] := by
    intro cs hcs
    unfold Text.unifyLineEndsList
    split <;> simp_all
  rw [ne_eq, ← String.toList_inj] at h ⊢
  have hunified := hunify h
  cases p with
  | unix => simpa [withLineEnds, Text.unifyLineEnds] using hunified
  | windows =>
    obtain ⟨c, rest, hc⟩ := List.exists_cons_of_ne_nil hunified
    rw [withLineEnds, Text.pairLineEnds, Text.unifyLineEnds, String.toList_ofList, String.toList_ofList, hc,
      Text.pairLineEndsList, List.flatMap_cons]
    split <;> simp

theorem Markdown.schemaDocument_ne_empty (escape : Bool) (page : SchemaPage) : schemaDocument escape page ≠ "" := by
  intro h
  unfold schemaDocument at h
  simp only [String.append_eq_empty_iff] at h
  exact absurd h.1.1.1.1.1.1.1.1.1 (by decide)

theorem Html.schemaDocument_ne_empty (page : SchemaPage) : schemaDocument page ≠ "" := by
  intro h
  unfold schemaDocument document at h
  simp only [String.append_eq_empty_iff] at h
  exact absurd h.1 (by decide)

theorem Options.schemaDocument_ne_empty (o : Options) (page : SchemaPage) : o.schemaDocument page ≠ "" := by
  refine Platform.withLineEnds_ne_empty o.platform ?_
  cases o.format with
  | markdown => exact Markdown.schemaDocument_ne_empty o.escapeHtml page
  | html => exact Html.schemaDocument_ne_empty page

/-! ## Agreement with the plan -/

namespace ImportPlan

variable {o : Options} {plan : ImportPlan} {root : Package} {c d : Declaration}

/-- What is shown of a declaration by itself agrees with the documents that are planned. -/
structure Shown (o : Options) (root : Package) (plan : ImportPlan) (documents : Documents) (d : Declaration)
    (output : String) : Prop where
  /-- Nothing is shown exactly when there is no document of the declaration. -/
  empty_iff : output = "" ↔ d.documentPath o ∉ documents.map (·.1)
  /-- The document is written from a page, and what is shown from this page without the links of its attributes. -/
  unlinked : ∀ text, (d.documentPath o, text) ∈ documents → ∃ page,
    (d.documentPath o, .schema page) ∈ plan.pages o root ∧ text = o.schemaDocument page ∧
      output = o.schemaDocument page.unlink
  /-- If no attribute on the page, at whatever depth, has an element that refers to a documented schema, what is shown
  is the document. -/
  same : ∀ text, (d.documentPath o, text) ∈ documents →
    (∀ a t c, d.schema.Shows (o.view (plan.link o d.directory)) a t → plan.canonicalFor? t.element = some c →
      c.documentPath o ∉ documents.map (·.1)) → output = text

/-- A canonical declaration has a page unless it is left out, and no other page is at its path. -/
theorem mem_pages_documentPath (hrun : Run root plan) (hd : d ∈ plan.declarations) (hc : plan.isCanonical d = true)
    {m : ModelType} (hm : d.schema.modelType = some m) {page : Page} :
    (d.documentPath o, page) ∈ plan.pages o root ↔ isIgnored o d = false ∧
      page = .schema (d.schema.page o.platform (o.view (plan.link o d.directory)) m) := by
  have hpage : ∀ {page}, plan.page? o d = some (d.documentPath o, page) ↔ isIgnored o d = false ∧
      page = .schema (d.schema.page o.platform (o.view (plan.link o d.directory)) m) := by
    intro page
    rw [page?, hc, hm]
    cases isIgnored o d <;> simp [eq_comm]
  constructor
  · intro h
    simp only [pages, pagesOf, List.mem_flatMap, List.mem_append, List.mem_filterMap, List.mem_singleton] at h
    obtain ⟨p, -, ⟨e, he, hpageOf⟩ | hindex⟩ := h
    · -- only one declaration has its document at this path
      obtain ⟨-, -, hpath, -⟩ := page?_eq_some hpageOf
      obtain ⟨hdirectory, hfile⟩ := List.append_inj' hpath rfl
      have hplace : d.path = e.path := by
        rw [← Package.pathOf_segmentsOf d.path, ← Package.pathOf_segmentsOf e.path]
        exact congrArg Package.pathOf hdirectory
      have hname : d.name = e.name := schemaFile_inj (List.cons.inj hfile).1
      obtain rfl := hrun.inventory.eq_of_location hd (mem_declaredIn.1 he).1 hplace hname
      exact hpage.1 hpageOf
    · obtain ⟨-, hfile⟩ := List.append_inj' (Prod.mk.inj hindex).1 rfl
      exact absurd (List.cons.inj hfile).1 (schemaFile_ne_indexFile d.name)
  · intro h
    obtain ⟨p, hp, hdp⟩ := exists_package hrun hd
    exact List.mem_flatMap.2 ⟨p, hp, List.mem_append_left _ (List.mem_filterMap.2 ⟨d, hdp, hpage.2 h⟩)⟩

/-- **What is shown of a canonical declaration agrees with the plan.** -/
theorem exists_shown (hrun : Run root plan) (hd : d ∈ plan.declarations) (hc : plan.isCanonical d = true) :
    ∃ shown, o.documentUnlessIgnored (fun _ => none) d.schema = .ok shown ∧
      Shown o root plan (render o (plan.pages o root)) d (shown.getD "") := by
  obtain ⟨m, hm, -⟩ := hrun.inventory.origin_eq hd
  have hpages {page : Page} : (d.documentPath o, page) ∈ plan.pages o root ↔ _ := mem_pages_documentPath hrun hd hc hm
  have hkey : d.documentPath o ∈ (render o (plan.pages o root)).map (·.1) ↔ isIgnored o d = false := by
    simp only [render, List.map_map, List.mem_map, Prod.exists, Function.comp_apply, exists_and_right, exists_eq_right,
      hpages]
  cases hi : isIgnored o d with
  | true =>
    have hshown : o.documentUnlessIgnored (fun _ => none) d.schema = .ok none := if_pos hi
    have hnone : ∀ text, (d.documentPath o, text) ∉ render o (plan.pages o root) := fun text h =>
      absurd (hkey.1 (List.mem_map_of_mem h)) (by rw [hi]; decide)
    refine ⟨none, hshown, ?_, fun text h => absurd h (hnone text), fun text h => absurd h (hnone text)⟩
    rw [hkey, hi]
    simp
  | false =>
    have hshown : o.documentUnlessIgnored (fun _ => none) d.schema =
        .ok (some (o.schemaDocument (d.schema.page o.platform (o.view (plan.link o d.directory)) m).unlink)) := by
      have hnot : (o.ignoreDeprecated && d.schema.isDeprecated) = false := hi
      rw [Options.documentUnlessIgnored, hnot, document_ok _ (hrun.declared d hd) hm,
        Schema.page_unlink o (plan.link o d.directory)]
      rfl
    have htext : ∀ text, (d.documentPath o, text) ∈ render o (plan.pages o root) →
        text = o.schemaDocument (d.schema.page o.platform (o.view (plan.link o d.directory)) m) := by
      intro text h
      obtain ⟨⟨_, page⟩, hpage, he⟩ := List.mem_map.1 h
      obtain ⟨rfl, rfl⟩ := Prod.mk.inj he
      rw [(hpages.1 hpage).2]
      rfl
    refine ⟨some _, hshown, ?_, fun text h => ⟨_, hpages.2 ⟨hi, rfl⟩, htext text h, rfl⟩, fun text h hother => ?_⟩
    · rw [hkey, hi]
      simpa using o.schemaDocument_ne_empty _
    · rw [htext text h]
      refine congrArg o.schemaDocument
        (Schema.unlink_page m fun a t ht => Option.eq_none_iff_forall_not_mem.2 fun link hl => ?_)
      obtain ⟨c, hcanonical, hignored, -⟩ := link_of_shows ht hl
      obtain ⟨hmem, hself⟩ := canonicalFor?_spec hrun hcanonical
      exact hother a t c ht hcanonical (mem_keys_of_canonical hrun hmem hself hignored)

end ImportPlan

/-! ## Command lines -/

namespace Command

open Files (Path Volume)
open Run (Yields keysAt)

variable {v : Volume} {s : Settings} {root : Package} {key : String}

/-- The key of a definition leads to its schema and to the declaration of it, if no other key leads there. -/
theorem exists_found {defaultName : String} {document raw : List (Value × Value)} {plan : ImportPlan}
    (h : Dump.packageOf defaultName document = .ok root) (hr : Dump.readDefinitions document = .ok raw)
    (hrun : ImportPlan.Run root plan) (hkey : key ∈ Dump.keysOf raw)
    (halone : ∀ key' ∈ Dump.keysOf raw, Text.splitLast '.' key' = Text.splitLast '.' key → key' = key) :
    ∃ d ∈ plan.declarations, d.IsAt key ∧ findSchema root key = .ok d.schema := by
  obtain ⟨info, raw', placements, p, -, hr', ha, rfl⟩ := Dump.packageOf_ok.1 h
  obtain rfl : raw = raw' := Except.ok.inj (hr.symm.trans hr')
  rw [← ha.keys_eq, List.mem_map] at hkey
  obtain ⟨⟨key, t⟩, hm, rfl⟩ := hkey
  have hvisible : Package.schemaAt? _ _ (Dump.placeEach placements (Dump.emptyRoot defaultName info)) = some t :=
    ha.schemaAt?_of_mem rfl rfl hm fun key' hkey' hsegments hname =>
      halone key' hkey' (Dump.splitLast_eq_of_place hsegments hname)
  obtain ⟨d, hd, hpath, hname, rfl⟩ := hrun.exists_declaration hvisible
  exact ⟨d, hd, ⟨hpath.trans (Package.pathOf_segmentsOf _), hname⟩, Dump.findSchema_ok.2 hvisible⟩

/-- Showing the schema under a key leaves the files as they are; a schema that is left out is shown as nothing. -/
theorem yields_render {schema : Schema} (hload : Yields (Run.loadPackage s.packagePath) v (.ok root) v)
    (hfound : findSchema root key = .ok schema) : Yields (render s (some key)) v
      (((s.options.written (fun _ => none) schema).map fun shown => shown.getD "").mapError faulty) v := by
  refine hload.bind ((Yields.pure key v).bind ?_)
  dsimp only
  rw [hfound]
  refine (Yields.pure schema v).bind ?_
  cases s.options.written (fun _ => none) schema with
  | error fault => exact (Yields.ofExcept _ _ v).bind_error
  | ok shown =>
    refine (Yields.ofExcept _ _ v).bind ?_
    cases shown with
    | some text => exact Yields.pure text v
    | none => exact (Yields.log _ v).bind (Yields.pure "" v)

/-- The document of a declaration is planned, but it shows a value that has no literal: the command line that shows it
ends with this, and no documents are written. -/
structure Withheld (o : SchemaDocs.Options) (root : Package) (plan : ImportPlan) (d : Declaration) (v : Volume)
    (result : Result) : Prop where
  planned : ImportPlan.isIgnored o d = false
  fails : ∃ fault shown, o.literalFault? d.schema = some fault ∧ result = .ofRun shown (.error (.literal fault))
  unwritten : ∀ s : Settings, s.options = o →
    ∃ fault, Yields (Run.makeDocuments s root) v (.error (.literal fault)) v

/-- **Showing the document of a schema agrees with writing all documents**, for every package that can be loaded, all
settings, and the key of every definition that is the only one at its place. If the declaration of the definition is
canonical, the command line that shows it succeeds and changes no file; it shows nothing exactly when no document is
planned for the declaration, and else the planned document without the links of its attributes. It fails only for a
value that has no literal, and then the documents are not written either. -/
theorem execute_shows {dashes : Dashes} {arguments : List String} {request : Request} {c : Configuration}
    (hrequest : Request.ofArguments dashes arguments = .ok request) (haction : request.action = .render (some key))
    (hconfiguration : Yields (configurationOf request) v (.ok c) v)
    (hload : Yields (Run.loadPackage (request.settings c).packagePath) v (.ok root) v)
    (hkey : key ∈ keysAt v (request.settings c).packagePath)
    (hapart : ∀ k ∈ keysAt v (request.settings c).packagePath, ∀ k' ∈ keysAt v (request.settings c).packagePath,
      Text.splitLast '.' k = Text.splitLast '.' k' → k = k') :
    ∃ plan documents d, ImportPlan.ofPackage? root = some plan ∧ d ∈ plan.declarations ∧ d.IsAt key ∧
      plan.documents (request.settings c).options root = .ok documents ∧
      (∀ s : Settings, s.options = (request.settings c).options →
        Yields (Run.makeDocuments s root) v (.ok documents) v ∨
          ∃ fault, Yields (Run.makeDocuments s root) v (.error (.literal fault)) v ∧
            ImportPlan.Unwritable (request.settings c).options plan fault) ∧
      (plan.isCanonical d = true → ∃ result, (execute dashes arguments : StateM Volume _) v = (result, v) ∧
        ((∃ output shown, result = .finished ⟨0, output, shown⟩ ∧
          ImportPlan.Shown (request.settings c).options root plan documents d output) ∨
        Withheld (request.settings c).options root plan d v result)) := by
  obtain ⟨r, hr, hloaded⟩ := Run.exists_loaded v (request.settings c).packagePath
  obtain ⟨document, name, hdocument, hpackage⟩ := hloaded root (hr.unique hload).1
  obtain ⟨raw, hraw, hholds⟩ := Dump.holds_of_packageOf hpackage
  obtain ⟨plan, hplan, -, hrun⟩ := ImportPlan.exists_run hholds
  rw [Run.keysAt_eq hdocument hraw] at hkey hapart
  obtain ⟨d, hd, hat, hfound⟩ := exists_found hpackage hraw hrun hkey fun k hk => hapart k hk key hkey
  have hmade (s : Settings) :
      Yields (Run.makeDocuments s root) v ((plan.written s.options root).mapError Run.flawed) v := by
    obtain ⟨made, hmade, -, heq⟩ := Run.exists_madeDocuments Volume s root
    exact heq plan hplan ▸ hmade v
  have hunwritten {s : Settings} {fault : Value.LiteralFault}
      (h : plan.written s.options root = .error (.literal fault)) :
      Yields (Run.makeDocuments s root) v (.error (.literal fault)) v := by
    have := hmade s
    rwa [h] at this
  refine ⟨plan, _, d, hplan, hd, hat, ImportPlan.documents_eq hrun, fun s hs => ?_, fun hc => ?_⟩
  · rcases ImportPlan.written_cases (o := s.options) hrun with ⟨hwritten, -⟩ | ⟨fault, hwritten, hfault⟩
    · refine .inl ?_
      have := hmade s
      rwa [hwritten, hs] at this
    · exact .inr ⟨fault, hunwritten hwritten, hs ▸ hfault⟩
  · obtain ⟨shown, hshown, hagrees⟩ := ImportPlan.exists_shown (o := (request.settings c).options) hrun hd hc
    have hcarried : Yields (carryOut request) v _ v :=
      hconfiguration.bind (by rw [haction]; exact yields_render hload hfound)
    obtain ⟨log, hexecute⟩ := execute_eq hrequest hcarried
    refine ⟨_, hexecute, ?_⟩
    rcases SchemaDocs.Options.written_cases hshown with hwritten | ⟨hsome, fault, hfault, hwritten⟩
    · refine .inl ⟨shown.getD "", log, ?_, hagrees⟩
      rw [hwritten]
      rfl
    · have hplanned : ImportPlan.isIgnored (request.settings c).options d = false := by
        rw [← Bool.not_eq_true]
        intro (hi : ((request.settings c).options.ignoreDeprecated && d.schema.isDeprecated) = true)
        rw [SchemaDocs.Options.documentUnlessIgnored, if_pos hi] at hshown
        cases hshown
        cases hsome
      refine .inr ⟨hplanned, ⟨fault, log, hfault, by rw [hwritten]; rfl⟩, fun s hs => ?_⟩
      rcases ImportPlan.written_cases (o := s.options) hrun with ⟨-, hnone⟩ | ⟨fault', hwritten', -⟩
      · exact absurd ⟨d, hd, hc, hs ▸ hplanned, Schema.exists_of_literalFault? (hs ▸ hfault)⟩ (hnone fault)
      · exact ⟨fault', hunwritten hwritten'⟩

/-! ### Small dumps -/

def renderWords : List String := ["render", "--schema", "A"]

/-- What these words ask for. -/
def renderRequest : Request where
  action := .render (some "A")

/-- A disk with a dump in which an attribute of a schema is of the type of the schema. -/
def linkedDisk : Volume where
  root := .directory [("work", .directory [("swagger.json", .file (Text.Utf8.encode
    "\x7b\"definitions\":\x7b\"A\":\x7b\"x-kcl-type\":\x7b\"type\":\"A\"\x7d,\"properties\":\x7b\"a\":\x7b\"$ref\":\"#/definitions/A\"\x7d\x7d\x7d\x7d\x7d"))])]
  work := ["work"]

/-- The declarations of the package that is loaded from a disk, with whether they are canonical. -/
def canonicalAt (v : Volume) : List (String × Bool) :=
  match ((Run.outcome (Run.loadPackage (renderRequest.settings {}).packagePath) : StateM Volume _) v).1.1 with
  | .ok root => match ImportPlan.ofPackage? root with
    | some plan => plan.declarations.map fun d => (d.name, plan.isCanonical d)
    | none => []
  | .error _ => []

/-- A schema with an attribute that has a link is shown as it is documented, but for the link. -/
theorem execute_renderWords : ∃ root plan documents d, ImportPlan.ofPackage? root = some plan ∧
    d ∈ plan.declarations ∧ d.IsAt "A" ∧ plan.isCanonical d = true ∧ ∃ output shown,
      (execute .kept renderWords : StateM Volume _) linkedDisk = (.finished ⟨0, output, shown⟩, linkedDisk) ∧
      ImportPlan.Shown (renderRequest.settings {}).options root plan documents d output := by
  have hrequest : Request.ofArguments .kept renderWords = .ok renderRequest := rfl
  have hconfiguration : Yields (configurationOf renderRequest) linkedDisk (.ok {}) linkedDisk := by
    have hnone : linkedDisk.kindOf? (.ofText Configuration.defaultFile) = .ok none := by rfl
    exact (Yields.onDisk (by rw [Volume.kind?_eq, hnone])).bind (Yields.pure _ _)
  have hcanonical : canonicalAt linkedDisk = [("A", true)] := by decide +kernel
  have hkeys : keysAt linkedDisk (renderRequest.settings {}).packagePath = ["A"] := by decide +kernel
  have hexit : ((execute .kept renderWords : StateM Volume _) linkedDisk).1.exit? = some 0 := by decide +kernel
  obtain ⟨r, hload, -⟩ := Run.exists_loaded linkedDisk (renderRequest.settings {}).packagePath
  obtain ⟨log, houtcome⟩ := hload.exists_outcome
  rw [canonicalAt, houtcome] at hcanonical
  cases r with
  | error e => cases hcanonical
  | ok root =>
    obtain ⟨plan, documents, d, hplan, hd, hat, -, -, hshow⟩ := execute_shows hrequest rfl hconfiguration hload
      (by rw [hkeys]; exact List.mem_singleton_self _) (by rw [hkeys]; simp)
    have hc : plan.isCanonical d = true := by
      simp only [hplan] at hcanonical
      have hm : (d.name, plan.isCanonical d) ∈ [("A", true)] := hcanonical ▸ List.mem_map_of_mem hd
      exact (Prod.mk.inj (List.mem_singleton.1 hm)).2
    obtain ⟨result, hexecute, ⟨output, shown, rfl, hshown⟩ | hwithheld⟩ := hshow hc
    · exact ⟨root, plan, documents, d, hplan, hd, hat, hc, output, shown, hexecute, hshown⟩
    · obtain ⟨fault, shown, -, rfl⟩ := hwithheld.fails
      rw [hexecute] at hexit
      cases fault <;> cases hexit

/-- Every declaration of a dump has a document that is planned, and none of them can be shown. -/
def isWithheld (o : SchemaDocs.Options) (document : List (Value × Value)) : Bool :=
  match Dump.packageOf "main" document with
  | .error _ => false
  | .ok root => (ImportPlan.ofPackage? root).any fun plan => plan.declarations.all fun d =>
    plan.isCanonical d && !ImportPlan.isIgnored o d && match o.written (fun _ => none) d.schema with
      | .error (.literal _) => true
      | _ => false

/-- A schema with a default that lies in itself has a document that is planned, and cannot be shown. -/
theorem not_shown_of_knotted : ∃ root plan d, Dump.packageOf "main" Dump.knotted = .ok root ∧
    ImportPlan.ofPackage? root = some plan ∧ d ∈ plan.declarations ∧ findSchema root "A" = .ok d.schema ∧
    plan.isCanonical d = true ∧ ImportPlan.isIgnored {} d = false ∧
    ∃ fault, SchemaDocs.Options.written {} (fun _ => none) d.schema = .error (.literal fault) := by
  obtain ⟨root, h⟩ := exists_ok_of_isOk (by decide +kernel : (Dump.packageOf "main" Dump.knotted).isOk = true)
  obtain ⟨raw, hraw, hholds⟩ := Dump.holds_of_packageOf h
  obtain ⟨plan, hplan, -, hrun⟩ := ImportPlan.exists_run hholds
  have hkeys : Dump.keysOf raw = ["A"] := by
    cases hraw
    rfl
  have hkey : "A" ∈ Dump.keysOf raw := hkeys ▸ List.mem_singleton_self "A"
  obtain ⟨d, hd, -, hfound⟩ := exists_found h hraw hrun hkey (by rw [hkeys]; simp)
  have hwithheld : isWithheld {} Dump.knotted = true := by decide +kernel
  simp only [isWithheld, h, hplan, Option.any_some, List.all_eq_true, Bool.and_eq_true, Bool.not_eq_true'] at hwithheld
  obtain ⟨⟨hc, hi⟩, hwritten⟩ := hwithheld d hd
  refine ⟨root, plan, d, h, hplan, hd, hfound, hc, hi, ?_⟩
  split at hwritten
  · exact ⟨_, ‹_›⟩
  · cases hwritten

end Command

end SchemaDocs
