import SchemaDocs.Proofs.Loads

/-!
# Runs keep to their target

Whatever comes of a run, it changes nothing but what is below the target, and makes directories that are missing on the
way to it (`Confined`). Each step is accounted for by the place that it changes: the steps of preparing the target and
of writing a document are changes on the way to the target or below it (`Prepared.changes`, `Written.changes`), because
the path of a planned document leads on from the target. A segment of a key that begins with a slash leads elsewhere.
-/

namespace SchemaDocs

namespace Files.Path.LeadsOn

open Volume (OnWay placeOf_eq)

variable {t p : Path} {rest : List String} {v : Volume} {loc : Location}

theorem start_eq (h : LeadsOn t p rest) (v : Volume) : v.start p = v.start t := by
  rw [h.1]
  rfl

theorem placeOf_eq (h : LeadsOn t p rest) (v : Volume) : v.placeOf p = v.placeOf t ++ rest := by
  rw [Volume.placeOf_eq, h.start_eq, Volume.placeOf_eq, h.1, walk_append, walk_of_names _ h.2.2]

theorem strictlyBelow (h : LeadsOn t p rest) (v : Volume) : StrictlyBelow (v.placeOf t) (v.placeOf p) := by
  rw [h.placeOf_eq v]
  exact strictlyBelow_append h.2.1

/-- The way along the path goes along that to the target, and then down from there. -/
theorem onWay (h : LeadsOn t p rest) (hloc : v.OnWay p loc) : v.OnWay t loc ∨
    ∃ front, front ≠ [] ∧ front <+: rest ∧ loc = v.placeOf t ++ front := by
  obtain ⟨front, hfront, rfl⟩ := hloc
  rw [h.start_eq]
  rw [h.1] at hfront
  rcases List.prefix_or_prefix_of_prefix hfront (List.prefix_append t.segments rest) with hshort | ⟨mid, rfl⟩
  · exact .inl ⟨front, hshort, rfl⟩
  · have hmid : mid <+: rest := (List.prefix_append_right_inj _).1 hfront
    rw [walk_append, walk_of_names _ fun hup => h.2.2 (hmid.subset hup), ← Volume.placeOf_eq]
    by_cases hnil : mid = []
    · rw [hnil, List.append_nil]
      exact .inl (v.onWay_placeOf t)
    · exact .inr ⟨mid, hnil, hmid, rfl⟩

theorem onWay_or_strictlyBelow (h : LeadsOn t p rest) (hloc : v.OnWay p loc) :
    v.OnWay t loc ∨ StrictlyBelow (v.placeOf t) loc := by
  rcases h.onWay hloc with hway | ⟨front, hnil, -, rfl⟩
  · exact .inl hway
  · exact .inr (strictlyBelow_append hnil)

end Files.Path.LeadsOn

namespace Run

open Files (Path Fault Disk Volume Location StrictlyBelow)
open Files.Volume (OnWay Changes)

variable {v v0 v' u : Volume} {s : Settings} {t : Path} {root : Package} {documents : Documents} {loc : Location}

theorem leadsOn_marker (t : Path) : Path.LeadsOn t (marker t) [markerName] := ⟨marker_eq t, by simp, by decide⟩

/-! ## What the steps change -/

/-- The files before anything is made: as they were, or without something that has been removed from the target. -/
inductive Stripped (v : Volume) (t : Path) : Volume → Prop
  | untouched : Stripped v t v
  | stripped (there : v.IsAt .directory t) (entries : List (String × Files.Entry)) :
    Stripped v t (v.putAt (v.placeOf t) (.directory entries))

theorem Emptied.stripped (h : Emptied v t v0) : Stripped v t v0 := by
  cases h with
  | absent => exact .untouched
  | cleared there => exact .stripped there []

theorem Thinned.stripped (h : Thinned v t v0) : Stripped v t v0 := by
  obtain ⟨entries, rfl⟩ := h.eq
  exact .stripped h.there entries

theorem Stripped.work (h : Stripped v t v0) : v0.work = v.work := by cases h <;> rfl

theorem Stripped.follows (h : Stripped v t v0) : v0.follows = v.follows := by cases h <;> rfl

theorem Emptied.work (h : Emptied v t v0) : v0.work = v.work := h.stripped.work

/-- Removing something from the target shows below it only. -/
theorem Stripped.nodeAt? (h : Stripped v t v0) (hloc : ¬ StrictlyBelow (v.placeOf t) loc) :
    v0.nodeAt? loc = v.nodeAt? loc := by
  cases h with
  | untouched => rfl
  | stripped there entries => exact Volume.nodeAt?_refilled there.kindAt entries hloc

/-- After something has been removed from the target, or nothing, preparing it makes directories on the way to it and
writes the marking file. -/
theorem Prepared.changes {r : Except RunError Unit} (h : Prepared v t r v') : ∃ v0, Stripped v t v0 ∧
    Changes (v.OnWay t) (· = v.placeOf (marker t)) v0 v' := by
  have hensures : ∀ {v0 v1 made}, Emptied v t v0 → v0.Ensures t made v1 →
      Changes (v.OnWay t) (· = v.placeOf (marker t)) v0 v1 := fun hemptied hensures =>
    hensures.changes.mono (fun _ => Volume.onWay_congr hemptied.work) fun _ => False.elim
  cases h with
  | unseen => exact ⟨v, .untouched, .refl⟩
  | refused => exact ⟨v, .untouched, .refl⟩
  | thinned e thinned => exact ⟨_, thinned.stripped, .refl⟩
  | stuck e emptied ensures => exact ⟨_, emptied.stripped, hensures emptied ensures⟩
  | @ready v0 v1 _ emptied made marked =>
    have hmade := hensures emptied (Volume.ensures_makeDirectories made)
    refine ⟨v0, emptied.stripped, hmade.tail (marked.change.mono (fun _ => False.elim) ?_)⟩
    rintro _ rfl
    exact Volume.placeOf_congr (hmade.grows.work.trans emptied.work) _

/-- The place is passed on the way to a document. -/
def OnWayToDocument (v : Volume) (t : Path) (documents : Documents) (loc : Location) : Prop :=
  ∃ d ∈ documents, v.OnWay (t.joinAll d.1) loc

def IsDocumentPlace (v : Volume) (t : Path) (documents : Documents) (loc : Location) : Prop :=
  ∃ d ∈ documents, loc = v.placeOf (t.joinAll d.1)

/-- Writing documents makes directories on the ways to them and writes their files. -/
theorem Written.changes {r : Except RunError (List Path)} (h : Written t documents v r v') (hwork : v.work = u.work) :
    Changes (OnWayToDocument u t documents) (IsDocumentPlace u t documents) v v' := by
  have hensures : ∀ {segments : List String} {v v1 : Volume} {made : Except Fault Unit} (text : String)
      (rest : Documents), v.work = u.work → v.Ensures (t.joinAll segments).parent made v1 →
      Changes (OnWayToDocument u t ((segments, text) :: rest)) (IsDocumentPlace u t ((segments, text) :: rest))
        v v1 := by
    intro segments v v1 made text rest hwork hensures
    exact hensures.changes.mono (fun loc hloc =>
      ⟨_, List.mem_cons_self, Volume.onWay_congr hwork (Volume.onWay_of_parent hloc)⟩) fun _ => False.elim
  induction h with
  | nil => exact .refl
  | failed text rest ensures reason => exact hensures text rest hwork ensures
  | @cons v v1 v2 v' segments text rest result ensures writes tail ih =>
    have hwork1 : v1.work = u.work := ensures.changes.grows.work.trans hwork
    have hwork2 : v2.work = u.work := writes.change.grows.work.trans hwork1
    refine ((hensures text rest hwork ensures).tail (writes.change.mono (fun _ => False.elim) ?_)).trans
      ((ih hwork2).mono ?_ ?_)
    · rintro _ rfl
      exact ⟨_, List.mem_cons_self, Volume.placeOf_congr hwork1 _⟩
    · exact fun loc ⟨d, hd, hloc⟩ => ⟨d, List.mem_cons_of_mem _ hd, hloc⟩
    · exact fun loc ⟨d, hd, hloc⟩ => ⟨d, List.mem_cons_of_mem _ hd, hloc⟩

/-! ## Confinement -/

/-- The path of the target itself passes the place, which is below the target, as `docs/old/..` passes a place below
`docs`. -/
def Passes (v : Volume) (t : Path) (loc : Location) : Prop := v.OnWay t loc ∧ StrictlyBelow (v.placeOf t) loc

/-- Nothing has changed but what is below the target, and directories have been made on the way to it where nothing
was. -/
structure Confined (v : Volume) (t : Path) (v' : Volume) : Prop where
  work : v'.work = v.work
  elsewhere : ∀ loc, ¬ StrictlyBelow (v.placeOf t) loc → v'.nodeAt? loc = v.nodeAt? loc ∨
    v.nodeAt? loc = none ∧ v'.nodeAt? loc = some .directory ∧ v.OnWay t loc

theorem Confined.refl (v : Volume) (t : Path) : Confined v t v := ⟨rfl, fun _ _ => .inl rfl⟩

theorem confined_of_changes (h0 : Stripped v t v0)
    (h : Changes (fun loc => v.OnWay t loc ∨ StrictlyBelow (v.placeOf t) loc) (StrictlyBelow (v.placeOf t)) v0 v') :
    Confined v t v' := by
  refine ⟨h.grows.work.trans h0.work, fun loc hloc => ?_⟩
  rw [← h0.nodeAt? hloc]
  rcases h.nodeAt? hloc with hsame | ⟨hnone, hmade, hway⟩
  · exact .inl hsame
  · exact .inr ⟨hnone, hmade, hway.resolve_right hloc⟩

theorem Prepared.confined_changes {r : Except RunError Unit} (h : Prepared v t r v') :
    ∃ v0, Stripped v t v0 ∧
      Changes (fun loc => v.OnWay t loc ∨ StrictlyBelow (v.placeOf t) loc) (StrictlyBelow (v.placeOf t)) v0 v' := by
  obtain ⟨v0, h0, hchanges⟩ := h.changes
  refine ⟨v0, h0, hchanges.mono (fun _ => .inl) ?_⟩
  rintro _ rfl
  exact (leadsOn_marker t).strictlyBelow v

theorem Written.confined_changes {r : Except RunError (List Path)} (h : Written t documents v r v')
    (hwork : v.work = u.work) (hpaths : ∀ d ∈ documents, ∃ rest, Path.LeadsOn t (t.joinAll d.1) rest) :
    Changes (fun loc => u.OnWay t loc ∨ StrictlyBelow (u.placeOf t) loc) (StrictlyBelow (u.placeOf t)) v v' := by
  refine (h.changes hwork).mono ?_ ?_
  · rintro loc ⟨d, hd, hloc⟩
    obtain ⟨rest, hrest⟩ := hpaths d hd
    exact hrest.onWay_or_strictlyBelow hloc
  · rintro _ ⟨d, hd, rfl⟩
    obtain ⟨rest, hrest⟩ := hpaths d hd
    exact hrest.strictlyBelow u

/-- Writing documents whose paths lead on from the target keeps to it. -/
theorem Generated.confined {r : Except RunError (List Path)} (h : Generated s root v r v')
    (hpaths : ∀ documents, Yields (makeDocuments s root) v (.ok documents) v →
      ∀ d ∈ documents, ∃ rest, Path.LeadsOn s.target (s.target.joinAll d.1) rest) : Confined v s.target v' := by
  cases h with
  | unplanned => exact .refl v s.target
  | unprepared made prepared =>
    obtain ⟨v0, h0, hchanges⟩ := prepared.confined_changes
    exact confined_of_changes h0 hchanges
  | @written documents v1 _ _ made prepared run written =>
    obtain ⟨v0, h0, hchanges⟩ := prepared.confined_changes
    have hwork : v1.work = v.work := hchanges.grows.work.trans h0.work
    exact confined_of_changes h0 (hchanges.trans (written.confined_changes hwork (hpaths documents made)))

/-- The documents that are made of a loaded package are spelled with the keys of its dump. -/
theorem exists_spelled_of_made {σ : Type} [Disk (StateM σ)] [Looks σ] {v : σ}
    (hroot : Yields (loadPackage s.packagePath) v (.ok root) v)
    (hmade : Yields (makeDocuments s root) v (.ok documents) v) : (documents.map (·.1)).Nodup ∧
      ∀ path ∈ documents.map (·.1), ∃ directory file,
        Dump.Spelled (keysAt v s.packagePath) s.options path directory file := by
  obtain ⟨r, hr, hdocument⟩ := exists_loaded v s.packagePath
  obtain ⟨document, name, hload, hpackage⟩ := hdocument root (hr.unique hroot).1
  obtain ⟨plan, hplan, -, hdocuments⟩ := exists_plan_of_made hmade
  obtain ⟨raw, hraw, hspelled⟩ := Dump.exists_spelled hpackage hplan hdocuments
  rwa [keysAt_eq hload hraw]

/-- **A run keeps to its target**, whatever comes of it, whatever the target is and whatever the files are, as long as
no segment of a key begins with a slash: the path of every planned document leads on from the target, and nothing but
directories on the way to the target changes outside of it. -/
theorem generateFrom_confined
    (hkeys : ∀ key ∈ keysAt v s.packagePath, ∀ segment ∈ Dump.segmentsOfKey key, segment.toList.head? ≠ some '/')
    {r : Except RunError (List Path)} {log : List LogLine}
    (h : (outcome (generateFrom s) : StateM Volume _) v = ((r, log), v')) : Confined v s.target v' ∧
      ∀ root documents, Yields (loadPackage s.packagePath) v (.ok root) v →
        Yields (makeDocuments s root) v (.ok documents) v → ∀ path ∈ documents.map (·.1),
          ∃ rest, Path.LeadsOn s.target (s.target.joinAll path) rest := by
  have hpaths : ∀ root documents, Yields (loadPackage s.packagePath) v (.ok root) v →
      Yields (makeDocuments s root) v (.ok documents) v → ∀ path ∈ documents.map (·.1),
        ∃ rest, Path.LeadsOn s.target (s.target.joinAll path) rest := by
    intro root documents hroot hmade path hm
    obtain ⟨directory, file, hpath⟩ := (exists_spelled_of_made hroot hmade).2 path hm
    exact ⟨_, hpath.leadsOn hkeys s.target⟩
  refine ⟨?_, hpaths⟩
  obtain ⟨loaded, hload, -⟩ := exists_loaded v s.packagePath
  cases loaded with
  | error e =>
    obtain ⟨-, rfl⟩ := Yields.of_outcome h hload.bind_error
    exact .refl v s.target
  | ok root =>
    obtain ⟨r', v1, hrun, hgenerated⟩ := exists_generated s root v
    obtain ⟨-, rfl⟩ := Yields.of_outcome h (hload.bind hrun)
    exact hgenerated.confined fun documents hmade d hd =>
      hpaths root documents hload hmade d.1 (List.mem_map_of_mem hd)

/-! ### Small disks -/

/-- A disk with a dump that has one definition, and other files, in the working directory. -/
def diskWith (key : String) (others : List (String × Files.Entry)) : Volume where
  root := .directory [("work", .directory (("swagger.json", .file (Text.Utf8.encode
    ("\x7b\"definitions\": \x7b\"" ++ key ++ "\": \x7b\"x-kcl-type\": \x7b\"type\": \"A\"\x7d\x7d\x7d\x7d"))) ::
      others))]
  work := ["work"]

/-- A disk with a dump in YAML in the working directory. -/
def yamlDisk (text : String) : Volume where
  root := .directory [("work", .directory [("swagger.yaml", .file (Text.Utf8.encode text))])]
  work := ["work"]

theorem kindOf?_defaultFile (text : String) :
    (yamlDisk text).kindOf? (.ofText Configuration.defaultFile) = .ok none := by rfl

def earlierOutput : Files.Entry :=
  .directory [(markerName, .file (Text.Utf8.encode markerText)), ("old.md", .file [])]

/-- A disk with a dump and the output of an earlier run. -/
def earlierDisk : Volume := diskWith "api.A" [("out", earlierOutput)]

def settingsFor (target : String) : Settings where
  packagePath := .ofText "swagger.json"
  target := .ofText target

/-- A run over an earlier output keeps to its target. -/
theorem confined_earlierDisk : ∃ r log v',
    (outcome (generateFrom (settingsFor "out")) : StateM Volume _) earlierDisk = ((r, log), v') ∧ r.isOk = true ∧
      Confined earlierDisk (.ofText "out") v' := by
  rcases h : (outcome (generateFrom (settingsFor "out")) : StateM Volume _) earlierDisk with ⟨⟨r, log⟩, v'⟩
  have hok : ((outcome (generateFrom (settingsFor "out")) : StateM Volume _) earlierDisk).1.1.isOk = true := by
    decide +kernel
  rw [h] at hok
  exact ⟨r, log, v', rfl, hok, (generateFrom_confined (by decide +kernel) h).1⟩

/-- A disk with a dump in whose key the segment of a package begins with a slash. -/
def slashDisk : Volume := diskWith "/elsewhere.A" []

/-- A segment of a key that begins with a slash leads out of the target. -/
theorem not_confined_of_slash : ∃ r log v',
    (outcome (generateFrom (settingsFor "out")) : StateM Volume _) slashDisk = ((r, log), v') ∧
      r.isOk = true ∧ ¬ Confined slashDisk (.ofText "out") v' := by
  rcases h : (outcome (generateFrom (settingsFor "out")) : StateM Volume _) slashDisk
    with ⟨⟨r, log⟩, v'⟩
  have hok : ((outcome (generateFrom (settingsFor "out")) : StateM Volume _) slashDisk).1.1.isOk = true :=
    by decide +kernel
  have hfile : ((outcome (generateFrom (settingsFor "out")) : StateM Volume _) slashDisk).2.kindAt?
      ["elsewhere", "doc_A.md"] = some .file := by decide +kernel
  rw [h] at hok hfile
  refine ⟨r, log, v', rfl, hok, fun hconfined => ?_⟩
  have hplace : slashDisk.placeOf (.ofText "out") = ["work", "out"] := by decide +kernel
  have hout : ¬ StrictlyBelow (slashDisk.placeOf (.ofText "out")) ["elsewhere", "doc_A.md"] := by
    rw [hplace]
    rintro ⟨name, rest, heq⟩
    simp at heq
  have hbefore : slashDisk.nodeAt? ["elsewhere", "doc_A.md"] = none := by decide +kernel
  rcases hconfined.elsewhere _ hout with hsame | ⟨-, hmade, -⟩
  · rw [Volume.kindAt?, hsame, hbefore] at hfile
    cases hfile
  · rw [Volume.kindAt?, hmade] at hfile
    cases hfile

end Run

end SchemaDocs
