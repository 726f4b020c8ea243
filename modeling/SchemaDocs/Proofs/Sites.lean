import SchemaDocs.Proofs.Confinement
import SchemaDocs.Proofs.Reloading
import SchemaDocs.Proofs.Ways

/-!
# The tree of a successful run

After a run that succeeds, the tree below the target is made of the marking file, the planned documents and the
directories that they are in (`Site`), whatever was there before; and the same run from there ends with the same files
(`Completed.again`). Both rest on where the first run comes from: the target has been emptied, so what is below it
afterwards is what this run has put there; and emptying the target once more leads back to the files from which the
documents were written (`Completed.emptied_again`).

The target has to find what stands at its place, which it does when every step up in it leaves a directory that is
there. Otherwise a directory with other files is neither refused nor emptied.
-/

namespace SchemaDocs.Run

open Files (Path Fault Disk Volume Location StrictlyBelow)
open Files.Volume (OnWay Changes KeptAt UpsInside)

variable {v v0 v1 v2 v' u : Volume} {s : Settings} {t : Path} {root : Package} {documents : Documents} {loc : Location}
  {paths : List Path}

/-! ## Documents that have been written -/

theorem Written.paths_eq (h : Written t documents v (.ok paths) v') : paths = documents.map fun d => t.joinAll d.1 := by
  generalize hr : (.ok paths : Except RunError (List Path)) = r at h
  induction h generalizing paths with
  | nil => rw [Except.ok.inj hr, List.map_nil]
  | failed => cases hr
  | @cons _ _ _ _ _ _ _ result ensures writes tail ih => cases result with
    | error e => cases hr
    | ok rest => rw [Except.ok.inj hr, ih rfl, List.map_cons]

/-- A document that has been written is there at the end, since no other one is written over it. -/
theorem Written.nodeAt?_document (h : Written t documents v (.ok paths) v') (hwork : v.work = u.work)
    (hplaces : (documents.map fun d => u.placeOf (t.joinAll d.1)).Nodup) {d : List String × String}
    (hd : d ∈ documents) : v'.nodeAt? (u.placeOf (t.joinAll d.1)) = some (.file (Text.Utf8.encode d.2)) := by
  generalize hr : (.ok paths : Except RunError (List Path)) = r at h
  induction h generalizing paths with
  | nil => cases hd
  | failed => cases hr
  | @cons v v1 v2 v' segments text rest result ensures writes tail ih =>
    have hwork1 : v1.work = u.work := ensures.changes.grows.work.trans hwork
    have hwork2 : v2.work = u.work := writes.change.grows.work.trans hwork1
    rw [List.map_cons, List.nodup_cons] at hplaces
    rcases List.mem_cons.1 hd with rfl | hd
    · have hwritten := writes.nodeAt? (u.placeOf (t.joinAll segments))
      rw [Volume.placeOf_congr hwork1, if_pos rfl] at hwritten
      have hother : ¬ IsDocumentPlace u t rest (u.placeOf (t.joinAll segments)) := fun ⟨d, hd, heq⟩ =>
        hplaces.1 (List.mem_map.2 ⟨d, hd, heq.symm⟩)
      rcases (tail.changes hwork2).nodeAt? hother with hsame | ⟨hnone, -⟩
      · rw [hsame, hwritten]
      · rw [hnone] at hwritten
        cases hwritten
    · cases result with
      | error e => cases hr
      | ok rest => exact ih hwork2 hplaces.2 hd rfl

/-- The path of a document that has been written is not too long. -/
theorem Written.short (h : Written t documents v (.ok paths) v') {d : List String × String} (hd : d ∈ documents) :
    Path.byteLength (t.joinAll d.1).text < Volume.longestPath := by
  generalize hr : (.ok paths : Except RunError (List Path)) = r at h
  induction h generalizing paths with
  | nil => cases hd
  | failed => cases hr
  | @cons _ _ _ _ _ _ _ result ensures writes tail ih =>
    rcases List.mem_cons.1 hd with rfl | hd
    · obtain ⟨_, _, hleads⟩ := writes.leads
      exact hleads.short
    · cases result with
      | error e => cases hr
      | ok rest => exact ih hd rfl

/-! ## Documentation trees -/

def siteFiles (documents : Documents) : Documents := ([markerName], markerText) :: documents

/-- The tree below the target consists of exactly the files of the documentation and the directories that they are in,
but for directories that the path of the target itself passes. -/
structure Site (v : Volume) (t : Path) (documents : Documents) (v' : Volume) : Prop where
  file : ∀ d ∈ siteFiles documents, v'.nodeAt? (v.placeOf t ++ d.1) = some (.file (Text.Utf8.encode d.2))
  directory : ∀ d ∈ siteFiles documents, ∀ front, front <+: d.1 → front ≠ d.1 →
    v'.nodeAt? (v.placeOf t ++ front) = some .directory
  nothing_else : ∀ rest, (v'.nodeAt? (v.placeOf t ++ rest)).isSome = true →
    (∃ d ∈ siteFiles documents, rest <+: d.1) ∨
      v'.nodeAt? (v.placeOf t ++ rest) = some .directory ∧ Passes v t (v.placeOf t ++ rest)

/-! ## Successful runs -/

/-- A run that has succeeded, with the files after each of its steps: the target has been emptied (`v0`), made (`v1`)
and marked (`v2`), and the documents have been written. -/
structure Completed (s : Settings) (root : Package) (documents : Documents) (paths : List Path)
    (v v0 v1 v2 v' : Volume) : Prop where
  load : Yields (loadPackage s.packagePath) v (.ok root) v
  make : Yields (makeDocuments s root) v (.ok documents) v
  emptied : Emptied v s.target v0
  made : (Disk.makeDirectories s.target : StateM Volume _) v0 = (.ok (), v1)
  marked : v1.Writes (marker s.target) (Text.Utf8.encode markerText) v2
  write : Yields (writeDocuments s.target documents) v2 (.ok paths) v'
  written : Written s.target documents v2 (.ok paths) v'

theorem exists_completed {log : List LogLine}
    (h : (outcome (generateFrom s) : StateM Volume _) v = ((.ok paths, log), v')) :
    ∃ root documents v0 v1 v2, Completed s root documents paths v v0 v1 v2 v' := by
  obtain ⟨loaded, hload, -⟩ := exists_loaded v s.packagePath
  cases loaded with
  | error e => cases (Yields.of_outcome h hload.bind_error).1
  | ok root =>
    obtain ⟨r, w, hrun, hgenerated⟩ := exists_generated s root v
    obtain ⟨rfl, rfl⟩ := Yields.of_outcome h (hload.bind hrun)
    cases hgenerated with
    | @written documents v2 _ _ made prepared run written => cases prepared with
      | @ready v0 v1 _ emptied hmade marked =>
        exact ⟨root, documents, v0, v1, v2, hload, made, emptied, hmade, marked, run, written⟩

/-! ### Emptying the target -/

theorem length_lt_of_strictlyBelow {place : Location} (h : StrictlyBelow place loc) : place.length < loc.length := by
  obtain ⟨name, rest, rfl⟩ := h
  simp

/-- A path without steps up passes nothing that is below its place. -/
theorem not_passes_of_not_mem (h : ".." ∉ t.segments) (loc : Location) : ¬ Passes v t loc := by
  rintro ⟨⟨front, hfront, rfl⟩, hbelow⟩
  have hlength := length_lt_of_strictlyBelow hbelow
  rw [Volume.placeOf_eq, Files.walk_of_names _ h, Files.walk_of_names _ fun hup => h (hfront.subset hup),
    List.length_append, List.length_append] at hlength
  have := hfront.length_le
  omega

/-- Nothing that the path of the target passes is below the target. -/
theorem isAt_dropAt (h : v.IsAt .directory t) (hpasses : ∀ loc, ¬ Passes v t loc)
    (entries : List (String × Files.Entry)) (name : String) :
    (v.dropAt (v.placeOf t) entries name).IsAt .directory t := by
  refine h.of_keepsWay rfl fun front hfront _ hkind => ?_
  have hnot : ¬ StrictlyBelow (v.placeOf t) (Files.walk (v.start t) front) := fun hbelow =>
    hpasses _ ⟨⟨front, hfront, rfl⟩, hbelow⟩
  rwa [Volume.kindAt?, Volume.dropAt, Volume.nodeAt?_refilled h.kindAt _ hnot]

/-- Everything in a directory can be removed by its name, if the path of the directory does not lead through it and the
paths of what is in it are not too long. -/
theorem exists_discarded_ok (wrap : Fault → RunError) : ∀ {names : List String} {v : Volume}
    {entries : List (String × Files.Entry)}, v.IsAt .directory t → (∀ loc, ¬ Passes v t loc) →
    v.root.at? (v.placeOf t) = some (.directory entries) → names.Nodup →
    (∀ name ∈ names, name ∈ entries.map (·.1) ∧ Path.byteLength (t.child name).text < Volume.longestPath) →
    ∃ w, Yields (discard wrap t names) v (.ok ()) w
  | [], v, _, _, _, _, _, _ => ⟨v, Yields.pure () v⟩
  | name :: names, v, entries, h, hpasses, he, hnodup, hnames => by
    obtain ⟨hname, hshort⟩ := hnames name List.mem_cons_self
    obtain ⟨hnew, hnodup⟩ := List.nodup_cons.1 hnodup
    have hat := Files.Entry.at?_put (.directory (entries.filter fun e => e.1 ≠ name)) h.puttable []
    rw [List.append_nil, Files.Entry.at?_nil] at hat
    obtain ⟨w, hw⟩ := exists_discarded_ok wrap (isAt_dropAt h hpasses entries name) hpasses hat hnodup fun n hn => by
      obtain ⟨hm, hshort⟩ := hnames n (List.mem_cons_of_mem _ hn)
      obtain ⟨e, he, rfl⟩ := List.mem_map.1 hm
      refine ⟨List.mem_map_of_mem (List.mem_filter.2 ⟨he, ?_⟩), hshort⟩
      simpa using fun heq : e.1 = name => hnew (heq ▸ hn)
    exact ⟨w, (Yields.onDisk (Volume.discard_of_isAt h he hname hshort)).bind hw⟩

/-- A marked directory can be emptied, if its path does not lead through it and the paths of what is in it are not too
long. -/
theorem exists_emptied_ok (h : v.IsAt .directory t) (hmarked : v.IsAt .file (marker t))
    (hpasses : ∀ loc, ¬ Passes v t loc) (hshort : ∀ name, (v.nodeAt? (v.placeOf t ++ [name])).isSome = true →
      Path.byteLength (t.child name).text < Volume.longestPath) : ∃ w, Yields (emptyTarget t) v (.ok ()) w := by
  obtain ⟨entries, he⟩ := Volume.exists_entries h.kindAt
  have hnames : Yields (onDisk (cannotPrepare t) (Disk.names t)) v (.ok (Assoc.distinct (entries.map (·.1)))) v :=
    Yields.onDisk (Volume.names_of_isAt h he)
  cases entries with
  | nil => exact ⟨v, hnames.bind (Yields.pure () v)⟩
  | cons entry entries =>
    have hlook : Yields (onDisk (cannotPrepare t) (Disk.kind? (marker t))) v (.ok (some .file)) v :=
      Yields.onDisk (by rw [Volume.kind?_eq, Volume.kindOf?_eq_some.2 hmarked])
    obtain ⟨w, hw⟩ := exists_discarded_ok (cannotPrepare t) h hpasses he
      (Assoc.nodup_distinct ((entry :: entries).map (·.1))) fun name hname => by
        rw [Assoc.mem_distinct] at hname
        refine ⟨hname, hshort name ?_⟩
        obtain ⟨e, hget⟩ := Option.isSome_iff_exists.1 (Assoc.get?_isSome_iff.2 hname)
        rw [Volume.nodeAt?, Files.Entry.nodeAt?, Files.Entry.at?_append, he, Option.bind_some, Files.Entry.at?_cons]
        simp [hget]
    exact ⟨w, hnames.bind (hlook.bind ((Yields.log _ v).bind (hnames.bind hw)))⟩

namespace Completed

section Steps

variable (h : Completed s root documents paths v v0 v1 v2 v')

include h

theorem prepared : Prepared v s.target (.ok ()) v2 := .ready h.emptied h.made h.marked

theorem work1 : v1.work = v.work :=
  (Volume.ensures_makeDirectories h.made).changes.grows.work.trans h.emptied.work

theorem work2 : v2.work = v.work := h.marked.change.grows.work.trans h.work1

theorem work : v'.work = v.work := (h.written.changes h.work2).grows.work.trans h.work2

theorem isAt_target1 : v1.IsAt .directory s.target := (Volume.ensures_makeDirectories h.made).made rfl

theorem noZero : s.target.hasZero = false := h.isAt_target1.noZero

/-- Making the target makes directories on the way to it. -/
theorem nodeAt?_made (loc : Location) : v1.nodeAt? loc = v0.nodeAt? loc ∨
    v0.nodeAt? loc = none ∧ v1.nodeAt? loc = some .directory ∧ v.OnWay s.target loc :=
  ((Volume.ensures_makeDirectories h.made).nodeAt? loc).imp id fun ⟨hnone, hmade, hway⟩ =>
    ⟨hnone, hmade, Volume.onWay_congr h.emptied.work hway⟩

/-- From the making of the target on, directories stay directories and files stay files. -/
theorem grows1 : Volume.Grows v1 v' := h.marked.change.grows.trans (h.written.changes h.work2).grows

theorem follows : v'.follows = v.follows :=
  h.grows1.follows.trans <|
    (Volume.ensures_makeDirectories h.made).changes.grows.follows.trans h.emptied.stripped.follows

theorem isAt_marker : v'.IsAt .file (marker s.target) := (h.written.changes h.work2).grows.isAt h.marked.isAt

theorem isAt_target : v'.IsAt .directory s.target := h.grows1.isAt h.isAt_target1

end Steps

/-! ## What is below the target -/

section Site

variable (h : Completed s root documents paths v v0 v1 v2 v') (hups : UpsInside v (v.start s.target) s.target.segments)
  (hleads : ∀ d ∈ documents, Path.LeadsOn s.target (s.target.joinAll d.1) d.1)

include h hups

/-- When nothing is found at the target, nothing stands at its place. -/
theorem kindAt?_eq_none (hnone : v.kindOf? s.target = .ok none) : v.kindAt? (v.placeOf s.target) = none :=
  hups.kindAt?_eq_none h.noZero hnone

/-- Nothing is below the target when it has been emptied. -/
theorem nodeAt?_emptied (hloc : StrictlyBelow (v.placeOf s.target) loc) : v0.nodeAt? loc = none := by
  have hnone := h.kindAt?_eq_none hups
  cases h.emptied with
  | absent nothing =>
    obtain ⟨name, rest, rfl⟩ := hloc
    rw [← Option.not_isSome_iff_eq_none, ← Option.isSome_map (f := Files.Node.kind)]
    intro hsome
    have hdirectory : v.kindAt? (v.placeOf s.target) = some .directory := Volume.kindAt?_above hsome
    rw [hnone nothing] at hdirectory
    cases hdirectory
  | cleared there => exact Volume.nodeAt?_cleared_below there.puttable hloc

/-- Nothing but the marking file is below the target before the documents are written. -/
theorem nodeAt?_marked (hloc : StrictlyBelow (v.placeOf s.target) loc) (hsome : (v2.nodeAt? loc).isSome = true) :
    loc = v.placeOf s.target ++ [markerName] ∨ v2.nodeAt? loc = some .directory ∧ v.OnWay s.target loc := by
  have hempty := h.nodeAt?_emptied hups hloc
  have hmade := h.nodeAt?_made loc
  have hmarked := h.marked.nodeAt? loc
  rw [placeOf_marker, Volume.placeOf_congr h.work1] at hmarked
  by_cases hat : loc = v.placeOf s.target ++ [markerName]
  · exact .inl hat
  · rw [if_neg hat] at hmarked
    rw [hmarked] at hsome ⊢
    rcases hmade with hsame | ⟨-, hdirectory, hway⟩
    · rw [hsame, hempty] at hsome
      cases hsome
    · exact .inr ⟨hdirectory, hway⟩

omit h hups in
include hleads in
theorem isDocumentPlace_iff : IsDocumentPlace v s.target documents loc ↔
    ∃ d ∈ documents, loc = v.placeOf s.target ++ d.1 := by
  constructor <;> rintro ⟨d, hd, heq⟩ <;> exact ⟨d, hd, by rw [heq, (hleads d hd).placeOf_eq v]⟩

include hleads

/-- **The tree below the target of a successful run is that of the documentation.** -/
theorem site (hnodup : (documents.map (·.1)).Nodup) (hmarker : [markerName] ∉ documents.map (·.1)) :
    Site v s.target documents v' := by
  have hchanges := h.written.changes h.work2
  have hfile : ∀ d ∈ siteFiles documents,
      v'.nodeAt? (v.placeOf s.target ++ d.1) = some (.file (Text.Utf8.encode d.2)) := by
    intro d hd
    rcases List.mem_cons.1 hd with rfl | hd
    · have hother : ¬ IsDocumentPlace v s.target documents (v.placeOf s.target ++ [markerName]) := by
        rw [isDocumentPlace_iff hleads]
        rintro ⟨d, hd, heq⟩
        exact hmarker (List.mem_map.2 ⟨d, hd, (List.append_cancel_left heq).symm⟩)
      have hmarked := h.marked.nodeAt? (v.placeOf s.target ++ [markerName])
      rw [placeOf_marker, Volume.placeOf_congr h.work1, if_pos rfl] at hmarked
      rcases hchanges.nodeAt? hother with hsame | ⟨hnone, -⟩
      · rw [hsame, hmarked]
      · rw [hnone] at hmarked
        cases hmarked
    · rw [← (hleads d hd).placeOf_eq v]
      refine h.written.nodeAt?_document h.work2 ?_ hd
      rw [List.map_congr_left fun d hd => (hleads d hd).placeOf_eq v]
      rw [List.Nodup, List.pairwise_map] at hnodup ⊢
      exact hnodup.imp fun hne heq => hne (List.append_cancel_left heq)
  refine ⟨hfile, ?_, fun rest hsome => ?_⟩
  · -- only directories have places below them
    rintro d hd front ⟨back, heq⟩ hne
    have hback : back ≠ [] := fun hnil => hne (by rw [← heq, hnil, List.append_nil])
    obtain ⟨name, rest, rfl⟩ := List.exists_cons_of_ne_nil hback
    have hsome : (v'.root.nodeAt? (v.placeOf s.target ++ front ++ name :: rest)).isSome = true := by
      rw [List.append_assoc, heq, show v'.root.nodeAt? _ = _ from hfile d hd, Option.isSome_some]
    exact Files.Entry.nodeAt?_eq_directory hsome
  · by_cases hnil : rest = []
    · exact .inl ⟨_, List.mem_cons_self, by rw [hnil]; exact List.nil_prefix⟩
    · have hbelow : StrictlyBelow (v.placeOf s.target) (v.placeOf s.target ++ rest) := Files.strictlyBelow_append hnil
      by_cases hplace : IsDocumentPlace v s.target documents (v.placeOf s.target ++ rest)
      · obtain ⟨d, hd, heq⟩ := (isDocumentPlace_iff hleads).1 hplace
        exact .inl ⟨d, List.mem_cons_of_mem _ hd, List.append_cancel_left heq ▸ List.prefix_refl _⟩
      · rcases hchanges.nodeAt? hplace with hsame | ⟨-, hdirectory, d, hd, hway⟩
        · rw [hsame] at hsome ⊢
          rcases h.nodeAt?_marked hups hbelow hsome with heq | ⟨hdirectory, hway⟩
          · exact .inl ⟨_, List.mem_cons_self, List.append_cancel_left heq ▸ List.prefix_refl _⟩
          · exact .inr ⟨hdirectory, hway, hbelow⟩
        · rcases (hleads d hd).onWay hway with hway | ⟨front, -, hfront, heq⟩
          · exact .inr ⟨hdirectory, hway, hbelow⟩
          · exact .inl ⟨d, List.mem_cons_of_mem _ hd, by rwa [List.append_cancel_left heq]⟩

omit hups in
/-- The paths of what is below the target are not too long. -/
theorem short_child (hsite : Site v s.target documents v') (hpasses : ∀ loc, ¬ Passes v s.target loc) {name : String}
    (hname : (v'.nodeAt? (v.placeOf s.target ++ [name])).isSome = true) :
    Path.byteLength (s.target.child name).text < Volume.longestPath := by
  have hfront {p : Path} {rest : List String} (hp : p = { s.target with segments := s.target.segments ++ rest })
      (hfirst : [name] <+: rest) (hshort : Path.byteLength p.text < Volume.longestPath) :
      Path.byteLength (s.target.child name).text < Volume.longestPath := by
    obtain ⟨back, rfl⟩ := hfirst
    exact Nat.lt_of_le_of_lt (hp ▸ Path.byteLength_text_append s.target name back) hshort
  rcases hsite.nothing_else [name] hname with ⟨d, hd, hfirst⟩ | ⟨-, hpass⟩
  · rcases List.mem_cons.1 hd with rfl | hd
    · obtain ⟨_, _, hmarked⟩ := h.marked.leads
      exact hfront (marker_eq s.target) hfirst hmarked.short
    · exact hfront (hleads d hd).1 hfirst (h.written.short hd)
  · exact absurd hpass (hpasses _)

end Site

/-! ## The same run again -/

section Again

variable (h : Completed s root documents paths v v0 v1 v2 v') (hups : UpsInside v (v.start s.target) s.target.segments)
  (hpaths : ∀ d ∈ documents, ∃ rest, Path.LeadsOn s.target (s.target.joinAll d.1) rest)

include h hpaths

/-- From the making of the target on, changes are below the target. -/
theorem changes1 : Changes (fun loc => v.OnWay s.target loc ∨ StrictlyBelow (v.placeOf s.target) loc)
    (StrictlyBelow (v.placeOf s.target)) v1 v' := by
  refine .head (h.marked.change.mono (fun _ => False.elim) ?_) (h.written.confined_changes h.work2 hpaths)
  rintro _ rfl
  rw [Volume.placeOf_congr h.work1]
  exact (leadsOn_marker s.target).strictlyBelow v

/-- What a directory on the way to the target has to be when it is made. -/
theorem changes0 : Changes (fun loc => v.OnWay s.target loc ∨ StrictlyBelow (v.placeOf s.target) loc)
    (StrictlyBelow (v.placeOf s.target)) v0 v' :=
  ((Volume.ensures_makeDirectories h.made).changes.mono
    (fun _ hway => .inl (Volume.onWay_congr h.emptied.work hway)) fun _ => False.elim).trans (h.changes1 hpaths)

include hups

omit hpaths in
/-- A target that the run has made holds nothing before it is marked. -/
theorem at?_target1 (nothing : v.kindOf? s.target = .ok none) :
    v1.root.at? (v.placeOf s.target) = some (.directory []) := by
  obtain ⟨entries, he⟩ := Volume.exists_entries h.isAt_target1.kindAt
  rw [Volume.placeOf_congr h.work1 s.target] at he
  cases entries with
  | nil => exact he
  | cons entry entries =>
    exfalso
    have hsome : v1.nodeAt? (v.placeOf s.target ++ [entry.1]) = some entry.2.node := by
      refine Volume.nodeAt?_of_at? ?_
      rw [Files.Entry.at?_append, he, Option.bind_some, Files.Entry.at?_cons]
      simp [Assoc.get?]
    have hbelow : StrictlyBelow (v.placeOf s.target) (v.placeOf s.target ++ [entry.1]) := ⟨entry.1, [], rfl⟩
    rcases h.nodeAt?_made (v.placeOf s.target ++ [entry.1]) with hsame | ⟨-, -, hway⟩
    · rw [h.nodeAt?_emptied hups hbelow, hsome] at hsame
      cases hsame
    · exact hups.not_strictlyBelow (h.kindAt?_eq_none hups nothing) hway hbelow

/-- If the run has made the target, emptying it leads back to where it was made. -/
theorem putAt_eq_of_absent (nothing : v.kindOf? s.target = .ok none) :
    v'.putAt (v.placeOf s.target) (.directory []) = v1 := by
  have hplace : v1.placeOf s.target = v.placeOf s.target := Volume.placeOf_congr h.work1 s.target
  rw [(h.changes1 hpaths).putAt_eq (hplace ▸ h.isAt_target1.puttable) ?_ fun _ => StrictlyBelow.isPrefix, Volume.putAt,
    Files.Entry.put_of_at? (h.at?_target1 hups nothing)]
  rintro loc (hway | hbelow) hloc
  · have hsome := h.isAt_target1.isSome_of_onWay (Volume.onWay_congr h.work1.symm hway)
    rw [hloc] at hsome
    cases hsome
  · exact hbelow.isPrefix

omit hups in
/-- If the target was there before the run, emptying it again leads back to where it was emptied. -/
theorem putAt_eq_of_cleared (there : v.IsAt .directory s.target)
    (hcleared : v0 = v.putAt (v.placeOf s.target) (.directory [])) :
    v'.putAt (v.placeOf s.target) (.directory []) = v0 := by
  have hnode : ∀ loc, ¬ StrictlyBelow (v.placeOf s.target) loc → v0.nodeAt? loc = v.nodeAt? loc := fun loc hloc =>
    hcleared ▸ Volume.nodeAt?_refilled there.kindAt [] hloc
  have hputtable : Files.Entry.Puttable (v.placeOf s.target) v0.root := by
    refine Files.Entry.puttable_of_nodeAt? ?_
    have hplace := hnode (v.placeOf s.target) (Files.not_strictlyBelow_self _)
    rw [show Files.Entry.nodeAt? _ _ = _ from hplace, Volume.kindAt?_eq_directory.1 there.kindAt, Option.isSome_some]
  rw [(h.changes0 hpaths).putAt_eq hputtable ?_ fun _ => StrictlyBelow.isPrefix]
  · have hput := Volume.putAt_putAt there.puttable [] (.directory []) (.directory [])
    rwa [List.append_nil, ← hcleared] at hput
  · rintro loc (hway | hbelow) hloc
    · refine Classical.byContradiction fun hnot => ?_
      have hsome := there.isSome_of_onWay hway
      rw [Volume.kindAt?, hnode loc fun hbelow => hnot hbelow.isPrefix] at hloc
      rw [Volume.kindAt?, hloc] at hsome
      cases hsome
    · exact hbelow.isPrefix

/-- **Emptying the target again leads back**: from there, the target is made as it was before it was marked. -/
theorem emptied_again : (Disk.makeDirectories s.target : StateM Volume _)
    (v'.putAt (v.placeOf s.target) (.directory [])) = (.ok (), v1) := by
  have hmade := h.made
  cases h.emptied with
  | absent nothing =>
    rw [h.putAt_eq_of_absent hups hpaths nothing]
    rcases hagain : (Disk.makeDirectories s.target : StateM Volume _) v1 with ⟨r, w⟩
    obtain ⟨rfl, rfl⟩ := (Volume.ensures_makeDirectories hagain).kept h.isAt_target1
    rfl
  | cleared there => rw [h.putAt_eq_of_cleared hpaths there rfl, hmade]

/-- **The same run again** succeeds and leaves the files as they are, if its package is loaded again and the target can
be emptied name by name. -/
theorem again (hload : Stays (loadPackage s.packagePath) v v') (hpasses : ∀ loc, ¬ Passes v s.target loc)
    (hshort : ∀ name, (v'.nodeAt? (v.placeOf s.target ++ [name])).isSome = true →
      Path.byteLength (s.target.child name).text < Volume.longestPath) : Yields (generateFrom s) v' (.ok paths) v' := by
  have hmake : Yields (makeDocuments s root) v' (.ok documents) v' := by
    obtain ⟨r, hr, -, -⟩ := exists_madeDocuments Volume s root
    cases ((hr v).unique h.make).1
    exact hr v'
  have hprepare : Yields (prepareTarget s.target) v' (.ok ()) v2 := by
    have hlook : Yields (kind? s.target) v' (.ok (some .directory)) v' :=
      yields_kind? (Volume.kindOf?_eq_some.2 h.isAt_target)
    have hplace : v'.placeOf s.target = v.placeOf s.target := Volume.placeOf_congr h.work s.target
    obtain ⟨_, hemptied⟩ := exists_emptied_ok h.isAt_target h.isAt_marker
      (fun loc ⟨hway, hbelow⟩ => hpasses loc ⟨Volume.onWay_congr h.work hway, hplace ▸ hbelow⟩) fun name hname =>
        hshort name (hplace ▸ hname)
    obtain ⟨r, w, hempty, ⟨rfl, hemptied⟩ | ⟨e, -, -, hunmarked⟩ | ⟨e, rfl, -⟩⟩ := exists_emptied h.isAt_target
    · cases hemptied with
      | absent nothing =>
        rw [Volume.kindOf?_eq_some.2 h.isAt_target] at nothing
        cases nothing
      | cleared =>
        rw [Volume.placeOf_congr h.work] at hempty
        exact hlook.bind (hempty.bind ((Yields.onDisk (h.emptied_again hups hpaths)).bind
          (Yields.onDisk h.marked.write_eq)))
    · exact absurd h.isAt_marker hunmarked
    · cases (hempty.unique hemptied).1
  exact (hload root h.load).bind (hmake.bind (hprepare.bind (h.write.bind ((Yields.log _ v').bind
    (Yields.pure paths v')))))

end Again

end Completed

/-! ## Runs on any files -/

/-- The way to a package does not lead through the target, and the package is not the target itself. -/
structure LiesOutside (v : Volume) (t p : Path) : Prop where
  onWay : ∀ loc, v.OnWay p loc → ¬ StrictlyBelow (v.placeOf t) loc
  ne : v.placeOf p ≠ v.placeOf t

/-- What lies outside of the target is kept. -/
theorem LiesOutside.keepsDump {p : Path} (h : LiesOutside v t p) (hconfined : Confined v t v')
    (hfollows : v'.follows = v.follows) : KeepsDump v v' p where
  work := hconfined.work
  follows := hfollows
  onWay loc hloc := (hconfined.elsewhere loc (h.onWay loc hloc)).imp id fun ⟨hnone, hmade, _⟩ => ⟨hnone, hmade⟩
  inside name _ := by
    refine (hconfined.elsewhere _ ?_).imp id fun ⟨hnone, hmade, _⟩ => ⟨hnone, hmade⟩
    rintro ⟨first, rest, heq⟩
    rcases List.eq_nil_or_concat rest with rfl | ⟨front, last, rfl⟩
    · exact h.ne (List.append_inj' heq rfl).1
    · rw [List.concat_eq_append, ← List.cons_append, ← List.append_assoc] at heq
      exact h.onWay _ (v.onWay_placeOf p) ⟨first, front, (List.append_inj' heq rfl).1⟩

/-- **What a successful run makes of the files.** Whatever was at the target before, afterwards it holds the planned
documents, in the paths that are given, and the marking file, and nothing else; outside of it nothing has changed but
new directories on the way to it; and the same run again succeeds and leaves the files as they are, unless the path of
the target passes what is below it and leads nowhere when that has been removed. -/
theorem generateFrom_site (hkeys : ∀ key ∈ keysAt v s.packagePath, '/' ∉ key.toList)
    (houtside : LiesOutside v s.target s.packagePath) (hups : UpsInside v (v.start s.target) s.target.segments)
    {log : List LogLine} (h : (outcome (generateFrom s) : StateM Volume _) v = ((.ok paths, log), v')) :
    (∃ root documents, Yields (loadPackage s.packagePath) v (.ok root) v ∧
        Yields (makeDocuments s root) v (.ok documents) v ∧
        paths = documents.map (fun d => s.target.joinAll d.1) ∧ Site v s.target documents v') ∧
      Confined v s.target v' ∧
      ((∀ loc, ¬ Passes v s.target loc) →
        ∃ log', (outcome (generateFrom s) : StateM Volume _) v' = ((.ok paths, log'), v')) := by
  obtain ⟨root, documents, v0, v1, v2, hcompleted⟩ := exists_completed h
  obtain ⟨hnodup, hspelled⟩ := exists_spelled_of_made hcompleted.load hcompleted.make
  have hleads : ∀ d ∈ documents, Path.LeadsOn s.target (s.target.joinAll d.1) d.1 := fun d hd => by
    obtain ⟨directory, file, hpath⟩ := hspelled d.1 (List.mem_map_of_mem hd)
    exact hpath.leadsOn_self hkeys s.target
  have hmarker : [markerName] ∉ documents.map (·.1) := fun hm => by
    obtain ⟨directory, file, hpath⟩ := hspelled _ hm
    exact hpath.ne_singleton (by decide) rfl
  have hpaths : ∀ d ∈ documents, ∃ rest, Path.LeadsOn s.target (s.target.joinAll d.1) rest := fun d hd =>
    ⟨d.1, hleads d hd⟩
  have hconfined : Confined v s.target v' :=
    (Generated.written hcompleted.make hcompleted.prepared hcompleted.write hcompleted.written).confined
      fun documents' hmade => by
        cases (hmade.unique hcompleted.make).1
        exact hpaths
  have hsite := hcompleted.site hups hleads hnodup hmarker
  refine ⟨⟨root, documents, hcompleted.load, hcompleted.make, hcompleted.written.paths_eq, hsite⟩, hconfined,
    fun hpasses => ?_⟩
  have hload := (houtside.keepsDump hconfined hcompleted.follows).stays_loadPackage
  exact (hcompleted.again hups hpaths hload hpasses fun name hname =>
    hcompleted.short_child hleads hsite hpasses hname).exists_outcome

/-! ### Small disks -/

theorem liesOutside_earlierDisk : LiesOutside earlierDisk (.ofText "out") (.ofText "swagger.json") where
  onWay := by
    rintro _ ⟨front, hfront, rfl⟩ hbelow
    have hlength := length_lt_of_strictlyBelow hbelow
    have hsegments : (Path.ofText "swagger.json").segments = ["swagger.json"] := by decide +kernel
    rw [hsegments, List.prefix_cons_iff] at hfront
    rcases hfront with rfl | ⟨rest, rfl, hrest⟩
    · revert hlength
      decide +kernel
    · rw [List.prefix_nil.1 hrest] at hlength
      revert hlength
      decide +kernel
  ne := by decide +kernel

/-- A run over an earlier output replaces it, and can be done again. -/
theorem site_earlierDisk : ∃ paths log v',
    (outcome (generateFrom (settingsFor "out")) : StateM Volume _) earlierDisk = ((.ok paths, log), v') ∧
      (∃ documents, paths = documents.map (fun d => Path.joinAll (.ofText "out") d.1) ∧
        Site earlierDisk (.ofText "out") documents v') ∧
      ∃ log', (outcome (generateFrom (settingsFor "out")) : StateM Volume _) v' = ((.ok paths, log'), v') := by
  rcases h : (outcome (generateFrom (settingsFor "out")) : StateM Volume _) earlierDisk with ⟨⟨r, log⟩, v'⟩
  have hok : ((outcome (generateFrom (settingsFor "out")) : StateM Volume _) earlierDisk).1.1.isOk = true := by
    decide +kernel
  rw [h] at hok
  obtain ⟨paths, rfl⟩ := exists_ok_of_isOk hok
  obtain ⟨⟨root, documents, -, -, hpaths, hsite⟩, -, hagain⟩ := generateFrom_site (s := settingsFor "out")
    (by decide +kernel) liesOutside_earlierDisk (Volume.upsInside_of_not_mem (by decide +kernel)) h
  exact ⟨paths, log, v', rfl, ⟨documents, hpaths, hsite⟩, hagain (not_passes_of_not_mem (by decide +kernel))⟩

/-- A disk with an earlier output in which there is a directory, the last thing in it. -/
def passedDisk : Volume := diskWith "api.A"
  [("docs", .directory [(markerName, .file (Text.Utf8.encode markerText)), ("old", .directory [])])]

theorem upsInside_passedDisk :
    UpsInside passedDisk (passedDisk.start (.ofText "docs/old/..")) (Path.ofText "docs/old/..").segments := by
  have hsegments : (Path.ofText "docs/old/..").segments = ["docs", "old", ".."] := by decide +kernel
  intro above habove
  rw [hsegments] at habove
  have h : above = ["docs", "old"] := by
    rcases above with _ | ⟨_, _ | ⟨_, _ | ⟨_, rest⟩⟩⟩ <;> simp_all [List.cons_prefix_cons]
  subst h
  decide +kernel

/-- With a path that passes what is below the target, a run can succeed once and fail again: when `docs/old` is removed,
`docs/old/..` leads nowhere, and what comes after it in `docs` is not found. -/
theorem not_again_of_passes :
    UpsInside passedDisk (passedDisk.start (.ofText "docs/old/..")) (Path.ofText "docs/old/..").segments ∧
      ∃ paths log v',
        (outcome (generateFrom (settingsFor "docs/old/..")) : StateM Volume _) passedDisk = ((.ok paths, log), v') ∧
        ((outcome (generateFrom (settingsFor "docs/old/..")) : StateM Volume _) v').1.1.isOk = false := by
  rcases h : (outcome (generateFrom (settingsFor "docs/old/..")) : StateM Volume _) passedDisk with ⟨⟨r, log⟩, v'⟩
  have hok : ((outcome (generateFrom (settingsFor "docs/old/..")) : StateM Volume _) passedDisk).1.1.isOk = true := by
    decide +kernel
  have hagain : ((outcome (generateFrom (settingsFor "docs/old/..")) : StateM Volume _)
      ((outcome (generateFrom (settingsFor "docs/old/..")) : StateM Volume _) passedDisk).2).1.1.isOk = false := by
    decide +kernel
  rw [h] at hok hagain
  obtain ⟨paths, rfl⟩ := exists_ok_of_isOk hok
  exact ⟨upsInside_passedDisk, paths, log, v', rfl, hagain⟩

/-- A disk with a directory that an earlier run has not made. -/
def foreignDisk : Volume := diskWith "api.A" [("kept", .directory [("old.txt", .file [])])]

/-- A target with a step up out of a directory that is not there leads to a directory with other files, which is neither
refused nor emptied. -/
theorem not_site_of_step_up : ∃ paths log v',
    (outcome (generateFrom (settingsFor "missing/../kept")) : StateM Volume _) foreignDisk = ((.ok paths, log), v') ∧
      ∀ root documents, Yields (loadPackage (.ofText "swagger.json")) foreignDisk (.ok root) foreignDisk →
        Yields (makeDocuments (settingsFor "missing/../kept") root) foreignDisk (.ok documents) foreignDisk →
        ¬ Site foreignDisk (.ofText "missing/../kept") documents v' := by
  rcases h : (outcome (generateFrom (settingsFor "missing/../kept")) : StateM Volume _) foreignDisk with ⟨⟨r, log⟩, v'⟩
  have hok : ((outcome (generateFrom (settingsFor "missing/../kept")) : StateM Volume _) foreignDisk).1.1.isOk =
      true := by decide +kernel
  have hfile : ((outcome (generateFrom (settingsFor "missing/../kept")) : StateM Volume _) foreignDisk).2.nodeAt?
      ["work", "kept", "old.txt"] = some (.file []) := by decide +kernel
  rw [h] at hok hfile
  obtain ⟨paths, rfl⟩ := exists_ok_of_isOk hok
  refine ⟨paths, log, v', rfl, fun root documents hload hmake hsite => ?_⟩
  have hplace : foreignDisk.placeOf (.ofText "missing/../kept") = ["work", "kept"] := by decide +kernel
  have hfile' : v'.nodeAt? (foreignDisk.placeOf (.ofText "missing/../kept") ++ ["old.txt"]) = some (.file []) := by
    rw [hplace]
    exact hfile
  rcases hsite.nothing_else ["old.txt"] (by rw [hfile', Option.isSome_some]) with ⟨d, hd, hfront⟩ | ⟨hdirectory, -⟩
  · have hold : "old.txt" ∈ d.1 := hfront.subset (by simp)
    rcases List.mem_cons.1 hd with rfl | hd
    · revert hold
      decide
    · have hspelled := exists_spelled_of_made (s := settingsFor "missing/../kept") hload hmake
      obtain ⟨directory, file, hpath⟩ := hspelled.2 d.1 (List.mem_map_of_mem hd)
      rw [hpath.eq, List.mem_append, List.mem_singleton] at hold
      rcases hold with hold | rfl
      · exact (hpath.directory _ hold).1.2 (by decide)
      · have := hpath.head_file
        revert this
        decide
  · rw [hfile'] at hdirectory
    cases hdirectory

end SchemaDocs.Run
