import SchemaDocs.Proofs.Loads

/-!
# Loading again

A package that has been loaded is loaded again from other files, if what stands on the way to it and at the candidates
for its dump is still there (`stays_loadPackage`). A directory may have been made where nothing was: it does not hide a
file.
-/

namespace SchemaDocs

namespace Files.Volume

variable {v v' : Volume} {p : Path} {loc : Location} {name : String} {kind : Kind}

/-- What stands at the place is still there; where nothing was, a directory may have been made. -/
def KeptAt (v v' : Volume) (loc : Location) : Prop :=
  v'.nodeAt? loc = v.nodeAt? loc ∨ v.nodeAt? loc = none ∧ v'.nodeAt? loc = some .directory

theorem KeptAt.nodeAt? (h : KeptAt v v' loc) {node : Node} (hnode : v.nodeAt? loc = some node) :
    v'.nodeAt? loc = some node := by
  rcases h with hsame | ⟨hnone, -⟩
  · rw [hsame, hnode]
  · rw [hnone] at hnode
    cases hnode

theorem KeptAt.kindAt? (h : KeptAt v v' loc) (hkind : v.kindAt? loc = some kind) : v'.kindAt? loc = some kind := by
  obtain ⟨node, hnode, rfl⟩ := Option.map_eq_some_iff.1 hkind
  rw [Volume.kindAt?, h.nodeAt? hnode, Option.map_some]

/-- No file has come up at a place. -/
theorem KeptAt.kindAt?_eq_file (h : KeptAt v v' loc) : v'.kindAt? loc = some .file ↔ v.kindAt? loc = some .file := by
  refine ⟨fun hfile => ?_, h.kindAt?⟩
  rcases h with hsame | ⟨-, hmade⟩
  · rwa [Volume.kindAt?, hsame] at hfile
  · rw [kindAt?_eq_directory.2 hmade] at hfile
    cases hfile

theorem IsAt.of_keptAt (hp : v.IsAt kind p) (hwork : v'.work = v.work) (h : ∀ loc, v.OnWay p loc → KeptAt v v' loc) :
    v'.IsAt kind p :=
  hp.of_keepsWay hwork fun front hfront _ => (h _ ⟨front, hfront, rfl⟩).kindAt?

/-- What is found under a name in a directory: what stands there, if the path is not too long. -/
theorem kindOf?_join (hp : v.IsAt .directory p) (hname : name ≠ "..") (hlength : Path.byteLength name ≤ longestName)
    {q : Path} (hq : q = { p with segments := p.segments ++ [name] }) (hzero : q.hasZero = false)
    (hshort : Path.byteLength q.text < longestPath) : v.kindOf? q = .ok (v.kindAt? (v.placeOf p ++ [name])) := by
  have hstart : v.start q = v.start p := by
    rw [hq]
    rfl
  have hplace : v.placeOf q = v.placeOf p ++ [name] := by
    rw [placeOf_eq, hstart, hq, walk_append, walk_name hname]
    rfl
  cases hkind : v.kindAt? (v.placeOf p ++ [name]) with
  | some kind =>
    refine kindOf?_eq_some.2 ⟨hzero, hshort, ?_, hplace ▸ hkind⟩
    rw [hstart, hq, open_append]
    exact ⟨hp.way, hp.kindAt, fun _ => ⟨hlength, by rw [← placeOf_eq, hkind, Option.isSome_some]⟩, trivial⟩
  | none =>
    obtain ⟨entries, he⟩ := exists_entries hp.kindAt
    have hhas : Assoc.has name entries = false := by
      rw [Volume.kindAt?, Volume.nodeAt?, Entry.nodeAt?, Entry.at?_append, he, Option.bind_some, Entry.at?_cons] at hkind
      cases hget : Assoc.get? name entries with
      | none => rw [Assoc.has, hget, Option.isSome_none]
      | some e => simp [hget] at hkind
    have hfailed : v.find q = .error .notFound := by
      have hwalk : p.segments.foldlM (step v.root) (v.start p) = .ok (v.placeOf p) :=
        foldlM_eq_ok.2 ⟨hp.way, (placeOf_eq v p).symm⟩
      rw [find, if_neg (Nat.not_le.2 hshort), hstart, hq, List.foldlM_append, hwalk]
      simp [bind, Except.bind, step, he, hname, Nat.not_lt.2 hlength, hhas]
    rw [kindOf?, lookAt, hfailed, guarded, if_neg (by simp [hzero])]
    rfl

/-- A file that is kept is read as before. -/
theorem read_of_keptAt (hp : v'.IsAt .file p) (hwork : v'.work = v.work) (h : KeptAt v v' (v.placeOf p))
    {data : List UInt8} (hread : (Disk.read p : StateM Volume _) v = (.ok data, v)) :
    (Disk.read p : StateM Volume _) v' = (.ok data, v') := by
  have hdata : v.nodeAt? (v.placeOf p) = some (.file data) := by
    have hguarded : guarded p (v.read p) = .ok data := congrArg Prod.fst hread
    obtain ⟨⟨q, e⟩, hfound, hdata⟩ := except_bind_ok.1 (guarded_eq_ok.1 hguarded).2
    obtain ⟨-, -, rfl, he⟩ := find_eq_ok.1 hfound
    cases e with
    | file data' =>
      cases hdata
      exact nodeAt?_of_at? he
    | directory entries => cases hdata
  refine read_of_isAt ?_ hp
  rw [placeOf_congr hwork]
  exact h.nodeAt? hdata

end Files.Volume

namespace Run

open Files (Path Fault Disk Volume Location)
open Files.Volume (OnWay KeptAt)

variable {α β : Type} {v v' : Volume} {p : Path} {wrap : Fault → RunError}

/-- A success of two steps that leave the files alone is one of both. -/
theorem Yields.of_bind {x : Run (StateM Volume) α} {f : α → Run (StateM Volume) β} {b : β} (hx : Reads x)
    (hf : ∀ a, Reads (f a)) (h : Yields (x >>= f) v (.ok b) v') :
    ∃ a, Yields x v (.ok a) v ∧ Yields (f a) v (.ok b) v := by
  obtain ⟨r, hr⟩ := hx v
  cases r with
  | error e => cases (hr.bind_error.unique h).1
  | ok a =>
    obtain ⟨r', hr'⟩ := hf a v
    obtain ⟨rfl, -⟩ := (hr.bind hr').unique h
    exact ⟨a, hr, hr'⟩

/-- What the run comes to from the files `v`, if it succeeds, it comes to from the files `v'` as well. -/
def Stays (x : Run (StateM Volume) α) (v v' : Volume) : Prop := ∀ a, Yields x v (.ok a) v → Yields x v' (.ok a) v'

namespace Stays

theorem pure (a : α) : Stays (Pure.pure a) v v' := fun b h => by
  cases ((Yields.pure a v).unique h).1
  exact Yields.pure a v'

theorem throw (e : RunError) : Stays (throw e : Run (StateM Volume) α) v v' := fun b h => by
  cases ((Yields.throw e v).unique h).1

theorem ofExcept {ε : Type} (wrap : ε → RunError) (r : Except ε α) : Stays (Run.ofExcept wrap r) v v' := by
  cases r with
  | ok a => exact pure a
  | error e => exact throw (wrap e)

theorem bind {x : Run (StateM Volume) α} {f : α → Run (StateM Volume) β} (hx : Reads x) (hf : ∀ a, Reads (f a))
    (h : Stays x v v') (h' : ∀ a, Yields x v (.ok a) v → Stays (f a) v v') : Stays (x >>= f) v v' := by
  intro b hb
  obtain ⟨a, ha, hfa⟩ := Yields.of_bind hx hf hb
  exact (h a ha).bind (h' a ha b hfa)

end Stays

/-! ## Looking and reading -/

theorem kindOf?_of_yields {found : Option Files.Kind} (h : Yields (kind? p) v (.ok found) v) :
    v.kindOf? p = .ok found := by
  cases hkind : v.kindOf? p with
  | error fault => cases ((Yields.onDisk_error (by rw [Volume.kind?_eq, hkind])).unique h).1
  | ok found' =>
    have hlook : Yields (kind? p) v (.ok found') v := Yields.onDisk (by rw [Volume.kind?_eq, hkind])
    rw [Except.ok.inj (hlook.unique h).1]

theorem yields_kind? {found : Option Files.Kind} (h : v.kindOf? p = .ok found) : Yields (kind? p) v (.ok found) v :=
  Yields.onDisk (by rw [Volume.kind?_eq, h])

theorem stays_readText (hp : v'.IsAt .file p) (hwork : v'.work = v.work) (h : KeptAt v v' (v.placeOf p)) :
    Stays (readText wrap p) v v' := by
  refine Stays.bind (Reads.onDisk fun _ => rfl) (fun _ => Reads.ofExcept _ _) (fun data hdata => ?_) fun _ _ =>
    Stays.ofExcept _ _
  rcases hread : (Disk.read p : StateM Volume _) v with ⟨r, w⟩
  have hw : w = v := (congrArg Prod.snd hread).symm
  subst hw
  cases r with
  | error fault => cases ((Yields.onDisk_error hread).unique hdata).1
  | ok data' =>
    cases ((Yields.onDisk hread).unique hdata).1
    exact Yields.onDisk (Volume.read_of_keptAt hp hwork h hread)

/-! ## Candidates for the dump -/

/-- The choice of a candidate is made when it is a file. -/
theorem yields_firstFile?_cons {c : Path} {rest : List Path} {r : Option Path} :
    Yields (firstFile? (c :: rest)) v (.ok r) v ↔ ∃ found, v.kindOf? c = .ok found ∧
      (found = some .file ∧ r = some c ∨ found ≠ some .file ∧ Yields (firstFile? rest) v (.ok r) v) := by
  constructor
  · intro h
    obtain ⟨found, hfound, hbelow⟩ := Yields.of_bind (Reads.kind? c) (fun found => by
      split
      · exact Reads.pure _
      · exact Reads.firstFile? rest) h
    refine ⟨found, kindOf?_of_yields hfound, ?_⟩
    match found, hbelow with
    | none, hbelow => exact .inr ⟨by simp, hbelow⟩
    | some .directory, hbelow => exact .inr ⟨by simp, hbelow⟩
    | some .file, hbelow => exact .inl ⟨rfl, (Except.ok.inj ((Yields.pure (some c) v).unique hbelow).1).symm⟩
  · rintro ⟨found, hfound, ⟨rfl, rfl⟩ | ⟨hfile, hrest⟩⟩
    · exact (yields_kind? hfound).bind (Yields.pure (some c) v)
    · refine (yields_kind? hfound).bind ?_
      match found with
      | none => exact hrest
      | some .directory => exact hrest
      | some .file => exact absurd rfl hfile

theorem isAt_of_firstFile? {file : Path} : ∀ {candidates : List Path},
    Yields (firstFile? candidates) v (.ok (some file)) v → file ∈ candidates ∧ v.IsAt .file file
  | [], h => by cases ((Yields.pure none v).unique h).1
  | c :: rest, h => by
    obtain ⟨found, hfound, ⟨rfl, hc⟩ | ⟨-, hrest⟩⟩ := yields_firstFile?_cons.1 h
    · cases hc
      exact ⟨List.mem_cons_self, Volume.kindOf?_eq_some.1 hfound⟩
    · obtain ⟨hm, hat⟩ := isAt_of_firstFile? hrest
      exact ⟨List.mem_cons_of_mem c hm, hat⟩

/-- Of candidates that are files from `v'` exactly when they are from `v`, the first file is the same. -/
theorem stays_firstFile? : ∀ {candidates : List Path}, (∀ c ∈ candidates, ∀ found, v.kindOf? c = .ok found →
      ∃ found', v'.kindOf? c = .ok found' ∧ (found' = some .file ↔ found = some .file)) →
    Stays (firstFile? candidates) v v'
  | [], _ => Stays.pure none
  | c :: rest, h => by
    intro r hr
    obtain ⟨found, hfound, hor⟩ := yields_firstFile?_cons.1 hr
    obtain ⟨found', hfound', hiff⟩ := h c List.mem_cons_self found hfound
    refine yields_firstFile?_cons.2 ⟨found', hfound', ?_⟩
    refine hor.imp (And.imp_left hiff.2) (And.imp (mt hiff.1) fun hrest => ?_)
    exact stays_firstFile? (fun c' hc' => h c' (List.mem_cons_of_mem c hc')) r hrest

/-- The path of a candidate for the dump in a directory. -/
theorem join_dumpName {name : String} (h : name ∈ dumpNames) (p : Path) :
    p.join (.ofText name) = { p with segments := p.segments ++ [name] } := by
  have hname : Path.ofText name = { segments := [name] } := by
    revert name
    decide
  rw [hname]
  rfl

theorem dumpName_plain : ∀ name ∈ dumpNames, name ≠ ".." ∧ Path.byteLength name ≤ Volume.longestName ∧
    name.toList.contains '\x00' = false := by decide

theorem short_of_kindOf? {q : Path} (hzero : q.hasZero = false) {found : Option Files.Kind}
    (h : v.kindOf? q = .ok found) : Path.byteLength q.text < Volume.longestPath := by
  rw [← Nat.not_le]
  intro hlong
  have hfailed : v.find q = .error .nameTooLong := by rw [Volume.find, if_pos hlong]; rfl
  rw [Volume.kindOf?, Volume.lookAt, hfailed, Volume.guarded, if_neg (by simp [hzero])] at h
  cases h

/-- A candidate in a directory that is kept is a file again, or it is none again. -/
theorem kindOf?_candidate {name : String} (hname : name ∈ dumpNames) (hp : v.IsAt .directory p)
    (hp' : v'.IsAt .directory p) (hwork : v'.work = v.work) (h : KeptAt v v' (v.placeOf p ++ [name]))
    {found : Option Files.Kind} (hfound : v.kindOf? (p.join (.ofText name)) = .ok found) :
    ∃ found', v'.kindOf? (p.join (.ofText name)) = .ok found' ∧ (found' = some .file ↔ found = some .file) := by
  obtain ⟨hup, hlength, hnone⟩ := dumpName_plain name hname
  have hq := join_dumpName hname p
  have hzero : (p.join (.ofText name)).hasZero = false := by
    rw [hq, Path.hasZero, List.any_append, ← Path.hasZero, hp.noZero]
    simpa using hnone
  have hshort := short_of_kindOf? hzero hfound
  rw [Volume.kindOf?_join hp hup hlength hq hzero hshort, Except.ok.injEq] at hfound
  refine ⟨_, Volume.kindOf?_join hp' hup hlength hq hzero hshort, ?_⟩
  rw [← hfound, Volume.placeOf_congr hwork]
  exact h.kindAt?_eq_file

/-! ## Loading -/

/-- The dump is found in the file that the path leads to, or under one of its names in the directory. -/
theorem isAt_of_findDump {file : Path} (h : Yields (findDump p) v (.ok file) v) : v.IsAt .file file ∧
    (file = p ∨ v.IsAt .directory p ∧ Yields (firstFile? (dumpNames.map fun name => p.join (.ofText name))) v
      (.ok (some file)) v) := by
  obtain ⟨found, hfound, hbelow⟩ := Yields.of_bind (Reads.kind? p) (fun found => by
    split
    · exact Reads.pure _
    · refine (Reads.firstFile? _).bind fun file => ?_
      split
      · exact Reads.pure _
      · exact Reads.throw _
    · exact Reads.throw _) h
  have hkind := kindOf?_of_yields hfound
  cases found with
  | none => cases ((Yields.throw _ v).unique hbelow).1
  | some kind => cases kind with
    | file =>
      cases ((Yields.pure p v).unique hbelow).1
      exact ⟨Volume.kindOf?_eq_some.1 hkind, .inl rfl⟩
    | directory =>
      obtain ⟨first, hfirst, hlast⟩ := Yields.of_bind (Reads.firstFile? _) (fun file => by
        split
        · exact Reads.pure _
        · exact Reads.throw _) hbelow
      cases first with
      | none => cases ((Yields.throw _ v).unique hlast).1
      | some file' =>
        cases ((Yields.pure file' v).unique hlast).1
        exact ⟨(isAt_of_firstFile? hfirst).2, .inr ⟨Volume.kindOf?_eq_some.1 hkind, hfirst⟩⟩

/-- What stands on the way to a package and at the candidates for its dump is kept. -/
structure KeepsDump (v v' : Volume) (p : Path) : Prop where
  work : v'.work = v.work
  follows : v'.follows = v.follows
  onWay : ∀ loc, v.OnWay p loc → KeptAt v v' loc
  inside : ∀ name ∈ dumpNames, KeptAt v v' (v.placeOf p ++ [name])

namespace KeepsDump

variable (h : KeepsDump v v' p)

include h

theorem isAt {kind : Files.Kind} (hp : v.IsAt kind p) : v'.IsAt kind p := hp.of_keptAt h.work h.onWay

theorem stays_findDump : Stays (findDump p) v v' := by
  intro file hfile
  obtain ⟨hat, rfl | ⟨hdirectory, hfirst⟩⟩ := isAt_of_findDump hfile
  · exact (yields_kind? (Volume.kindOf?_eq_some.2 (h.isAt hat))).bind (Yields.pure _ v')
  · have hdirectory' := h.isAt hdirectory
    have hagain : Stays (firstFile? (dumpNames.map fun name => p.join (.ofText name))) v v' :=
      stays_firstFile? fun c hc found hfound => by
        obtain ⟨name, hname, rfl⟩ := List.mem_map.1 hc
        exact kindOf?_candidate hname hdirectory hdirectory' h.work (h.inside name hname) hfound
    exact (yields_kind? (Volume.kindOf?_eq_some.2 hdirectory')).bind ((hagain _ hfirst).bind (Yields.pure _ v'))

/-- The file of the dump is kept. -/
theorem keptAt_dump {file : Path} (hfile : Yields (findDump p) v (.ok file) v) : KeptAt v v' (v.placeOf file) := by
  obtain ⟨hat, rfl | ⟨hdirectory, hfirst⟩⟩ := isAt_of_findDump hfile
  · exact h.onWay _ (v.onWay_placeOf _)
  · obtain ⟨name, hname, rfl⟩ := List.mem_map.1 (isAt_of_firstFile? hfirst).1
    have hplace : v.placeOf (p.join (.ofText name)) = v.placeOf p ++ [name] := by
      rw [join_dumpName hname, Volume.placeOf_eq, Files.walk_append, Files.walk_name (dumpName_plain name hname).1]
      rfl
    rw [hplace]
    exact h.inside name hname

theorem stays_readDump {file : Path} (hread : Stays (readText .files file) v v') : Stays (readDump file) v v' := by
  have htail (chars : List Char) (deep : Bool) : Reads (σ := Volume) (if deep = true then
      ofExcept id (entriesOfDump file (String.ofList (Text.readLineEndsList chars))) else throw .tooDeep) := by
    split
    · exact Reads.ofExcept _ _
    · exact Reads.throw _
  refine Stays.bind (Reads.readText file) (fun chars => (Reads.follows chars).bind (htail chars)) hread fun chars _ =>
    Stays.bind (Reads.follows chars) (htail chars) (fun deep hdeep => ?_) fun deep _ => ?_
  · have hlift (w : Volume) : Yields (liftM (Disk.follows chars : StateM Volume Bool)) w (.ok (w.follows chars)) w :=
      Yields.lift rfl
    cases ((hlift v).unique hdeep).1
    rw [← h.follows]
    exact hlift v'
  · split
    · exact Stays.ofExcept _ _
    · exact Stays.throw _

theorem stays_loadDump : Stays (loadDump p) v v' :=
  Stays.bind (Reads.findDump p) Reads.readDump h.stays_findDump fun file hfile => h.stays_readDump
    (stays_readText (isAt_of_findDump (h.stays_findDump file hfile)).1 h.work (h.keptAt_dump hfile))

/-- The name of a package stays, when there is something at its path. -/
theorem stays_defaultName {kind : Files.Kind} (hp : v.IsAt kind p) : Stays (defaultName p) v v' := by
  intro name hyields
  have hlook : ∀ {w : Volume}, w.IsAt kind p → Yields (kind? p) w (.ok (some kind)) w := fun hat =>
    yields_kind? (Volume.kindOf?_eq_some.2 hat)
  have hname : ∀ {w : Volume}, w.IsAt kind p → w.work = v.work → Yields (defaultName p) w
      (.ok (if some kind = some .directory then (p.absolute v.work).name else (p.absolute v.work).parent.name)) w :=
    fun {w} hat hsame => (hlook hat).bind ((Yields.lift rfl).bind (hsame ▸ Yields.pure _ w))
  cases ((hname hp rfl).unique hyields).1
  exact hname (h.isAt hp) h.work

/-- **A package that has been loaded is loaded again** from files among which the ways to it and its dump are kept. -/
theorem stays_loadPackage : Stays (loadPackage p) v v' := by
  have htail : ∀ document name, Reads (ofExcept .dump (Dump.packageOf name document) : Run (StateM Volume) Package) :=
    fun document name => Reads.ofExcept _ _
  refine Stays.bind (Reads.loadDump p) (fun document => (Reads.defaultName p).bind (htail document))
    h.stays_loadDump fun document hdocument => ?_
  obtain ⟨file, hfile, -⟩ := Yields.of_bind (Reads.findDump p) Reads.readDump hdocument
  obtain ⟨hat, hor⟩ := isAt_of_findDump hfile
  have hname : Stays (defaultName p) v v' := by
    rcases hor with rfl | ⟨hdirectory, -⟩
    · exact h.stays_defaultName hat
    · exact h.stays_defaultName hdirectory
  exact Stays.bind (Reads.defaultName p) (htail document) hname fun name _ => Stays.ofExcept _ _

end KeepsDump

end Run

end SchemaDocs
