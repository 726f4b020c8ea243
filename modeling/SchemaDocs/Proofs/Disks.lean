import SchemaDocs.Proofs.Changes

/-!
# Disk operations on volumes

What the operations that look at files find (`kind?_eq`), and what those that change files bring about: whatever comes
of making the directories of a path, it only makes directories on the way along the path, and it succeeds when the path
leads to a directory then (`ensures_makeDirectories`); a file is written as a whole or nothing is changed
(`write_cases`).
-/

namespace SchemaDocs.Files

namespace Volume

variable {v v' : Volume} {p : Path} {kind : Kind}

theorem guarded_eq_ok {α : Type} {result : Except Cause α} {a : α} :
    guarded p result = .ok a ↔ p.hasZero = false ∧ result = .ok a := by
  unfold guarded
  cases h : p.hasZero with
  | true => simp
  | false => simp [except_mapError_ok]

/-- Whether a file or a directory is at a path, or why that cannot be found out. -/
def lookAt (v : Volume) (p : Path) : Except Fault Kind := guarded p ((v.find p).map fun found => found.2.kind)

theorem lookAt_eq_ok : v.lookAt p = .ok kind ↔ v.IsAt kind p := by
  rw [lookAt, guarded_eq_ok, isAt_iff]
  refine and_congr_right fun _ => ?_
  cases v.find p with
  | error cause => simp [Except.map]
  | ok found =>
    simp only [Except.map, Except.ok.injEq]
    exact ⟨fun h => ⟨_, _, rfl, h⟩, fun ⟨_, _, hfound, h⟩ => by rwa [hfound]⟩

/-- Whether a file or a directory is at a path, if anything is. -/
def kindOf? (v : Volume) (p : Path) : Except Fault (Option Kind) :=
  match v.lookAt p with
  | .ok kind => .ok (some kind)
  | .error (.failed .notFound _) => .ok none
  | .error (.failed .notDirectory _) => .ok none
  | .error (.failed .tooManyLinks _) => .ok none
  | .error .zeroInPath => .ok none
  | .error fault => .error fault

theorem kindOf?_eq_some : v.kindOf? p = .ok (some kind) ↔ v.IsAt kind p := by
  rw [← lookAt_eq_ok, kindOf?]
  split <;> simp_all

theorem kind?_eq (v : Volume) (p : Path) : (Disk.kind? p : StateM Volume _) v = (v.kindOf? p, v) := by
  have hlook : (Disk.kind p : StateM Volume _) v = (v.lookAt p, v) := rfl
  rw [Disk.kind?, stateM_bind, hlook, kindOf?]
  cases v.lookAt p with
  | ok kind => rfl
  | error fault =>
    cases fault with
    | failed cause q => cases cause <;> rfl
    | zeroInPath => rfl

/-! ## Making directories -/

theorem makeDirectory_eq (v : Volume) (p : Path) : (Disk.makeDirectory p : StateM Volume _) v =
    match guarded p (v.makeDirectory p) with
    | .ok made => (.ok (), made)
    | .error fault => (.error fault, v) := rfl

theorem ensureDirectory_eq (v : Volume) (p : Path) : (Disk.ensureDirectory p : StateM Volume _) v =
    match guarded p (v.makeDirectory p) with
    | .ok v' => (.ok (), v')
    | .error (.failed .notFound q) => (.error (.failed .notFound q), v)
    | .error .zeroInPath => (.error .zeroInPath, v)
    | .error fault => match v.kindOf? p with
      | .ok (some .directory) => (.ok (), v)
      | _ => (.error fault, v) := by
  rw [Disk.ensureDirectory, stateM_bind, makeDirectory_eq]
  cases guarded p (v.makeDirectory p) with
  | ok v' => rfl
  | error fault =>
    have hlook : (Disk.unlessDirectory p fault : StateM Volume _) v = match v.kindOf? p with
        | .ok (some .directory) => ((.ok () : Except Fault Unit), v)
        | _ => (.error fault, v) := by
      rw [Disk.unlessDirectory, stateM_bind, kind?_eq]
      rcases v.kindOf? p with fault' | found
      · rfl
      · rcases found with _ | kind
        · rfl
        · cases kind <;> rfl
    cases fault with
    | failed cause q => cases cause with
      | notFound => rfl
      | _ => exact hlook
    | zeroInPath => rfl

/-- What comes of making the directories of a path: directories on the way along the path, and nothing if the path
leads to a directory already. -/
structure Ensures (v : Volume) (p : Path) (result : Except Fault Unit) (v' : Volume) : Prop where
  changes : Changes (v.OnWay p) (fun _ => False) v v'
  made : result = .ok () → v'.IsAt .directory p
  kept : v.IsAt .directory p → result = .ok () ∧ v' = v
  zero : p.hasZero = true → result = .error .zeroInPath ∧ v' = v
  noZero : p.hasZero = false → result ≠ .error .zeroInPath

/-- Where a directory has not been made, everything is as it was. -/
theorem Ensures.nodeAt? {result : Except Fault Unit} (h : v.Ensures p result v') (loc : Location) :
    v'.nodeAt? loc = v.nodeAt? loc ∨ v.nodeAt? loc = none ∧ v'.nodeAt? loc = some .directory ∧ v.OnWay p loc :=
  h.changes.nodeAt? id

theorem guarded_eq_error {α : Type} {result : Except Cause α} {fault : Fault} : guarded p result = .error fault ↔
    p.hasZero = true ∧ fault = .zeroInPath ∨
      p.hasZero = false ∧ ∃ cause, result = .error cause ∧ fault = .failed cause p := by
  unfold guarded
  cases h : p.hasZero with
  | true => simp [eq_comm]
  | false => simp [except_mapError_error, eq_comm (a := fault)]

/-- A path leads to what has been put under the name that it led to. -/
theorem LeadsTo.isAt_putAt {above : List String} {name : String} (h : v.LeadsTo p above name)
    (hzero : p.hasZero = false) {new : Entry} (hnew : new.IsBare) (hkind : v.kindAt? (v.placeOf p) ≠ some .directory)
    (hgrows : Grows v (v.putAt (v.placeOf p) new)) : (v.putAt (v.placeOf p) new).IsAt new.kind p where
  noZero := hzero
  short := h.short
  way := by
    have hput := kindAt?_putAt hnew h.puttable hkind (v.placeOf p)
    rw [if_pos rfl, h.placeOf] at hput
    rw [start_congr hgrows.work, h.segments, open_append]
    refine ⟨h.way.of_keepsWay fun _ _ => hgrows.kindAt _, hgrows.kindAt _ _ h.directory, fun _ => ⟨h.length, ?_⟩, trivial⟩
    rw [← h.placeOf] at hput ⊢
    rw [hput, Option.isSome_some]
  kindAt := by rw [placeOf_congr hgrows.work, kindAt?_putAt hnew h.puttable hkind, if_pos rfl]

theorem onWay_placeOf (v : Volume) (p : Path) : v.OnWay p (v.placeOf p) := ⟨p.segments, List.prefix_refl _, rfl⟩

theorem onWay_congr (hwork : v'.work = v.work) {loc : Location} (h : v'.OnWay p loc) : v.OnWay p loc := by
  obtain ⟨front, hfront, rfl⟩ := h
  exact ⟨front, hfront, by rw [start_congr hwork]⟩

theorem onWay_of_parent {loc : Location} (h : v.OnWay p.parent loc) : v.OnWay p loc := by
  obtain ⟨front, hfront, rfl⟩ := h
  exact ⟨front, hfront.trans (List.dropLast_prefix _), rfl⟩

theorem hasZero_parent (h : p.hasZero = false) : p.parent.hasZero = false := by
  simp only [Path.hasZero, List.any_eq_false] at h ⊢
  exact fun segment hm => h segment (List.dropLast_subset _ hm)

/-- Making a directory that is missing. -/
theorem ensures_of_makeDirectory (hmade : guarded p (v.makeDirectory p) = .ok v') : v.Ensures p (.ok ()) v' := by
  obtain ⟨hzero, hmade⟩ := guarded_eq_ok.1 hmade
  obtain ⟨⟨above, name, hleads⟩, hnew, rfl⟩ := makeDirectory_eq_ok.1 hmade
  have hchange : Change (v.OnWay p) (fun _ => False) v (v.putAt (v.placeOf p) (.directory [])) :=
    .directory hleads.puttable hnew (v.onWay_placeOf p)
  refine ⟨.single hchange, fun _ => ?_, fun hat => ?_, fun h => ?_, fun _ h => ?_⟩
  · exact hleads.isAt_putAt hzero Entry.isBare_directory (by simp [hnew]) hchange.grows
  · rw [makeDirectory_of_isAt hat] at hmade
    cases hmade
  · rw [hzero] at h
    cases h
  · cases h

/-- An attempt that changes nothing. -/
theorem ensures_of_error {fault : Fault} (hfailed : guarded p (v.makeDirectory p) = .error fault)
    {result : Except Fault Unit} (hresult : result = .error fault ∧ ¬ v.IsAt .directory p ∨
      result = .ok () ∧ v.IsAt .directory p) : v.Ensures p result v := by
  refine ⟨.refl, fun hok => ?_, fun hat => ?_, fun hzero => ?_, fun hzero hfault => ?_⟩
  · rcases hresult with ⟨h, -⟩ | ⟨-, hat⟩
    · rw [h] at hok
      cases hok
    · exact hat
  · rcases hresult with ⟨-, hnot⟩ | ⟨h, -⟩
    · exact absurd hat hnot
    · exact ⟨h, rfl⟩
  · rcases guarded_eq_error.1 hfailed with ⟨-, rfl⟩ | ⟨h, -⟩
    · rcases hresult with ⟨h, -⟩ | ⟨-, hat⟩
      · exact ⟨h, rfl⟩
      · rw [hat.noZero] at hzero
        cases hzero
    · rw [h] at hzero
      cases hzero
  · rcases guarded_eq_error.1 hfailed with ⟨h, -⟩ | ⟨-, cause, -, rfl⟩
    · rw [h] at hzero
      cases hzero
    · rcases hresult with ⟨h, -⟩ | ⟨h, -⟩
      · rw [h] at hfault
        cases hfault
      · rw [h] at hfault
        cases hfault

theorem ensures_ensureDirectory (v : Volume) (p : Path) {result : Except Fault Unit}
    (h : (Disk.ensureDirectory p : StateM Volume _) v = (result, v')) : v.Ensures p result v' := by
  rw [ensureDirectory_eq] at h
  cases hmade : guarded p (v.makeDirectory p) with
  | ok made =>
    rw [hmade] at h
    cases h
    exact ensures_of_makeDirectory hmade
  | error fault =>
    rw [hmade] at h
    -- when the attempt is not looked into, the path leads to no directory
    have hnot : (∀ q, fault ≠ .failed .exists q) → ¬ v.IsAt .directory p := by
      intro hne hat
      rcases guarded_eq_error.1 hmade with ⟨hzero, -⟩ | ⟨-, cause, hfailed, rfl⟩
      · rw [hat.noZero] at hzero
        cases hzero
      · rw [makeDirectory_of_isAt hat] at hfailed
        exact hne p (by rw [Except.error.inj hfailed])
    have hlook : ∀ found : Except Fault (Option Kind), v.kindOf? p = found →
        (match found with
          | .ok (some .directory) => ((.ok () : Except Fault Unit), v)
          | _ => (.error fault, v)) = (result, v') → v.Ensures p result v' := by
      intro found hfound h
      split at h
      · cases h
        exact ensures_of_error hmade (.inr ⟨rfl, kindOf?_eq_some.1 hfound⟩)
      · rename_i hother
        cases h
        refine ensures_of_error hmade (.inl ⟨rfl, fun hat => hother ?_⟩)
        rw [← hfound, kindOf?_eq_some.2 hat]
    cases fault with
    | zeroInPath =>
      cases h
      exact ensures_of_error hmade (.inl ⟨rfl, hnot (by simp)⟩)
    | failed cause q => cases cause with
      | notFound =>
        cases h
        exact ensures_of_error hmade (.inl ⟨rfl, hnot (by simp)⟩)
      | _ => exact hlook _ rfl h

/-- After a failed attempt the directories above are made, and if that succeeds there is another attempt. -/
theorem Ensures.retry {result r1 : Except Fault Unit} {v0 v1 v2 : Volume} {cause : Cause} {q : Path}
    (h0 : v.Ensures p (.error (.failed cause q)) v0) (h1 : v0.Ensures p.parent r1 v1)
    (h2 : result = r1 ∧ r1 ≠ .ok () ∧ v2 = v1 ∨ v1.Ensures p result v2) : v.Ensures p result v2 := by
  have hnot : ¬ v.IsAt .directory p := fun hat => by cases (h0.kept hat).1
  have hzero : p.hasZero = false := by
    rw [← Bool.not_eq_true]
    intro h
    cases (h0.zero h).1
  have hchanges : Changes (v.OnWay p) (fun _ => False) v v1 :=
    h0.changes.trans (h1.changes.mono (fun _ h => onWay_congr h0.changes.grows.work (onWay_of_parent h)) fun _ => id)
  have hkept : v.IsAt .directory p → result = .ok () ∧ v2 = v := fun hat => absurd hat hnot
  have hzeroed : p.hasZero = true → result = .error .zeroInPath ∧ v2 = v := fun h => by
    rw [hzero] at h
    cases h
  rcases h2 with ⟨rfl, hfailed, rfl⟩ | h2
  · exact ⟨hchanges, fun hok => absurd hok hfailed, hkept, hzeroed, fun _ => h1.noZero (hasZero_parent hzero)⟩
  · exact ⟨hchanges.trans (h2.changes.mono (fun _ => onWay_congr hchanges.grows.work) fun _ => id), h2.made, hkept,
      hzeroed, h2.noZero⟩

theorem ensures_ensureDirectories : ∀ (depth : Nat) (v : Volume) (p : Path) {v' : Volume} {result : Except Fault Unit},
    (Disk.ensureDirectories depth p : StateM Volume _) v = (result, v') → v.Ensures p result v'
  | 0, v, p, _, _, h => ensures_ensureDirectory v p h
  | depth + 1, v, p, v', result, h => by
    rw [Disk.ensureDirectories, stateM_bind] at h
    rcases hr0 : (Disk.ensureDirectory p : StateM Volume _) v with ⟨r0, v0⟩
    have h0 := ensures_ensureDirectory v p hr0
    rw [hr0] at h
    dsimp only at h
    split at h
    · rw [stateM_bind] at h
      rcases hr1 : (Disk.ensureDirectories depth p.parent : StateM Volume _) v0 with ⟨r1, v1⟩
      have h1 := ensures_ensureDirectories depth v0 p.parent hr1
      rw [hr1] at h
      cases r1 with
      | ok _ => exact h0.retry h1 (.inr (ensures_ensureDirectory v1 p h))
      | error fault =>
        cases h
        exact h0.retry h1 (.inl ⟨rfl, by simp, rfl⟩)
    · cases h
      exact h0

/-- **Making the directories of a path** only makes directories on the way along it, and when it succeeds the path
leads to a directory. -/
theorem ensures_makeDirectories {v : Volume} {p : Path} {result : Except Fault Unit}
    (h : (Disk.makeDirectories p : StateM Volume _) v = (result, v')) : v.Ensures p result v' :=
  ensures_ensureDirectories _ v p h

/-! ## Writing files -/

/-- A file is written under the name that a path leads to. -/
structure Writes (v : Volume) (p : Path) (data : List UInt8) (v' : Volume) : Prop where
  noZero : p.hasZero = false
  leads : ∃ above name, v.LeadsTo p above name
  notDirectory : v.kindAt? (v.placeOf p) ≠ some .directory
  eq : v' = v.putAt (v.placeOf p) (.file data)

variable {data : List UInt8}

theorem Writes.change (h : v.Writes p data v') : Change (fun _ => False) (· = v.placeOf p) v v' := by
  obtain ⟨above, name, hleads⟩ := h.leads
  rw [h.eq]
  exact .file data hleads.puttable h.notDirectory rfl

theorem Writes.nodeAt? (h : v.Writes p data v') (loc : Location) :
    v'.nodeAt? loc = if loc = v.placeOf p then some (.file data) else v.nodeAt? loc := by
  obtain ⟨above, name, hleads⟩ := h.leads
  rw [h.eq]
  exact nodeAt?_putAt (Entry.isBare_file data) hleads.puttable h.notDirectory loc

theorem Writes.isAt (h : v.Writes p data v') : v'.IsAt .file p := by
  obtain ⟨above, name, hleads⟩ := h.leads
  have hgrows := h.change.grows
  rw [h.eq] at hgrows ⊢
  exact hleads.isAt_putAt h.noZero (Entry.isBare_file data) h.notDirectory hgrows

theorem write_eq (v : Volume) (p : Path) (data : List UInt8) : (Disk.write p data : StateM Volume _) v =
    match guarded p (v.write p data) with
    | .ok changed => (.ok (), changed)
    | .error fault => (.error fault, v) := rfl

/-- A file is written as a whole, or nothing is changed. -/
theorem write_cases {result : Except Fault Unit} (h : (Disk.write p data : StateM Volume _) v = (result, v')) :
    result = .ok () ∧ v.Writes p data v' ∨
      ∃ fault, result = .error fault ∧ v' = v ∧ (p.hasZero = false → fault ≠ .zeroInPath) := by
  rw [write_eq] at h
  cases hwritten : guarded p (v.write p data) with
  | ok changed =>
    rw [hwritten] at h
    cases h
    obtain ⟨hzero, hwritten⟩ := guarded_eq_ok.1 hwritten
    obtain ⟨hleads, hkind, rfl⟩ := write_eq_ok.1 hwritten
    exact .inl ⟨rfl, hzero, hleads, hkind, rfl⟩
  | error fault =>
    rw [hwritten] at h
    cases h
    refine .inr ⟨fault, rfl, rfl, fun hzero => ?_⟩
    rcases guarded_eq_error.1 hwritten with ⟨h, -⟩ | ⟨-, cause, -, rfl⟩
    · rw [hzero] at h
      cases h
    · simp

theorem Writes.write_eq (h : v.Writes p data v') : (Disk.write p data : StateM Volume _) v = (.ok (), v') := by
  rw [Volume.write_eq, guarded_eq_ok.2 ⟨h.noZero, write_eq_ok.2 ⟨h.leads, h.notDirectory, h.eq.symm⟩⟩]

/-! ## Looking into directories and files -/

theorem findDirectory_eq_ok {place : Location} {entries : List (String × Entry)} :
    guarded p (v.findDirectory p) = .ok (place, entries) ↔
      v.IsAt .directory p ∧ v.placeOf p = place ∧ v.root.at? place = some (.directory entries) := by
  rw [guarded_eq_ok, findDirectory, except_bind_ok]
  constructor
  · rintro ⟨hzero, ⟨q, e⟩, hfound, h⟩
    cases e with
    | file data => cases h
    | directory entries =>
      cases h
      exact ⟨isAt_iff.2 ⟨hzero, _, _, hfound, rfl⟩, (find_eq_ok.1 hfound).2.2⟩
  · rintro ⟨hat, rfl, he⟩
    exact ⟨hat.noZero, _, find_eq_ok.2 ⟨hat.short, hat.way, rfl, he⟩, rfl⟩

theorem IsAt.findDirectory_eq_ok (h : v.IsAt .directory p) {entries : List (String × Entry)}
    (he : v.root.at? (v.placeOf p) = some (.directory entries)) :
    guarded p (v.findDirectory p) = .ok (v.placeOf p, entries) := Volume.findDirectory_eq_ok.2 ⟨h, rfl, he⟩

theorem names_eq (v : Volume) (p : Path) : (Disk.names p : StateM Volume _) v =
    (guarded p ((v.findDirectory p).map fun found => Assoc.distinct (found.2.map (·.1))), v) := rfl

theorem names_of_isAt (h : v.IsAt .directory p) {entries : List (String × Entry)}
    (he : v.root.at? (v.placeOf p) = some (.directory entries)) :
    (Disk.names p : StateM Volume _) v = (.ok (Assoc.distinct (entries.map (·.1))), v) := by
  obtain ⟨hzero, hfound⟩ := guarded_eq_ok.1 (h.findDirectory_eq_ok he)
  rw [names_eq, hfound]
  exact congrArg (·, v) (guarded_eq_ok.2 ⟨hzero, rfl⟩)

/-! ## Removing -/

theorem guardedIn_eq_ok {α : Type} {name : String} {result : Except Cause α} {a : α} :
    guardedIn p name result = .ok a ↔ p.hasZero = false ∧ result = .ok a := by
  unfold guardedIn
  cases h : p.hasZero with
  | true => simp
  | false => simp [except_mapError_ok]

theorem guardedIn_eq_error {α : Type} {name : String} {result : Except Cause α} {fault : Fault}
    (h : guardedIn p name result = .error fault) (hzero : p.hasZero = false) : fault ≠ .zeroInPath := by
  unfold guardedIn at h
  rw [hzero] at h
  obtain ⟨cause, -, rfl⟩ := except_mapError_error.1 h
  simp

theorem findIn_eq_ok {name : String} {place : Location} {entries : List (String × Entry)} {e : Entry} :
    v.findIn p name = .ok (place, entries, e) ↔ Path.byteLength (p.child name).text < longestPath ∧
      v.findDirectory p = .ok (place, entries) ∧ Assoc.get? name entries = some e := by
  rw [findIn]
  by_cases hlong : longestPath ≤ Path.byteLength (p.child name).text
  · simp [hlong, Nat.not_lt.2 hlong, throw, throwThe, MonadExceptOf.throw, bind, Except.bind]
  · simp only [hlong, ↓reduceIte, Nat.not_le.1 hlong, true_and, except_bind_ok]
    constructor
    · rintro ⟨⟨q, found⟩, hfound, h⟩
      dsimp only at h
      split at h
      · rename_i hget
        cases h
        exact ⟨hfound, hget⟩
      · cases h
    · rintro ⟨hfound, hget⟩
      exact ⟨_, hfound, by simp [hget, pure, Except.pure]⟩

/-- The files after what is in the directory at a path under a name has been removed. -/
structure Drops (v : Volume) (p : Path) (name : String) (v' : Volume) : Prop where
  isAt : v.IsAt .directory p
  eq : ∃ entries, v.root.at? (v.placeOf p) = some (.directory entries) ∧
    v' = v.dropAt (v.placeOf p) entries name

theorem drops_of_findIn {name : String} {place : Location} {entries : List (String × Entry)} {e : Entry}
    (hzero : p.hasZero = false) (h : v.findIn p name = .ok (place, entries, e)) :
    v.Drops p name (v.dropAt place entries name) := by
  obtain ⟨hat, rfl, he⟩ := findDirectory_eq_ok.1 (guarded_eq_ok.2 ⟨hzero, (findIn_eq_ok.1 h).2.1⟩)
  exact ⟨hat, entries, he, rfl⟩

theorem removeTree_eq_ok {name : String} (hzero : p.hasZero = false) (h : v.removeTree p name = .ok v') :
    v.Drops p name v' := by
  rw [removeTree, except_bind_ok] at h
  obtain ⟨⟨place, entries, e⟩, hfound, h⟩ := h
  cases e with
  | file data => cases h
  | directory inner =>
    cases h
    exact drops_of_findIn hzero hfound

theorem unlink_eq_ok {name : String} (hzero : p.hasZero = false) (h : v.unlink p name = .ok v') :
    v.Drops p name v' := by
  rw [unlink, except_bind_ok] at h
  obtain ⟨⟨place, entries, e⟩, hfound, h⟩ := h
  cases e with
  | directory inner => cases h
  | file data =>
    cases h
    exact drops_of_findIn hzero hfound

theorem discard_eq (v : Volume) (p : Path) (name : String) : (Disk.discard p name : StateM Volume _) v =
    match guardedIn p name (v.isTree p name) with
    | .ok true => changing (fun v => guardedIn p name (v.removeTree p name)) v
    | .ok false => changing (fun v => guardedIn p name (v.unlink p name)) v
    | .error fault => (.error fault, v) := by
  have hlook : (Disk.isTree p name : StateM Volume _) v = (guardedIn p name (v.isTree p name), v) := rfl
  rw [Disk.discard, stateM_bind, hlook]
  rcases guardedIn p name (v.isTree p name) with fault | tree
  · rfl
  · cases tree <;> rfl

/-- What is in a directory under a name is removed, or nothing is changed. -/
theorem discard_cases {name : String} {result : Except Fault Unit}
    (h : (Disk.discard p name : StateM Volume _) v = (result, v')) : result = .ok () ∧ v.Drops p name v' ∨
      ∃ fault, result = .error fault ∧ v' = v ∧ (p.hasZero = false → fault ≠ .zeroInPath) := by
  have hchanging : ∀ {change : Volume → Except Cause Volume},
      (∀ {w}, p.hasZero = false → change v = .ok w → v.Drops p name w) →
      changing (fun v => guardedIn p name (change v)) v = (result, v') → result = .ok () ∧ v.Drops p name v' ∨
        ∃ fault, result = .error fault ∧ v' = v ∧ (p.hasZero = false → fault ≠ .zeroInPath) := by
    intro change hdrops h
    rw [changing] at h
    split at h <;> rename_i hchange <;> cases h
    · obtain ⟨hzero, hchange⟩ := guardedIn_eq_ok.1 hchange
      exact .inl ⟨rfl, hdrops hzero hchange⟩
    · exact .inr ⟨_, rfl, rfl, guardedIn_eq_error hchange⟩
  rw [discard_eq] at h
  split at h
  · exact hchanging removeTree_eq_ok h
  · exact hchanging unlink_eq_ok h
  · rename_i hlook
    cases h
    exact .inr ⟨_, rfl, rfl, guardedIn_eq_error hlook⟩

/-- What is in a directory under a name can be removed, if its path is not too long. -/
theorem discard_of_isAt {name : String} {entries : List (String × Entry)} (h : v.IsAt .directory p)
    (he : v.root.at? (v.placeOf p) = some (.directory entries)) (hname : name ∈ entries.map (·.1))
    (hshort : Path.byteLength (p.child name).text < longestPath) :
    (Disk.discard p name : StateM Volume _) v = (.ok (), v.dropAt (v.placeOf p) entries name) := by
  obtain ⟨e, hget⟩ := Option.isSome_iff_exists.1 (Assoc.get?_isSome_iff.2 hname)
  obtain ⟨hzero, hfound⟩ := guarded_eq_ok.1 (h.findDirectory_eq_ok he)
  have hin : v.findIn p name = .ok (v.placeOf p, entries, e) := findIn_eq_ok.2 ⟨hshort, hfound, hget⟩
  have hlook : guardedIn p name (v.isTree p name) = .ok (decide (e.kind = .directory)) := by
    refine guardedIn_eq_ok.2 ⟨hzero, ?_⟩
    rw [isTree, hin]
  rw [discard_eq, hlook]
  cases e with
  | file data =>
    have hunlink : v.unlink p name = .ok (v.dropAt (v.placeOf p) entries name) := by
      rw [unlink, hin]
      rfl
    show changing _ v = _
    rw [changing, guardedIn_eq_ok.2 ⟨hzero, hunlink⟩]
  | directory inner =>
    have hremove : v.removeTree p name = .ok (v.dropAt (v.placeOf p) entries name) := by
      rw [removeTree, hin]
      rfl
    show changing _ v = _
    rw [changing, guardedIn_eq_ok.2 ⟨hzero, hremove⟩]

/-- A directory in which something else has been put is still there, and nothing has changed but what is in it. -/
theorem nodeAt?_refilled {place loc : Location} (h : v.kindAt? place = some .directory)
    (entries : List (String × Entry)) (hloc : ¬ StrictlyBelow place loc) :
    (v.putAt place (.directory entries)).nodeAt? loc = v.nodeAt? loc := by
  have hput : Entry.Puttable place v.root :=
    Entry.puttable_of_nodeAt? (by rw [← nodeAt?, kindAt?_eq_directory.1 h, Option.isSome_some])
  by_cases hunder : place <+: loc
  · obtain rfl := (eq_or_strictlyBelow hunder).resolve_right hloc
    have hat := Entry.at?_put (.directory entries) hput []
    rw [List.append_nil, Entry.at?_nil] at hat
    rw [kindAt?_eq_directory.1 h, nodeAt?_of_at? hat]
    rfl
  · exact Entry.nodeAt?_put hput hunder

/-- Nothing is left in a directory that has been cleared. -/
theorem nodeAt?_cleared_below {place loc : Location} (h : Entry.Puttable place v.root) (hloc : StrictlyBelow place loc) :
    (v.putAt place (.directory [])).nodeAt? loc = none := by
  obtain ⟨name, rest, rfl⟩ := hloc
  rw [nodeAt?, putAt, Entry.nodeAt?, Entry.at?_put _ h]
  rfl

/-- Nothing is left of what has been dropped from a directory, and everything else is as it was. -/
theorem nodeAt?_dropAt {place : Location} {entries : List (String × Entry)}
    (he : v.root.at? place = some (.directory entries)) (name : String) (loc : Location) :
    (v.dropAt place entries name).nodeAt? loc = if place ++ [name] <+: loc then none else v.nodeAt? loc := by
  have hput := Entry.puttable_of_at? he
  by_cases hloc : StrictlyBelow place loc
  · obtain ⟨other, rest, rfl⟩ := hloc
    have hunder : place ++ [name] <+: place ++ other :: rest ↔ name = other := by
      rw [List.prefix_append_right_inj, List.cons_prefix_cons, and_iff_left List.nil_prefix]
    have hafter : (v.dropAt place entries name).nodeAt? (place ++ other :: rest) =
        ((Assoc.get? other (entries.filter fun e => e.1 ≠ name)).bind (Entry.at? rest)).map Entry.node := by
      rw [nodeAt?, dropAt, putAt, Entry.nodeAt?, Entry.at?_put _ hput, Entry.at?_cons]
    have hbefore : v.nodeAt? (place ++ other :: rest) =
        ((Assoc.get? other entries).bind (Entry.at? rest)).map Entry.node := by
      rw [nodeAt?, Entry.nodeAt?, Entry.at?_append, he, Option.bind_some, Entry.at?_cons]
    rw [hafter, hbefore]
    by_cases hother : name = other
    · rw [if_pos (hunder.2 hother), ← hother, Assoc.get?_filter]
      rfl
    · rw [if_neg (mt hunder.1 hother), Assoc.get?_filter_of_ne (Ne.symm hother)]
  · rw [if_neg fun h => hloc ?_, dropAt, nodeAt?_refilled (kindAt?_of_at? he) _ hloc]
    obtain ⟨rest, rfl⟩ := h
    exact ⟨name, rest, by rw [List.append_assoc, List.singleton_append]⟩

theorem read_of_isAt (h : v.nodeAt? (v.placeOf p) = some (.file data)) (hat : v.IsAt .file p) :
    (Disk.read p : StateM Volume _) v = (.ok data, v) := by
  have hfound : ∃ e, v.root.at? (v.placeOf p) = some e ∧ e.node = .file data := Option.map_eq_some_iff.1 h
  obtain ⟨e, he, hnode⟩ := hfound
  have hread : v.read p = .ok data := by
    rw [Volume.read, find_eq_ok.2 ⟨hat.short, hat.way, rfl, he⟩]
    cases e with
    | file data' =>
      cases hnode
      rfl
    | directory entries => cases hnode
  show (guarded p (v.read p), v) = _
  rw [hread, guarded_eq_ok.2 ⟨hat.noZero, rfl⟩]

end Volume

end SchemaDocs.Files
