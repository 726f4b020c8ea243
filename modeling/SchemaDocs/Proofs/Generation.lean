import SchemaDocs.Proofs.Runs
import SchemaDocs.Proofs.Splitting
import SchemaDocs.Proofs.Writable

/-!
# Writing the documents of a run

What the writing of documents may do to the files (`Generated`): nothing, when the documents cannot be made or the
target is refused; else the target is emptied (`Emptied`), made and marked (`Prepared`), and the documents are written
one after another until one of them cannot be written (`Written`). A run always ends in one of these ways
(`exists_generated`).
-/

namespace SchemaDocs.Run

open Files (Path Fault Disk Volume)

variable {v v0 v' : Volume} {t : Path} {root : Package} {r : Except RunError Unit}

theorem marker_eq (t : Path) : marker t = { t with segments := t.segments ++ [markerName] } := by
  have hname : Path.ofText markerName = { segments := [markerName] } := by decide
  rw [marker, hname]
  rfl

theorem hasZero_marker (t : Path) : (marker t).hasZero = t.hasZero := by
  rw [marker_eq, Path.hasZero, Path.hasZero, List.any_append]
  simp [markerName]

theorem placeOf_marker (v : Volume) (t : Path) : v.placeOf (marker t) = v.placeOf t ++ [markerName] := by
  rw [Volume.placeOf_eq, marker_eq, Files.walk_append, Files.walk_name (by decide)]
  rfl

theorem byteLength_text_marker (t : Path) : Path.byteLength t.text ≤ Path.byteLength (marker t).text := by
  rw [marker_eq]
  exact Path.byteLength_text_child (.inr (by decide))

/-- What is marked is a directory. -/
theorem isAt_of_marked (h : v.IsAt .file (marker t)) : v.IsAt .directory t := by
  have hway := h.way
  have hkind := h.kindAt
  rw [marker_eq] at hway
  rw [placeOf_marker] at hkind
  exact ⟨hasZero_marker t ▸ h.noZero, Nat.lt_of_le_of_lt (byteLength_text_marker t) h.short,
    (Volume.open_append.1 hway).1, Volume.kindAt?_above (by rw [hkind, Option.isSome_some])⟩

/-! ## Preparing the target -/

/-- The files after the target has been emptied: nothing is there, or a directory that was empty or marked and has
nothing in it any more. -/
inductive Emptied (v : Volume) (t : Path) : Volume → Prop
  | absent (nothing : v.kindOf? t = .ok none) : Emptied v t v
  | cleared (there : v.IsAt .directory t)
    (owned : v.root.at? (v.placeOf t) = some (.directory []) ∨ v.IsAt .file (marker t)) :
    Emptied v t (v.putAt (v.placeOf t) (.directory []))

/-- The files after something in a marked target has been removed, but not all. -/
structure Thinned (v : Volume) (t : Path) (v' : Volume) : Prop where
  there : v.IsAt .directory t
  owned : v.IsAt .file (marker t)
  eq : ∃ entries, v' = v.putAt (v.placeOf t) (.directory entries)

/-- What comes of preparing the target. -/
inductive Prepared (v : Volume) (t : Path) : Except RunError Unit → Volume → Prop
  /-- It cannot be found out what the target is, or its path can belong to nothing. -/
  | unseen (fault : Fault) : Prepared v t (.error (.files fault)) v
  | refused (e : RunError) (unmarked : ¬ v.IsAt .file (marker t)) : Prepared v t (.error e) v
  /-- Something in the target cannot be removed. -/
  | thinned {v1 : Volume} (e : OutputError) (thinned : Thinned v t v1) : Prepared v t (.error (.output e)) v1
  /-- The target has been emptied, but it cannot be made or marked. -/
  | stuck {v0 v1 : Volume} {made : Except Fault Unit} (e : OutputError) (emptied : Emptied v t v0)
    (ensures : v0.Ensures t made v1) : Prepared v t (.error (.output e)) v1
  | ready {v0 v1 v2 : Volume} (emptied : Emptied v t v0)
    (made : (Disk.makeDirectories t : StateM Volume _) v0 = (.ok (), v1))
    (marked : v1.Writes (marker t) (Text.Utf8.encode markerText) v2) : Prepared v t (.ok ()) v2

/-- A path without a zero character cannot be dealt with for a reason that the run names. -/
theorem failure_eq {wrap : Fault → OutputError} {fault : Fault} (h : fault ≠ .zeroInPath) :
    Yields.failure (fun fault => .output (wrap fault)) fault = .output (wrap fault) := by
  cases fault with
  | failed cause path => rfl
  | zeroInPath => exact absurd rfl h

theorem failure_cannotPrepare {fault : Fault} (h : fault ≠ .zeroInPath) :
    Yields.failure (cannotPrepare t) fault = .output (.cannotPrepare t fault) := failure_eq h

theorem exists_started (h : Emptied v t v0) : ∃ r v', Yields (startOutput t) v0 r v' ∧ Prepared v t r v' := by
  rcases hmade : (Disk.makeDirectories t : StateM Volume _) v0 with ⟨made, v1⟩
  have hensures := Volume.ensures_makeDirectories hmade
  cases made with
  | error fault =>
    refine ⟨_, v1, (Yields.onDisk_error hmade).bind_error, ?_⟩
    by_cases hzero : t.hasZero = true
    · obtain rfl := (hensures.zero hzero).2
      cases h with
      | absent =>
        have hfault : fault = .zeroInPath := Except.error.inj (hensures.zero hzero).1
        rw [hfault]
        exact .unseen .zeroInPath
      | cleared there =>
        rw [there.noZero] at hzero
        cases hzero
    · have hfault : fault ≠ .zeroInPath := fun e => hensures.noZero (by simpa using hzero) (by rw [e])
      rw [failure_cannotPrepare hfault]
      exact .stuck _ h hensures
  | ok _ =>
    rcases hwritten : (Disk.write (marker t) (Text.Utf8.encode markerText) : StateM Volume _) v1 with ⟨written, v2⟩
    rcases Volume.write_cases hwritten with ⟨rfl, hwrites⟩ | ⟨fault, rfl, rfl, hfault⟩
    · exact ⟨_, v2, (Yields.onDisk hmade).bind (Yields.onDisk hwritten), .ready h hmade hwrites⟩
    · refine ⟨_, v2, (Yields.onDisk hmade).bind (Yields.onDisk_error hwritten), ?_⟩
      rw [failure_cannotPrepare (hfault (by rw [hasZero_marker, (hensures.made rfl).noZero]))]
      exact .stuck _ h hensures

/-- What is in a directory is removed name by name, until something cannot be removed. -/
theorem exists_discarded (t : Path) : ∀ (names : List String) {v : Volume} {entries : List (String × Files.Entry)},
    t.hasZero = false → Files.Entry.Puttable (v.placeOf t) v.root →
    v.root.at? (v.placeOf t) = some (.directory entries) →
    ∃ r rest, Yields (discard (cannotPrepare t) t names) v r (v.putAt (v.placeOf t) (.directory rest)) ∧
      (r = .ok () ∧ (∀ e ∈ rest, e ∈ entries ∧ e.1 ∉ names) ∨ ∃ e, r = .error (.output e))
  | [], v, entries, hzero, hput, he => ⟨.ok (), entries, by
      rw [Volume.putAt, Files.Entry.put_of_at? he]
      exact ⟨Yields.pure () v, .inl ⟨rfl, fun e hm => ⟨hm, List.not_mem_nil⟩⟩⟩⟩
  | name :: names, v, entries, hzero, hput, he => by
    rcases hstep : (Disk.discard t name : StateM Volume _) v with ⟨result, v1⟩
    rcases Volume.discard_cases hstep with ⟨rfl, -, entries', he', rfl⟩ | ⟨fault, rfl, rfl, hfault⟩
    · obtain rfl : entries = entries' := Files.Entry.directory.inj (Option.some_inj.1 (he.symm.trans he'))
      have hat := Files.Entry.at?_put (.directory (entries.filter fun e => e.1 ≠ name)) hput []
      rw [List.append_nil, Files.Entry.at?_nil] at hat
      obtain ⟨r, rest, hrest, hor⟩ := exists_discarded t names (v := v.dropAt (v.placeOf t) entries name) hzero
        (Files.Entry.puttable_of_at? hat) hat
      have hcollapse := Volume.putAt_putAt hput [] (.directory (entries.filter fun e => e.1 ≠ name)) (.directory rest)
      rw [List.append_nil] at hcollapse
      refine ⟨r, rest, (Yields.onDisk hstep).bind (hcollapse ▸ hrest), hor.imp_left (And.imp_right fun hall e hm => ?_)⟩
      obtain ⟨hmem, hnot⟩ := hall e hm
      obtain ⟨hmem, hne⟩ := List.mem_filter.1 hmem
      exact ⟨hmem, List.not_mem_cons_of_ne_of_not_mem (by simpa using hne) hnot⟩
    · have hfailed : Yields (onDisk (cannotPrepare t) (Disk.discard t name)) v1 _ v1 := Yields.onDisk_error hstep
      rw [failure_cannotPrepare (hfault hzero)] at hfailed
      refine ⟨.error (.output (.cannotPrepare t fault)), entries, ?_, .inr ⟨_, rfl⟩⟩
      rw [Volume.putAt, Files.Entry.put_of_at? he]
      exact hfailed.bind_error

/-- A directory is emptied if it is marked, or as far as that can be done; if it is neither empty nor marked, the run
ends. -/
theorem exists_emptied (h : v.IsAt .directory t) : ∃ r v', Yields (emptyTarget t) v r v' ∧
    (r = .ok () ∧ Emptied v t v' ∨ (∃ e, r = .error e ∧ v' = v ∧ ¬ v.IsAt .file (marker t)) ∨
      ∃ e, r = .error (.output e) ∧ Thinned v t v') := by
  obtain ⟨entries, he⟩ := Volume.exists_entries h.kindAt
  have hnames : Yields (onDisk (cannotPrepare t) (Disk.names t)) v (.ok (Assoc.distinct (entries.map (·.1)))) v :=
    Yields.onDisk (Volume.names_of_isAt h he)
  cases entries with
  | nil =>
    refine ⟨.ok (), v, hnames.bind (Yields.pure () v), .inl ⟨rfl, ?_⟩⟩
    have hsame : v.putAt (v.placeOf t) (.directory []) = v := by
      rw [Volume.putAt, Files.Entry.put_of_at? he]
    have hcleared : Emptied v t (v.putAt (v.placeOf t) (.directory [])) := .cleared h (.inl he)
    rwa [hsame] at hcleared
  | cons entry entries =>
    rcases hkind : v.kindOf? (marker t) with fault | found
    · refine ⟨_, v, hnames.bind (Yields.onDisk_error (by rw [Volume.kind?_eq, hkind])).bind_error,
        .inr (.inl ⟨_, rfl, rfl, ?_⟩)⟩
      rw [← Volume.kindOf?_eq_some, hkind]
      intro hfound
      cases hfound
    · have hlook : Yields (onDisk (cannotPrepare t) (Disk.kind? (marker t))) v (.ok found) v :=
        Yields.onDisk (by rw [Volume.kind?_eq, hkind])
      by_cases hmarked : found = some .file
      · subst hmarked
        have howned := Volume.kindOf?_eq_some.1 hkind
        obtain ⟨r, rest, hdiscard, hor⟩ := exists_discarded t (Assoc.distinct ((entry :: entries).map (·.1)))
          h.noZero h.puttable he
        refine ⟨r, _, hnames.bind (hlook.bind ((Yields.log _ v).bind (hnames.bind hdiscard))), ?_⟩
        rcases hor with ⟨rfl, hall⟩ | ⟨e, rfl⟩
        · -- every name has been listed, so nothing is left
          obtain rfl : rest = [] := List.eq_nil_iff_forall_not_mem.2 fun e hm =>
            (hall e hm).2 (Assoc.mem_distinct.2 (List.mem_map_of_mem (hall e hm).1))
          exact .inl ⟨rfl, .cleared h (.inr howned)⟩
        · exact .inr (.inr ⟨e, rfl, h, howned, rest, rfl⟩)
      · refine ⟨.error (.output (.foreign t)), v, hnames.bind (hlook.bind ?_), .inr (.inl ⟨_, rfl, rfl, ?_⟩)⟩
        · split
          · exact absurd rfl hmarked
          · exact Yields.throw _ v
        · rw [← Volume.kindOf?_eq_some, hkind]
          exact fun h => hmarked (Except.ok.inj h)

/-- **What comes of preparing the target.** -/
theorem exists_prepared (v : Volume) (t : Path) : ∃ r v', Yields (prepareTarget t) v r v' ∧ Prepared v t r v' := by
  rcases hkind : v.kindOf? t with fault | found
  · refine ⟨_, v, (Yields.onDisk_error (by rw [Volume.kind?_eq, hkind])).bind_error, ?_⟩
    cases fault with
    | failed cause path => exact .unseen _
    | zeroInPath => exact .unseen _
  · have hlook : Yields (kind? t) v (.ok found) v := Yields.onDisk (by rw [Volume.kind?_eq, hkind])
    cases found with
    | none =>
      obtain ⟨r, v', hrun, hprepared⟩ := exists_started (.absent hkind)
      exact ⟨r, v', hlook.bind hrun, hprepared⟩
    | some kind => cases kind with
      | file =>
        refine ⟨_, v, hlook.bind (Yields.throw _ v).bind_error, .refused _ fun hmarked => ?_⟩
        cases (Volume.kindOf?_eq_some.1 hkind).unique (isAt_of_marked hmarked)
      | directory =>
        obtain ⟨r0, v0, hempty, ⟨rfl, hemptied⟩ | ⟨e, rfl, rfl, hunmarked⟩ | ⟨e, rfl, hthinned⟩⟩ :=
          exists_emptied (Volume.kindOf?_eq_some.1 hkind)
        · obtain ⟨r, v', hrun, hprepared⟩ := exists_started hemptied
          exact ⟨r, v', hlook.bind (hempty.bind hrun), hprepared⟩
        · exact ⟨_, _, hlook.bind hempty.bind_error, .refused e hunmarked⟩
        · exact ⟨_, _, hlook.bind hempty.bind_error, .thinned e hthinned⟩

/-! ## Writing the documents -/

/-- What comes of writing documents one after another. -/
inductive Written (t : Path) : Documents → Volume → Except RunError (List Path) → Volume → Prop
  | nil (v : Volume) : Written t [] v (.ok []) v
  /-- The directory of a document cannot be made, or the document cannot be written into it. -/
  | failed {v v1 : Volume} {segments : List String} {made : Except Fault Unit} (text : String) (rest : Documents)
    {e : RunError} (ensures : v.Ensures (t.joinAll segments).parent made v1)
    (reason : (t.joinAll segments).hasZero = true ∨ ∃ e', e = .output e') :
    Written t ((segments, text) :: rest) v (.error e) v1
  | cons {v v1 v2 v' : Volume} {segments : List String} {text : String} {rest : Documents}
    {result : Except RunError (List Path)} (ensures : v.Ensures (t.joinAll segments).parent (.ok ()) v1)
    (writes : v1.Writes (t.joinAll segments) (Text.Utf8.encode text) v2) (tail : Written t rest v2 result v') :
    Written t ((segments, text) :: rest) v (result.map (t.joinAll segments :: ·)) v'

/-- A document is written as a whole, or at most directories for it are made. -/
theorem exists_writtenDocument (v : Volume) (p : Path) (text : String) : ∃ r v', Yields (writeDocument p text) v r v' ∧
    ((∃ v1, r = .ok () ∧ v.Ensures p.parent (.ok ()) v1 ∧ v1.Writes p (Text.Utf8.encode text) v') ∨
      ∃ e made, r = .error e ∧ v.Ensures p.parent made v' ∧ (p.hasZero = true ∨ ∃ e', e = .output e')) := by
  rcases hmade : (Disk.makeDirectories p.parent : StateM Volume _) v with ⟨made, v1⟩
  have hensures := Volume.ensures_makeDirectories hmade
  have hreason : ∀ fault, (p.hasZero = false → fault ≠ .zeroInPath) → p.hasZero = true ∨
      ∃ e', Yields.failure (fun fault => .output (.cannotWrite p fault)) fault = .output e' := by
    intro fault h
    cases hzero : p.hasZero with
    | true => exact .inl rfl
    | false => exact .inr ⟨_, failure_eq (h hzero)⟩
  cases made with
  | error fault =>
    exact ⟨_, v1, (Yields.onDisk_error hmade).bind_error, .inr ⟨_, _, rfl, hensures, hreason fault fun hzero e =>
      hensures.noZero (Volume.hasZero_parent hzero) (by rw [e])⟩⟩
  | ok _ =>
    rcases hwritten : (Disk.write p (Text.Utf8.encode text) : StateM Volume _) v1 with ⟨written, v2⟩
    rcases Volume.write_cases hwritten with ⟨rfl, hwrites⟩ | ⟨fault, rfl, rfl, hfault⟩
    · exact ⟨_, v2, (Yields.onDisk hmade).bind (Yields.onDisk hwritten), .inl ⟨v1, rfl, hensures, hwrites⟩⟩
    · exact ⟨_, v2, (Yields.onDisk hmade).bind (Yields.onDisk_error hwritten), .inr ⟨_, _, rfl, hensures,
        hreason fault hfault⟩⟩

theorem exists_written (t : Path) : ∀ (documents : Documents) (v : Volume),
    ∃ r v', Yields (writeDocuments t documents) v r v' ∧ Written t documents v r v'
  | [], v => ⟨.ok [], v, Yields.pure [] v, .nil v⟩
  | (segments, text) :: rest, v => by
    obtain ⟨r0, v2, hdocument, ⟨v1, rfl, hensures, hwrites⟩ | ⟨e, made, rfl, hensures, hreason⟩⟩ :=
      exists_writtenDocument v (t.joinAll segments) text
    · obtain ⟨result, v', hrest, hwritten⟩ := exists_written t rest v2
      refine ⟨_, v', hdocument.bind ?_, .cons hensures hwrites hwritten⟩
      cases result with
      | ok paths => exact hrest.bind (Yields.pure _ v')
      | error e => exact hrest.bind_error
    · exact ⟨_, v2, hdocument.bind_error, .failed text rest hensures hreason⟩

/-! ## The whole of it -/

/-- Making the documents touches no file and fails for no reason that the output gives; they are those of the plan. -/
theorem exists_madeDocuments (σ : Type) (s : Settings) (root : Package) : ∃ r,
    (∀ v : σ, Yields (makeDocuments s root) v r v) ∧
    (∀ output, r ≠ .error (.output output)) ∧ ∀ plan, ImportPlan.ofPackage? root = some plan →
      r = (plan.written s.options root).mapError flawed := by
  cases hplan : ImportPlan.ofPackage? root with
  | none =>
    refine ⟨.error (.dump .noOrigin), fun v => ?_, by simp, by simp⟩
    rw [makeDocuments, hplan]
    exact Yields.throw _ v
  | some plan =>
    refine ⟨(plan.written s.options root).mapError flawed, fun v => ?_, fun output => ?_, fun _ h => ?_⟩
    · rw [makeDocuments, hplan]
      exact (Yields.log _ v).bind ((Yields.log _ v).bind (Yields.ofExcept _ _ v))
    · rw [ne_eq, except_mapError_error]
      rintro ⟨flaw, -, hflaw⟩
      cases flaw <;> cases hflaw
    · rw [Option.some_inj.1 h]

/-- Documents that are made are those of the plan. -/
theorem exists_plan_of_made {σ : Type} {s : Settings} {documents : Documents} {v v' : σ}
    (h : Yields (makeDocuments s root) v (.ok documents) v') : ∃ plan, ImportPlan.ofPackage? root = some plan ∧
      plan.written s.options root = .ok documents ∧ plan.documents s.options root = .ok documents := by
  cases hplan : ImportPlan.ofPackage? root with
  | none =>
    rw [makeDocuments, hplan] at h
    cases (h.unique (Yields.throw _ v)).1
  | some plan =>
    obtain ⟨r, hr, -, hwritten⟩ := exists_madeDocuments σ s root
    have hok := (hr v).unique h |>.1
    rw [hwritten plan hplan, except_mapError_ok] at hok
    exact ⟨plan, rfl, hok, (ImportPlan.written_eq_ok.1 hok).2⟩

/-- What the writing of the documents of a package comes to. -/
inductive Generated (s : Settings) (root : Package) (v : Volume) : Except RunError (List Path) → Volume → Prop
  | unplanned {e : RunError} (made : Yields (makeDocuments s root) v (.error e) v) : Generated s root v (.error e) v
  | unprepared {documents : Documents} {e : RunError} {v' : Volume}
    (made : Yields (makeDocuments s root) v (.ok documents) v) (prepared : Prepared v s.target (.error e) v') :
    Generated s root v (.error e) v'
  | written {documents : Documents} {v1 v' : Volume} {result : Except RunError (List Path)}
    (made : Yields (makeDocuments s root) v (.ok documents) v) (prepared : Prepared v s.target (.ok ()) v1)
    (run : Yields (writeDocuments s.target documents) v1 result v') (written : Written s.target documents v1 result v') :
    Generated s root v result v'

/-- **A run ends in one of the ways that are told by `Generated`.** -/
theorem exists_generated (s : Settings) (root : Package) (v : Volume) :
    ∃ r v', Yields (generate s root) v r v' ∧ Generated s root v r v' := by
  obtain ⟨made, hmade, -, -⟩ := exists_madeDocuments Volume s root
  cases made with
  | error e => exact ⟨_, v, (hmade v).bind_error, .unplanned (hmade v)⟩
  | ok documents =>
    obtain ⟨prepared, v1, hprepare, hprepared⟩ := exists_prepared v s.target
    cases prepared with
    | error e => exact ⟨_, v1, (hmade v).bind hprepare.bind_error, .unprepared (hmade v) hprepared⟩
    | ok _ =>
      obtain ⟨result, v', hwrite, hwritten⟩ := exists_written s.target documents v1
      refine ⟨result, v', (hmade v).bind (hprepare.bind ?_), .written (hmade v) hprepared hwrite hwritten⟩
      cases result with
      | ok paths => exact hwrite.bind ((Yields.log _ v').bind (Yields.pure paths v'))
      | error e => exact hwrite.bind_error

end SchemaDocs.Run
