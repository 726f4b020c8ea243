import SchemaDocs.Proofs.Attempts
import SchemaDocs.Proofs.Confinement

/-!
# Failed command lines

A command line for documents that fails leaves no half of them, on any machine. Everything that can fail before the
first write leaves all files alone (`Fails.unready`). After the target has been marked, every step lets the mark be, so
every failure to write is answered by removing what is marked (`CleanedUp`). In the end the target is as it was, or it
holds nothing (`execute_of_failed`).

Where the contract breaks is listed in `Spoil`: an error that is not about the output, as the one for a zero character
in a path, is not answered at all; and a target is not removed if it is a link, if its mark has been removed with half of
an earlier output, or if the machine has trouble with removing it.
-/

namespace SchemaDocs.Command

open Files (Path Fault Disk Machine Location StrictlyBelow)
open Files.Machine (Grows Makes Clears)
open Run (Yields Reads marker markerName emptyTarget discardEarlier discard startOutput prepareTarget writeDocument
  writeDocuments makeDocuments loadPackage keysAt)

variable {m m0 m1 m' : Machine} {s : Settings} {t : Path} {place : Location} {root : Package} {documents : Documents}

/-! ## Preparing the target -/

theorem exists_directory_of_marked (h : m.HoldsFile (marker t)) : t.hasZero = false ∧
    ∃ place entries, m.find t = .ok (place, .directory entries) := by
  obtain ⟨hzero, place, data, hfind⟩ := h
  rw [Run.marker_eq] at hfind
  have hchild : m.find (t.child markerName) = .ok (place, .file data) := hfind
  exact ⟨Run.hasZero_marker t ▸ hzero, Machine.exists_directory_of_child hchild (by decide)⟩

/-- The target is refused: it is no directory, or something is in it and it is not marked. -/
def Refuses (m : Machine) (t : Path) : Prop :=
  (Disk.kind? t : StateM Machine _) m = (.ok (some .file), m) ∨
    (Disk.kind? t : StateM Machine _) m = (.ok (some .directory), m) ∧
      (∃ names, names ≠ [] ∧ (Disk.names t : StateM Machine _) m = (.ok names, m)) ∧
        (Disk.kind? (marker t) : StateM Machine _) m ≠ (.ok (some .file), m)

theorem Refuses.not_marked (h : Refuses m t) :
    (Disk.kind? (marker t) : StateM Machine _) m ≠ (.ok (some .file), m) := by
  rcases h with hfile | ⟨-, -, hnot⟩
  · intro hmarked
    obtain ⟨hzero, place, data, hfind⟩ := Machine.holdsFile_of_kind? hfile
    obtain ⟨-, place', entries, hfind'⟩ := exists_directory_of_marked (Machine.holdsFile_of_kind? hmarked)
    cases hfind.symm.trans hfind'
  · exact hnot

/-- What has been removed from the directory at a path under the names. -/
structure Discards (m : Machine) (t : Path) (names : List String) (m' : Machine) : Prop where
  shrinks : Grows m' m
  /-- A path that leads elsewhere by then has led there before. -/
  gone : ∀ m0, Grows m m0 → ∀ place, m0.Leads t place → ∀ name ∈ names, ∀ loc, place ++ [name] <+: loc →
    m'.volume.nodeAt? loc = none

theorem Discards.cons {name : String} {names : List String} (hdrops : Machine.Drops m t name (.ok ()) m1)
    (h : Discards m1 t names m') : Discards m t (name :: names) m' where
  shrinks := h.shrinks.trans (hdrops.shrinks rfl)
  gone m0 hbefore place hplace n hn loc hloc := by
    rcases List.mem_cons.1 hn with rfl | hn
    · obtain ⟨place', hleads, hgone⟩ := hdrops.gone rfl
      obtain rfl := (hleads.of_grows hbefore).unique hplace
      exact h.shrinks.volume.nodeAt?_eq_none (hgone loc hloc)
    · exact h.gone m0 ((hdrops.shrinks rfl).trans hbefore) place hplace n hn loc hloc

/-- Names are removed from a directory one after another, until something cannot be removed. -/
theorem exists_discarded (hzero : t.hasZero = false) : ∀ (names : List String) (m : Machine),
    ∃ r m', Yields (discard (Run.cannotPrepare t) t names) m r m' ∧ m'.trouble? = m.trouble? ∧
      (r = .ok () ∧ Discards m t names m' ∨ ∃ e, r = .error (.output e))
  | [], m => ⟨_, m, Yields.pure () m, rfl, .inl ⟨rfl, .refl m, fun _ _ _ _ _ hm => by cases hm⟩⟩
  | name :: names, m => by
    rcases hstep : (Disk.discard t name : StateM Machine _) m with ⟨result, m1⟩
    have hdrops := Machine.drops_discard hstep
    cases result with
    | error fault =>
      refine ⟨_, m1, (Yields.onDisk_error hstep).bind_error, hdrops.trouble, .inr ⟨.cannotPrepare t fault, ?_⟩⟩
      rw [Run.failure_cannotPrepare fun h => hdrops.noZero hzero (by rw [h])]
    | ok _ =>
      obtain ⟨r, m', hrest, htrouble, hor⟩ := exists_discarded hzero names m1
      exact ⟨r, m', (Yields.onDisk hstep).bind hrest, htrouble.trans hdrops.trouble,
        hor.imp_left fun ⟨hr, hrest⟩ => ⟨hr, hrest.cons hdrops⟩⟩

/-- The machine before anything is made: as it was, or after a marked target has been emptied. -/
inductive Freed (m : Machine) (t : Path) : Machine → Prop
  | same : Freed m t m
  | emptied {place : Location} {m0 : Machine} (marked : m.HoldsFile (marker t)) (leads : m.Leads t place)
    (run : Yields (emptyTarget t) m (.ok ()) m0) (shrinks : Grows m0 m)
    (nothing : ∀ loc, StrictlyBelow place loc → m0.volume.nodeAt? loc = none) : Freed m t m0

/-- A directory with something in it is emptied as the output of an earlier run. -/
theorem yields_emptyTarget {names : List String} {r : Except RunError Unit}
    (hnames : Yields (Run.onDisk (Run.cannotPrepare t) (Disk.names t)) m (.ok names) m) (hempty : names.isEmpty = false)
    (h : Yields (discardEarlier t) m r m') : Yields (emptyTarget t) m r m' := by
  refine hnames.bind ?_
  rw [hempty]
  exact h

/-- A directory is emptied if it is marked, or as far as that can be done. -/
theorem exists_freed {entries : List (String × Files.Entry)} (hzero : t.hasZero = false)
    (hfind : m.find t = .ok (place, .directory entries)) : ∃ r m', Yields (emptyTarget t) m r m' ∧
      (r = .ok () ∧ Freed m t m' ∨ (∃ e, r = .error e ∧ m' = m) ∨
        ∃ e, r = .error (.output e) ∧ m.HoldsFile (marker t) ∧ m'.trouble? = m.trouble?) := by
  have hlist : (Disk.names t : StateM Machine _) m = (Files.Volume.guarded t (m.unlessTrouble .list t
      ((m.findDirectory t).map fun found => Assoc.distinct (found.2.map (·.1)))), m) := rfl
  rw [Machine.findDirectory_eq_ok.2 hfind] at hlist
  cases hnames : Files.Volume.guarded t (m.unlessTrouble .list t
      ((.ok (place, entries) : Except Files.Cause _).map fun found => Assoc.distinct (found.2.map (·.1)))) with
  | error fault =>
    rw [hnames] at hlist
    exact ⟨_, m, (Yields.onDisk_error hlist).bind_error, .inr (.inl ⟨_, rfl, rfl⟩)⟩
  | ok names =>
    rw [hnames] at hlist
    obtain rfl : Assoc.distinct (entries.map (·.1)) = names :=
      Except.ok.inj (Machine.unlessTrouble_eq_ok.1 (Files.Volume.guarded_eq_ok.1 hnames).2).2
    have hlisted : Yields (Run.onDisk (Run.cannotPrepare t) (Disk.names t)) m (.ok _) m := Yields.onDisk hlist
    cases hempty : (Assoc.distinct (entries.map (·.1))).isEmpty with
    | true =>
      refine ⟨.ok (), m, hlisted.bind ?_, .inl ⟨rfl, .same⟩⟩
      rw [hempty]
      exact Yields.pure () m
    | false =>
      have hgo {r : Except RunError Unit} {m' : Machine} (h : Yields (discardEarlier t) m r m') :
          Yields (emptyTarget t) m r m' := yields_emptyTarget hlisted hempty h
      obtain ⟨found, hkind, hcases⟩ := Machine.kind?_cases m (marker t)
      cases found with
      | error fault => exact ⟨_, m, hgo (Yields.onDisk_error hkind).bind_error, .inr (.inl ⟨_, rfl, rfl⟩)⟩
      | ok found =>
        by_cases hmarked : found = some .file
        · subst hmarked
          have hmark := Machine.holdsFile_of_kind? hkind
          obtain ⟨r, m', hdiscard, htrouble, hor⟩ := exists_discarded hzero (Assoc.distinct (entries.map (·.1))) m
          have hrun : Yields (emptyTarget t) m r m' :=
            hgo ((Yields.onDisk hkind).bind ((Yields.log _ m).bind (hlisted.bind hdiscard)))
          refine ⟨r, m', hrun, ?_⟩
          rcases hor with ⟨rfl, hdiscards⟩ | ⟨e, rfl⟩
          · refine .inl ⟨rfl, .emptied hmark ⟨_, hfind⟩ hrun hdiscards.shrinks ?_⟩
            rintro _ ⟨name, rest, rfl⟩
            -- what is there has been listed, and under another name there was nothing
            by_cases hname : name ∈ entries.map (·.1)
            · refine hdiscards.gone m (.refl m) place ⟨_, hfind⟩ name (Assoc.mem_distinct.2 hname) _ ⟨rest, ?_⟩
              rw [List.append_assoc, List.singleton_append]
            · refine hdiscards.shrinks.volume.nodeAt?_eq_none ?_
              rw [← Assoc.get?_isSome_iff, Option.not_isSome_iff_eq_none] at hname
              rw [Files.Volume.nodeAt?, Files.Entry.nodeAt?, Files.Entry.at?_append, (Machine.find_eq_ok.1 hfind).2.2,
                Option.bind_some, Files.Entry.at?_cons, hname]
              rfl
          · exact .inr (.inr ⟨e, rfl, hmark, htrouble⟩)
        · refine ⟨_, m, hgo ((Yields.onDisk hkind).bind ?_), .inr (.inl ⟨.output (.foreign t), rfl, rfl⟩)⟩
          split
          · exact absurd rfl hmarked
          · exact Yields.throw _ m

/-- What comes of preparing the target. -/
inductive Readied (m : Machine) (t : Path) : Except RunError Unit → Machine → Prop
  | untouched (e : RunError) : Readied m t (.error e) m
  /-- Something in the marked target cannot be removed. -/
  | halfway {m1 : Machine} {e : OutputError} (marked : m.HoldsFile (marker t))
    (run : Yields (emptyTarget t) m (.error (.output e)) m1) (trouble : m1.trouble? = m.trouble?) :
    Readied m t (.error (.output e)) m1
  /-- The target cannot be made, or it cannot be marked in full. -/
  | stuck {m0 m1 m' : Machine} (e : OutputError) (freed : Freed m t m0) (makes : Makes m0 t m1) (grows : Grows m1 m')
    (marked : m' = m1 ∨ m'.HoldsFile (marker t)) : Readied m t (.error (.output e)) m'
  | ready {m0 m1 m' : Machine} (freed : Freed m t m0) (makes : Makes m0 t m1) (grows : Grows m1 m')
    (marked : m'.HoldsFile (marker t)) : Readied m t (.ok ()) m'

theorem exists_readied_of_freed (hfreed : Freed m t m0) (hzero : t.hasZero = true → m0 = m) :
    ∃ r m', Yields (startOutput t) m0 r m' ∧ Readied m t r m' := by
  rcases hmade : (Disk.makeDirectories t : StateM Machine _) m0 with ⟨made, m1⟩
  have hattempts := Machine.attempts_makeDirectories hmade
  cases made with
  | error fault =>
    refine ⟨_, m1, (Yields.onDisk_error hmade).bind_error, ?_⟩
    cases hz : t.hasZero with
    | true =>
      obtain rfl := hzero hz
      obtain ⟨-, rfl⟩ := hattempts.zero hz
      exact .untouched _
    | false =>
      rw [Run.failure_cannotPrepare fun h => hattempts.noZero hz (by rw [h])]
      exact .stuck _ hfreed hattempts.makes (.refl m1) (.inl rfl)
  | ok _ =>
    have hz : t.hasZero = false := by
      rw [← Bool.not_eq_true]
      intro hz
      cases (hattempts.zero hz).1
    rcases hwritten : (Disk.write (marker t) (Text.Utf8.encode Run.markerText) : StateM Machine _) m1 with ⟨written, m2⟩
    have hputs := Machine.puts_write hwritten
    cases written with
    | ok _ => exact ⟨_, m2, (Yields.onDisk hmade).bind (Yields.onDisk hwritten),
        .ready hfreed hattempts.makes hputs.grows (hputs.ok rfl)⟩
    | error fault =>
      refine ⟨_, m2, (Yields.onDisk hmade).bind (Yields.onDisk_error hwritten), ?_⟩
      rw [Run.failure_cannotPrepare fun h => hputs.noZero (by rw [Run.hasZero_marker, hz]) (by rw [h])]
      exact .stuck _ hfreed hattempts.makes hputs.grows hputs.file

/-- **What comes of preparing the target.** -/
theorem exists_readied (m : Machine) (t : Path) : ∃ r m', Yields (prepareTarget t) m r m' ∧ Readied m t r m' := by
  obtain ⟨found, hkind, hcases⟩ := Machine.kind?_cases m t
  cases found with
  | error fault => exact ⟨_, m, (Yields.onDisk_error hkind).bind_error, .untouched _⟩
  | ok found =>
    have hlook : Yields (Run.kind? t) m (.ok found) m := Yields.onDisk hkind
    cases found with
    | none =>
      obtain ⟨r, m', hrun, hreadied⟩ := exists_readied_of_freed (m := m) (t := t) .same fun _ => rfl
      exact ⟨r, m', hlook.bind hrun, hreadied⟩
    | some kind => cases kind with
      | file => exact ⟨_, m, hlook.bind (Yields.throw _ m).bind_error, .untouched _⟩
      | directory =>
        obtain ⟨place, e, hzero, hfind, he⟩ : ∃ place e, t.hasZero = false ∧ m.find t = .ok (place, e) ∧
            (.ok (some .directory) : Except Fault (Option Files.Kind)) = .ok (some e.kind) := by
          rcases hcases with h | ⟨h, -⟩ | ⟨_, _, h⟩
          · exact h
          · cases h
          · cases h
        cases e with
        | file data => cases he
        | directory entries =>
          obtain ⟨r, m0, hempty, ⟨rfl, hfreed⟩ | ⟨e, rfl, rfl⟩ | ⟨e, rfl, hmarked, htrouble⟩⟩ :=
            exists_freed hzero hfind
          · obtain ⟨r, m', hrun, hreadied⟩ := exists_readied_of_freed hfreed fun hz => by cases hzero.symm.trans hz
            exact ⟨r, m', hlook.bind (hempty.bind hrun), hreadied⟩
          · exact ⟨_, _, hlook.bind hempty.bind_error, .untouched e⟩
          · exact ⟨_, m0, hlook.bind hempty.bind_error, .halfway hmarked hempty htrouble⟩

/-! ## Writing the documents -/

/-- Whatever comes of writing documents, everything that is there stays; they cannot be written for a reason that is
told, unless there is a zero character in a path. -/
theorem exists_grown (t : Path) : ∀ (documents : Documents) (m : Machine),
    ∃ r m', Yields (writeDocuments t documents) m r m' ∧ Grows m m' ∧
      ∀ e, r = .error e → (∃ output, e = .output output) ∨ ∃ d ∈ documents, (t.joinAll d.1).hasZero = true
  | [], m => ⟨.ok [], m, Yields.pure [] m, .refl m, nofun⟩
  | (segments, text) :: rest, m => by
    have hreason {fault : Fault} (h : (t.joinAll segments).hasZero = false → fault ≠ .zeroInPath) {e : RunError}
        (he : (.error (Yields.failure (fun fault => .output (.cannotWrite (t.joinAll segments) fault)) fault) :
          Except RunError (List Path)) = .error e) : (∃ output, e = .output output) ∨
          ∃ d ∈ (segments, text) :: rest, (t.joinAll d.1).hasZero = true := by
      cases he
      cases hzero : (t.joinAll segments).hasZero with
      | true => exact .inr ⟨_, List.mem_cons_self, hzero⟩
      | false => exact .inl ⟨_, Run.failure_eq (h hzero)⟩
    rcases hmade : (Disk.makeDirectories (t.joinAll segments).parent : StateM Machine _) m with ⟨made, m1⟩
    have hattempts := Machine.attempts_makeDirectories hmade
    cases made with
    | error fault =>
      refine ⟨_, m1, (Yields.onDisk_error hmade).bind_error.bind_error, hattempts.makes.grows, fun e he =>
        hreason (fun hzero h => hattempts.noZero (Files.Volume.hasZero_parent hzero) (by rw [h])) he⟩
    | ok _ =>
      rcases hwritten : (Disk.write (t.joinAll segments) (Text.Utf8.encode text) : StateM Machine _) m1
        with ⟨written, m2⟩
      have hputs := Machine.puts_write hwritten
      have hgrows := hattempts.makes.grows.trans hputs.grows
      cases written with
      | error fault =>
        exact ⟨_, m2, ((Yields.onDisk hmade).bind (Yields.onDisk_error hwritten)).bind_error, hgrows, fun e he =>
          hreason (fun hzero h => hputs.noZero hzero (by rw [h])) he⟩
      | ok _ =>
        obtain ⟨result, m', hrest, hgrown, hor⟩ := exists_grown t rest m2
        have hdocument : Yields (writeDocument (t.joinAll segments) text) m (.ok ()) m2 :=
          (Yields.onDisk hmade).bind (Yields.onDisk hwritten)
        cases result with
        | ok paths => exact ⟨_, m', hdocument.bind (hrest.bind (Yields.pure _ m')), hgrows.trans hgrown, nofun⟩
        | error e =>
          refine ⟨_, m', hdocument.bind hrest.bind_error, hgrows.trans hgrown, fun e' he => ?_⟩
          cases he
          exact (hor e rfl).imp_right fun ⟨d, hd, hz⟩ => ⟨d, List.mem_cons_of_mem _ hd, hz⟩

/-! ## Cleaning up -/

/-- What is left after the writing of documents has failed. -/
inductive CleanedUp (t : Path) (m : Machine) : RunError → Machine → Prop
  /-- The error is not about the output. -/
  | unanswered {e : RunError} (other : ∀ output, e ≠ .output output) : CleanedUp t m e m
  | unmarked {e : RunError} (unmarked : ¬ m.HoldsFile (marker t)) : CleanedUp t m e m
  | link {e : RunError} (link : m.isLink t = true) : CleanedUp t m e m
  | trouble {e : RunError} {m' : Machine} {trouble : Files.Trouble}
    (trouble : m.trouble? .remove t m.volume.root = some trouble) : CleanedUp t m e m'
  | removed {e : RunError} {m' : Machine} (clears : Clears m t m') : CleanedUp t m e m'

/-- The target and everything below it is as it was, but for new directories that the path of the target passes. -/
def Kept (m : Machine) (t : Path) (place : Location) (m' : Machine) : Prop := ∀ loc, place <+: loc →
  m'.linkAt? loc = m.linkAt? loc ∧ (m'.volume.nodeAt? loc = m.volume.nodeAt? loc ∨
    m.volume.nodeAt? loc = none ∧ m'.volume.nodeAt? loc = some .directory ∧ m'.OnWay t loc)

/-- The target holds nothing, but for directories that the path of the target passes. -/
def Vacant (t : Path) (place : Location) (m' : Machine) : Prop := ∀ loc, StrictlyBelow place loc →
  m'.volume.nodeAt? loc = none ∨ m'.volume.nodeAt? loc = some .directory ∧ m'.OnWay t loc

/-- Wherever the path of the target has led, or leads now, everything is as it was or nothing is there any more. -/
def Undone (m : Machine) (t : Path) (m' : Machine) : Prop :=
  ∀ place, m.Leads t place ∨ m'.Leads t place → Kept m t place m' ∨ Vacant t place m'

/-- What a failed run can leave half done. -/
inductive Spoil (m : Machine) (s : Settings) (m' : Machine) : Prop
  /-- An error about a zero character is not answered. -/
  | zero {key : String} (mem : key ∈ keysAt m s.packagePath) (zero : '\x00' ∈ key.toList)
  /-- The target is a link, which is not removed. -/
  | link (link : m'.isLink s.target = true)
  /-- An earlier output has been removed in part, and with it the mark or the way to the target. -/
  | halfway {m1 : Machine} {e : OutputError} {place : Location} (marked : m.HoldsFile (marker s.target))
    (leads : m.Leads s.target place) (run : Yields (emptyTarget s.target) m (.error (.output e)) m1)
    (lost : ¬ (m1.HoldsFile (marker s.target) ∧ m1.Leads s.target place))
  /-- An earlier output has been removed, and with it the way to the target. -/
  | astray {m0 : Machine} {place : Location} (marked : m.HoldsFile (marker s.target)) (leads : m.Leads s.target place)
    (run : Yields (emptyTarget s.target) m (.ok ()) m0) (lost : ¬ m0.Leads s.target place)
  /-- There is trouble with removing the target. -/
  | trouble {root : Files.Entry} {trouble : Files.Trouble} (trouble : m.trouble? .remove s.target root = some trouble)

theorem Undone.refl (m : Machine) (t : Path) : Undone m t m := fun _ _ => .inl fun _ _ => ⟨rfl, .inl rfl⟩

theorem Undone.of_makes (h : Makes m t m') : Undone m t m' := fun _ _ => .inl fun loc _ => ⟨h.linkAt? loc, h.nodeAt loc⟩

/-- What has been removed is gone, wherever the path of the target has led. -/
theorem Undone.of_clears (hbefore : ∀ place, m.Leads t place → m1.Leads t place) (h : Clears m1 t m') :
    Undone m t m' := by
  intro place' hplace
  obtain ⟨place, hleads, hnothing⟩ := h.nothing
  obtain rfl := hleads.unique (hplace.elim (hbefore place') (Machine.Leads.of_grows h.shrinks))
  exact .inr fun loc hloc => .inl (hnothing loc hloc)

/-- After the target has been emptied, its path leads where it led, or something is spoilt. -/
theorem Freed.leads (h : Freed m s.target m0) (hgrows : Grows m0 m1) (m' : Machine) :
    (∀ place, m.Leads s.target place → m1.Leads s.target place) ∨ Spoil m s m' := by
  cases h with
  | same => exact .inl fun _ hplace => hplace.of_grows hgrows
  | @emptied place _ marked leads run =>
    by_cases hlost : m0.Leads s.target place
    · refine .inl fun place' hplace => ?_
      obtain rfl := leads.unique hplace
      exact hlost.of_grows hgrows
    · exact .inr (.astray marked leads run hlost)

theorem Freed.trouble (h : Freed m t m0) : m0.trouble? = m.trouble? := by
  cases h with
  | same => rfl
  | emptied _ _ _ shrinks => exact shrinks.trouble.symm

/-- When the target has been emptied but nothing has been written, it is as it was, or nothing is in it. -/
theorem Freed.undone_or_spoil (h : Freed m s.target m0) (hmakes : Makes m0 s.target m1) :
    Undone m s.target m1 ∨ Spoil m s m1 := by
  rcases h.leads hmakes.grows m1 with hbefore | hspoil
  · cases h with
    | same => exact .inl (.of_makes hmakes)
    | emptied _ leads _ _ nothing =>
      refine .inl fun place' hplace => ?_
      obtain rfl := (hbefore _ leads).unique (hplace.elim (hbefore place') id)
      refine .inr fun loc hloc => ?_
      rcases hmakes.nodeAt loc with hsame | ⟨-, hmade, hway⟩
      · exact .inl (hsame.trans (nothing loc hloc))
      · exact .inr ⟨hmade, hway⟩
  · exact .inr hspoil

/-- An error about the output is answered, unless something is spoilt. -/
theorem CleanedUp.undone_or_spoil {output : OutputError} (h : CleanedUp s.target m1 (.output output) m')
    (hbefore : ∀ place, m.Leads s.target place → m1.Leads s.target place) (htrouble : m1.trouble? = m.trouble?)
    (hunmarked : ¬ m1.HoldsFile (marker s.target) → Undone m s.target m1 ∨ Spoil m s m1) :
    Undone m s.target m' ∨ Spoil m s m' := by
  cases h with
  | unanswered other => exact absurd rfl (other output)
  | unmarked unmarked => exact hunmarked unmarked
  | link link => exact .inr (.link link)
  | trouble trouble => exact .inr (.trouble (htrouble ▸ trouble))
  | removed clears => exact .inl (.of_clears hbefore clears)

theorem Readied.undone_or_spoil {e : RunError} (h : Readied m s.target (.error e) m1)
    (hcleaned : CleanedUp s.target m1 e m') : Undone m s.target m' ∨ Spoil m s m' := by
  cases h with
  | untouched => cases hcleaned with
    | unanswered | unmarked | link => exact .inl (.refl m s.target)
    | trouble trouble => exact .inr (.trouble trouble)
    | removed clears => exact .inl (.of_clears (fun _ => id) clears)
  | halfway marked run trouble =>
    obtain ⟨-, place, entries, hfind⟩ := exists_directory_of_marked marked
    by_cases hlost : m1.HoldsFile (marker s.target) ∧ m1.Leads s.target place
    · refine hcleaned.undone_or_spoil (fun place' hplace => ?_) trouble fun hnot => absurd hlost.1 hnot
      obtain rfl := hplace.unique ⟨_, hfind⟩
      exact hlost.2
    · exact .inr (.halfway marked ⟨_, hfind⟩ run hlost)
  | stuck e freed makes grows marked =>
    rcases freed.leads (makes.grows.trans grows) m' with hbefore | hspoil
    · refine hcleaned.undone_or_spoil hbefore ((makes.grows.trans grows).trouble.trans freed.trouble) fun hnot => ?_
      obtain rfl := marked.resolve_right hnot
      exact freed.undone_or_spoil makes
    · exact .inr hspoil

/-! ## Failed command lines -/

/-- Everything is ready for the first change: the documents can be made, and the target is not refused. -/
def Ready (m : Machine) (s : Settings) : Prop := ∃ root documents,
  Yields (loadPackage s.packagePath) m (.ok root) m ∧ Yields (makeDocuments s root) m (.ok documents) m ∧
    ¬ Refuses m s.target

/-- What is refused is not touched. -/
theorem Refuses.prepareTarget (h : Refuses m t) : ∃ e, Yields (prepareTarget t) m (.error e) m := by
  rcases h with hfile | ⟨hkind, ⟨names, hnil, hnames⟩, hnot⟩
  · exact ⟨_, (Yields.onDisk hfile).bind (Yields.throw _ m).bind_error⟩
  · have hlisted : Yields (Run.onDisk (Run.cannotPrepare t) (Disk.names t)) m (.ok names) m := Yields.onDisk hnames
    have hempty : names.isEmpty = false := by simpa using hnil
    have hgo {e : RunError} (h : Yields (discardEarlier t) m (.error e) m) :
        Yields (Run.prepareTarget t) m (.error e) m :=
      (Yields.onDisk hkind).bind (yields_emptyTarget hlisted hempty h).bind_error
    obtain ⟨found, hlook, -⟩ := Machine.kind?_cases m (marker t)
    cases found with
    | error fault => exact ⟨_, hgo (Yields.onDisk_error hlook).bind_error⟩
    | ok found =>
      refine ⟨.output (.foreign t), hgo ((Yields.onDisk hlook).bind ?_)⟩
      split
      · exact absurd hlook hnot
      · exact Yields.throw _ m

/-- How the writing of documents fails: how it has to be cleaned up after. -/
structure Fails (m : Machine) (s : Settings) (e : RunError) (m1 : Machine) : Prop where
  unready : ¬ Ready m s → m1 = m ∧ ((∀ output, e ≠ .output output) ∨
    (Disk.kind? (marker s.target) : StateM Machine _) m ≠ (.ok (some .file), m))
  cleaned : ∀ m', CleanedUp s.target m1 e m' → Undone m s.target m' ∨ Spoil m s m'

theorem Fails.of_untouched {e : RunError} (h : ∀ output, e ≠ .output output) : Fails m s e m where
  unready _ := ⟨rfl, .inl h⟩
  cleaned _ hcleaned := (Readied.untouched e).undone_or_spoil hcleaned

theorem exists_generated (hload : Yields (loadPackage s.packagePath) m (.ok root) m) :
    ∃ r m1, Yields (Run.generate s root) m r m1 ∧ (r.isOk = true ∨ ∃ e, r = .error e ∧ Fails m s e m1) := by
  obtain ⟨made, hmade, hother, -⟩ := Run.exists_madeDocuments Machine s root
  cases made with
  | error e =>
    exact ⟨_, m, (hmade m).bind_error, .inr ⟨e, rfl, .of_untouched fun output h => hother output (by rw [h])⟩⟩
  | ok documents =>
    have hrefuses (hready : ¬ Ready m s) : Refuses m s.target :=
      Classical.not_not.1 fun hnot => hready ⟨root, documents, hload, hmade m, hnot⟩
    obtain ⟨prepared, m1, hprepare, hreadied⟩ := exists_readied m s.target
    cases prepared with
    | error e =>
      refine ⟨_, m1, (hmade m).bind hprepare.bind_error,
        .inr ⟨e, rfl, fun hready => ?_, fun _ => hreadied.undone_or_spoil⟩⟩
      obtain ⟨e', hrefused⟩ := (hrefuses hready).prepareTarget
      exact ⟨(hprepare.unique hrefused).2, .inr (hrefuses hready).not_marked⟩
    | ok _ =>
      obtain ⟨r, m2, hwrite, hgrows, hreason⟩ := exists_grown s.target documents m1
      cases r with
      | ok paths =>
        exact ⟨_, m2, (hmade m).bind (hprepare.bind (hwrite.bind
          ((Yields.log _ m2).bind (Yields.pure paths m2)))), .inl rfl⟩
      | error e =>
        refine ⟨_, m2, (hmade m).bind (hprepare.bind hwrite.bind_error),
          .inr ⟨e, rfl, fun hready => ?_, fun m' hcleaned => ?_⟩⟩
        · obtain ⟨e', hrefused⟩ := (hrefuses hready).prepareTarget
          cases (hprepare.unique hrefused).1
        · cases hreadied with
          | ready freed makes grows marked =>
            rcases hreason e rfl with ⟨output, rfl⟩ | ⟨d, hd, hzero⟩
            · have hall := (makes.grows.trans grows).trans hgrows
              rcases freed.leads hall m' with hbefore | hspoil
              · exact hcleaned.undone_or_spoil hbefore (hall.trouble.trans freed.trouble) fun hnot =>
                  absurd (marked.of_grows hgrows) hnot
              · exact .inr hspoil
            · rcases Path.hasZero_joinAll hzero with hz | ⟨segment, hm, hz⟩
              · cases (Run.hasZero_marker s.target ▸ marked.1 : s.target.hasZero = false).symm.trans hz
              · obtain ⟨directory, file, hspelled⟩ :=
                  (Run.exists_spelled_of_made hload (hmade m)).2 d.1 (List.mem_map_of_mem hd)
                obtain ⟨key, hkey, hmem⟩ := hspelled.mem_key hm (by
                  rw [Dump.mem_nameChars]
                  cases s.options.format <;> decide) hz
                exact .inr (.zero hkey hmem)

end SchemaDocs.Command
