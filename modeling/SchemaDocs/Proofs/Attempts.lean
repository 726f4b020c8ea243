import SchemaDocs.Proofs.Machines

/-!
# What operations leave of a machine

What comes of the operations that change a machine, whether they succeed or fail: making the directories of a path only
makes directories on the way along it (`Makes`), and a file that has been written, be it in part, is found at its path
(`Puts`). Removing is the only operation after which a path can lead nowhere, and it never leads one elsewhere: the
machine before has grown from the one after (`Drops`, `Clears`).
-/

namespace SchemaDocs.Files.Machine

open Volume (guarded guardedIn)

variable {m m1 m' m'' : Machine} {p : Path} {place loc start : Location} {e new : Entry} {depth : Nat}
  {segments front : List String} {entries : List (String × Entry)} {name : String}

/-! ## Putting -/

theorem linkAt?_putAt (m : Machine) (place : Location) (new : Entry) (hloc : ¬ place <+: loc)
    (hput : Entry.Puttable place m.volume.root) : (m.putAt place new).linkAt? loc = m.linkAt? loc := by
  have hnode : (m.putAt place new).volume.kindAt? loc = m.volume.kindAt? loc := congrArg _ (Entry.nodeAt?_put hput hloc)
  rw [linkAt?_eq, linkAt?_eq, hnode]
  simp [putAt, renew, hloc]

/-- Putting a new file or a new directory somewhere, or another file in the place of a file, lets everything else be. -/
theorem grows_putAt (hchange : Volume.Change (fun _ => True) (fun _ => True) m.volume (m.volume.putAt place new))
    (hput : Entry.Puttable place m.volume.root) (hdirectory : m.volume.kindAt? place ≠ some .directory)
    (hlink : m.linkAt? place = none) : Grows m (m.putAt place new) where
  volume := hchange.grows
  linkAt loc hloc := by
    by_cases hunder : place <+: loc
    · rcases eq_or_strictlyBelow hunder with rfl | ⟨name, rest, rfl⟩
      · rw [hlink, linkAt?_eq]
        simp [putAt, renew]
      · exact absurd (Volume.kindAt?_above hloc) hdirectory
    · exact linkAt?_putAt m place new hunder hput
  trouble := rfl

/-! ## Making directories -/

/-- Directories have been made on the way along a path, where nothing was. -/
structure Makes (m : Machine) (p : Path) (m' : Machine) : Prop where
  grows : Grows m m'
  nodeAt : ∀ loc, m'.volume.nodeAt? loc = m.volume.nodeAt? loc ∨
    m.volume.nodeAt? loc = none ∧ m'.volume.nodeAt? loc = some .directory ∧ m'.OnWay p loc

namespace Makes

theorem linkAt? (h : Makes m p m') (loc : Location) : m'.linkAt? loc = m.linkAt? loc := by
  cases hloc : (m.volume.kindAt? loc).isSome with
  | true => exact h.grows.linkAt loc hloc
  | false =>
    rw [Option.isSome_eq_false_iff, Option.isNone_iff_eq_none] at hloc
    have hnot : m'.volume.kindAt? loc ≠ some .file := by
      rcases h.nodeAt loc with hsame | ⟨-, hmade, -⟩
      · rw [Volume.kindAt?, hsame, ← Volume.kindAt?, hloc]
        decide
      · rw [Volume.kindAt?_eq_directory.2 hmade]
        decide
    rw [linkAt?_eq, linkAt?_eq, hloc, if_neg hnot, if_neg (by decide)]

theorem refl (m : Machine) (p : Path) : Makes m p m := ⟨.refl m, fun _ => .inl rfl⟩

theorem trans (h : Makes m p m') (h' : Makes m' p m'') : Makes m p m'' where
  grows := h.grows.trans h'.grows
  nodeAt loc := by
    rcases h'.nodeAt loc with hsame | ⟨hnone, hmade, hway⟩
    · rw [hsame]
      exact (h.nodeAt loc).imp_right fun ⟨hnone, hmade, hway⟩ => ⟨hnone, hmade, hway.of_grows h'.grows⟩
    · rcases h.nodeAt loc with hsame | ⟨-, hdirectory, -⟩
      · exact .inr ⟨hsame ▸ hnone, hmade, hway⟩
      · rw [hdirectory] at hnone
        cases hnone

theorem of_parent (h : Makes m p.parent m') : Makes m p m' where
  grows := h.grows
  nodeAt loc := (h.nodeAt loc).imp_right fun ⟨hnone, hmade, front, hfront, hfollow⟩ =>
    ⟨hnone, hmade, front, hfront.trans (List.dropLast_prefix _), hfollow⟩

end Makes

theorem follow_concat {next : Location} (hfront : m.follow (depth + 1) start front = .ok place)
    (hstep : Volume.step m.volume.root place name = .ok next) (hlink : m.linkAt? next = none) :
    m.follow (depth + 1) start (front ++ [name]) = .ok next := by
  rw [follow_succ, List.foldlM_append]
  refine except_bind_ok.2 ⟨place, hfront, ?_⟩
  rw [List.foldlM_cons]
  refine except_bind_ok.2 ⟨next, except_bind_ok.2 ⟨next, hstep, ?_⟩, rfl⟩
  rw [hlink]
  rfl

theorem makes_of_makeDirectory (h : m.makeDirectory p = .ok m') : Makes m p m' := by
  rw [makeDirectory] at h
  obtain ⟨found, hfound, h⟩ := except_bind_ok.1 h
  split at h
  · cases h
  · rename_i place entries name
    split at h
    · cases h
    · rename_i hnew
      cases h
      have hparent : m.parentOf (mostLinks + 1) (m.volume.start p) p.segments = .ok (some (place, entries, name)) := by
        rw [findParent] at hfound
        split at hfound
        · cases hfound
        · exact hfound
      obtain ⟨front, hsegments, hfollow, he, hup, hlength⟩ := parentOf_eq_ok.1 hparent
      have hput : Entry.Puttable (place ++ [name]) m.volume.root :=
        Entry.puttable_append (by rw [Entry.nodeAt?, he]; rfl) name
      have hnone : m.volume.kindAt? (place ++ [name]) = none := by
        rw [Volume.kindAt?, Volume.nodeAt?, Entry.nodeAt?, Entry.at?_append, he, Option.bind_some, Entry.at?_cons]
        rw [Assoc.has, Bool.not_eq_true, Option.isSome_eq_false_iff, Option.isNone_iff_eq_none] at hnew
        rw [hnew]
        rfl
      have hgrows : Grows m (m.putAt (place ++ [name]) (.directory [])) :=
        grows_putAt (.directory hput hnone trivial) hput (by rw [hnone]; decide) (by rw [linkAt?_eq, hnone]; rfl)
      have hnode (loc : Location) := Volume.nodeAt?_putAt Entry.isBare_directory hput (by rw [hnone]; decide) loc
      refine ⟨hgrows, fun loc => ?_⟩
      by_cases hat : loc = place ++ [name]
      · subst hat
        refine .inr ⟨Option.map_eq_none_iff.1 hnone, (hnode _).trans (if_pos rfl), front ++ [name], ?_, ?_⟩
        · exact hsegments ▸ List.prefix_refl _
        · have hdirectory :
              (m.putAt (place ++ [name]) (.directory [])).volume.kindAt? (place ++ [name]) = some .directory :=
            Volume.kindAt?_eq_directory.2 ((hnode _).trans (if_pos rfl))
          refine follow_concat (follow_of_grows hgrows hfollow) (Volume.step_eq_ok.2 ⟨?_, fun _ => ⟨hlength, ?_⟩,
            walk_name hup _⟩) ?_
          · exact hgrows.volume.kindAt _ _ (Volume.kindAt?_of_at? he)
          · rw [hdirectory, Option.isSome_some]
          · rw [linkAt?_eq, hdirectory, if_neg (by decide)]
      · exact .inl ((hnode loc).trans (if_neg hat))

/-- What comes of an attempt to make the directories of a path. -/
structure Attempts (m : Machine) (p : Path) (result : Except Fault Unit) (m' : Machine) : Prop where
  makes : Makes m p m'
  zero : p.hasZero = true → result = .error .zeroInPath ∧ m' = m
  noZero : p.hasZero = false → result ≠ .error .zeroInPath

theorem attempts_makeDirectory {result : Except Fault Unit}
    (h : (Disk.makeDirectory p : StateM Machine _) m = (result, m')) : Attempts m p result m' := by
  have heq : (Disk.makeDirectory p : StateM Machine _) m =
      changing (fun m => guarded p (m.unlessTrouble .make p (m.makeDirectory p))) id m := rfl
  rw [heq, changing] at h
  cases hmade : guarded p (m.unlessTrouble .make p (m.makeDirectory p)) with
  | ok made =>
    rw [hmade] at h
    cases h
    obtain ⟨hnoZero, hdone⟩ := Volume.guarded_eq_ok.1 hmade
    exact ⟨makes_of_makeDirectory (unlessTrouble_eq_ok.1 hdone).2,
      fun hz => absurd (hnoZero.symm.trans hz) Bool.false_ne_true, fun _ => nofun⟩
  | error fault =>
    rw [hmade] at h
    have hsame : m' = m := by
      cases h
      simp
    obtain rfl : Except.error fault = result := congrArg Prod.fst h
    subst hsame
    rcases Volume.guarded_eq_error.1 hmade with ⟨hz, rfl⟩ | ⟨hz, _, _, rfl⟩
    · exact ⟨.refl _ p, fun _ => ⟨rfl, rfl⟩, fun hno => absurd (hno.symm.trans hz) Bool.false_ne_true⟩
    · exact ⟨.refl _ p, fun hzero => absurd (hz.symm.trans hzero) Bool.false_ne_true, fun _ => nofun⟩

theorem attempts_ensureDirectory {result : Except Fault Unit}
    (h : (Disk.ensureDirectory p : StateM Machine _) m = (result, m')) : Attempts m p result m' := by
  rw [Disk.ensureDirectory, stateM_bind] at h
  rcases hmade : (Disk.makeDirectory p : StateM Machine _) m with ⟨r, m1⟩
  have hattempts := attempts_makeDirectory hmade
  rw [hmade] at h
  have hlook {fault : Fault} (hr : r = .error fault) (hfault : fault ≠ .zeroInPath)
      (h : (Disk.unlessDirectory p fault : StateM Machine _) m1 = (result, m')) : Attempts m p result m' := by
    have hzero : p.hasZero = false := by
      rw [← Bool.not_eq_true]
      exact fun hz => hfault (Except.error.inj (hr.symm.trans (hattempts.zero hz).1))
    rw [Disk.unlessDirectory, stateM_bind] at h
    rcases hk : (Disk.kind? p : StateM Machine _) m1 with ⟨found, m2⟩
    obtain rfl : m2 = m1 := by
      have := Run.Looks.kind? p m1
      rwa [hk] at this
    rw [hk] at h
    have hend : m' = m2 ∧ result ≠ .error .zeroInPath := by
      dsimp only at h
      split at h <;> cases h
      · exact ⟨rfl, by simp⟩
      · exact ⟨rfl, fun heq => hfault (Except.error.inj heq)⟩
    rw [hend.1]
    exact ⟨hattempts.makes, fun hz => absurd (hzero.symm.trans hz) Bool.false_ne_true, fun _ => hend.2⟩
  rcases r with fault | _
  · rcases fault with ⟨cause, q⟩ | _
    · cases cause with
      | notFound =>
        cases h
        exact hattempts
      | _ => exact hlook rfl (by simp) h
    · cases h
      exact hattempts
  · cases h
    exact hattempts

theorem attempts_ensureDirectories : ∀ (depth : Nat) {m m' : Machine} {p : Path} {result : Except Fault Unit},
    (Disk.ensureDirectories depth p : StateM Machine _) m = (result, m') → Attempts m p result m'
  | 0, _, _, _, _, h => attempts_ensureDirectory h
  | depth + 1, m, m', p, result, h => by
    rw [Disk.ensureDirectories, stateM_bind] at h
    rcases hr0 : (Disk.ensureDirectory p : StateM Machine _) m with ⟨r0, m0⟩
    have h0 := attempts_ensureDirectory hr0
    rw [hr0] at h
    dsimp only at h
    split at h
    · have hzero : p.hasZero = false := by
        rw [← Bool.not_eq_true]
        intro hz
        cases (h0.zero hz).1
      have hnot {r : Except Fault Unit} {w : Machine} (hz : p.hasZero = true) : r = .error .zeroInPath ∧ w = m := by
        cases hzero.symm.trans hz
      rw [stateM_bind] at h
      rcases hr1 : (Disk.ensureDirectories depth p.parent : StateM Machine _) m0 with ⟨r1, m1⟩
      have h1 := attempts_ensureDirectories depth hr1
      rw [hr1] at h
      cases r1 with
      | ok _ =>
        have h2 := attempts_ensureDirectory h
        exact ⟨h0.makes.trans (h1.makes.of_parent.trans h2.makes), hnot, h2.noZero⟩
      | error fault =>
        cases h
        exact ⟨h0.makes.trans h1.makes.of_parent, hnot, fun _ => h1.noZero (Volume.hasZero_parent hzero)⟩
    · cases h
      exact h0

/-- **Making the directories of a path** only makes directories on the way along it, whatever comes of it. -/
theorem attempts_makeDirectories {result : Except Fault Unit}
    (h : (Disk.makeDirectories p : StateM Machine _) m = (result, m')) : Attempts m p result m' :=
  attempts_ensureDirectories _ h

/-! ## Writing -/

theorem exists_of_aim : ∀ {depth : Nat} {start : Location} {segments : List String} {place : Location},
    m.aim depth start segments = .ok place → m.linkAt? place = none ∧ Entry.Puttable place m.volume.root
  | 0, _, _, _, h => by cases h
  | depth + 1, start, segments, place, h => by
    rw [aim] at h
    obtain ⟨found, hfound, h⟩ := except_bind_ok.1 h
    split at h
    · cases h
    · rename_i above entries name
      obtain ⟨front, -, -, he, -⟩ := parentOf_eq_ok.1 hfound
      split at h
      · rename_i hlink
        cases h
        exact ⟨hlink, Entry.puttable_append (by rw [Entry.nodeAt?, he]; rfl) name⟩
      · exact exists_of_aim h

/-- Where a file has been opened for writing, it is found. -/
theorem follow_of_aim (hgrows : Grows m m') {target : Location} (hfile : m'.volume.kindAt? target = some .file)
    (hlink : m'.linkAt? target = none) : ∀ {depth : Nat} {start : Location} {segments : List String},
    m.aim depth start segments = .ok target → m'.follow depth start segments = .ok target
  | 0, _, _, h => by cases h
  | depth + 1, start, segments, h => by
    rw [aim] at h
    obtain ⟨found, hfound, h⟩ := except_bind_ok.1 h
    split at h
    · cases h
    · rename_i above entries name
      obtain ⟨front, hsegments, hfollow, he, hup, hlength⟩ := parentOf_eq_ok.1 hfound
      rw [hsegments]
      have hfront := follow_of_grows hgrows hfollow
      have hstep (hsome : (m'.volume.kindAt? (above ++ [name])).isSome = true) :
          Volume.step m'.volume.root above name = .ok (above ++ [name]) :=
        Volume.step_eq_ok.2 ⟨hgrows.volume.kindAt _ _ (Volume.kindAt?_of_at? he), fun _ => ⟨hlength, hsome⟩,
          walk_name hup _⟩
      split at h
      · cases h
        exact follow_concat hfront (hstep (by rw [hfile, Option.isSome_some])) hlink
      · rename_i q hq
        have hsome : (m.volume.kindAt? (above ++ [name])).isSome = true := by
          rw [linkAt?_eq] at hq
          split at hq
          · rw [‹m.volume.kindAt? _ = _›, Option.isSome_some]
          · cases hq
        rw [follow_succ, List.foldlM_append]
        refine except_bind_ok.2 ⟨above, hfront, ?_⟩
        rw [List.foldlM_cons]
        refine except_bind_ok.2 ⟨target, except_bind_ok.2 ⟨_, hstep (hgrows.isSome hsome), ?_⟩, rfl⟩
        rw [hgrows.linkAt _ hsome, hq]
        exact follow_of_aim hgrows hfile hlink h

/-- A file that has been written is found at its path. -/
theorem holdsFile_of_write {data : List UInt8} (hzero : p.hasZero = false) (h : m.write p data = .ok m') :
    Grows m m' ∧ m'.HoldsFile p := by
  rw [write] at h
  split at h
  · cases h
  · rename_i hshort
    obtain ⟨place, haim, h⟩ := except_bind_ok.1 h
    obtain ⟨hlink, hput⟩ := exists_of_aim haim
    split at h
    · cases h
    · rename_i hdirectory
      cases h
      have hkind : m.volume.kindAt? place ≠ some .directory := fun hkind => by
        obtain ⟨entries, he⟩ := Volume.exists_entries hkind
        exact hdirectory entries he
      have hgrows : Grows m (m.putAt place (.file data)) :=
        grows_putAt (.file data hput hkind trivial) hput hkind hlink
      have hat := Entry.at?_put (.file data) hput []
      rw [List.append_nil, Entry.at?_nil] at hat
      have hfile : (m.putAt place (.file data)).volume.kindAt? place = some .file :=
        (Volume.kindAt?_of_at? (v := m.volume.putAt place (.file data)) hat).trans rfl
      have hunlinked : (m.putAt place (.file data)).linkAt? place = none := by
        rw [linkAt?_eq, hfile]
        simp [putAt, renew]
      exact ⟨hgrows, hzero, place, data,
        find_eq_ok.2 ⟨Nat.not_le.1 hshort, follow_of_aim hgrows hfile hunlinked haim, hat⟩⟩

/-- What comes of an attempt to write a file: nothing, or at least a part of the file is there. -/
structure Puts (m : Machine) (p : Path) (result : Except Fault Unit) (m' : Machine) : Prop where
  grows : Grows m m'
  file : m' = m ∨ m'.HoldsFile p
  ok : result = .ok () → m'.HoldsFile p
  noZero : p.hasZero = false → result ≠ .error .zeroInPath

theorem puts_write {data : List UInt8} {result : Except Fault Unit}
    (h : (Disk.write p data : StateM Machine _) m = (result, m')) : Puts m p result m' := by
  have heq : (Disk.write p data : StateM Machine _) m =
      changing (fun m => guarded p (m.unlessTrouble .write p (m.write p data))) (fun m => m.torn p) m := rfl
  rw [heq, changing] at h
  cases hwritten : guarded p (m.unlessTrouble .write p (m.write p data)) with
  | ok written =>
    rw [hwritten] at h
    cases h
    obtain ⟨hzero, hdone⟩ := Volume.guarded_eq_ok.1 hwritten
    obtain ⟨hgrows, hfile⟩ := holdsFile_of_write hzero (unlessTrouble_eq_ok.1 hdone).2
    exact ⟨hgrows, .inr hfile, fun _ => hfile, fun _ => nofun⟩
  | error fault =>
    rw [hwritten] at h
    obtain rfl : Except.error fault = result := congrArg Prod.fst h
    obtain rfl : (if fault = .zeroInPath then m else m.torn p) = m' := congrArg Prod.snd h
    rcases Volume.guarded_eq_error.1 hwritten with ⟨hz, rfl⟩ | ⟨hzero, _, _, rfl⟩
    · exact ⟨.refl m, .inl rfl, nofun, fun hno => absurd (hno.symm.trans hz) Bool.false_ne_true⟩
    · have htorn : Grows m (m.torn p) ∧ (m.torn p = m ∨ (m.torn p).HoldsFile p) := by
        rw [torn]
        split
        · rename_i part _
          cases hpart : m.write p part with
          | error cause => exact ⟨.refl m, .inl rfl⟩
          | ok written =>
            obtain ⟨hgrows, hfile⟩ := holdsFile_of_write hzero hpart
            exact ⟨hgrows, .inr hfile⟩
        · exact ⟨.refl m, .inl rfl⟩
      exact ⟨htorn.1, htorn.2, nofun, fun _ => nofun⟩

/-! ## Removing -/

/-- Nothing has come up, and what is left leads where it led. -/
theorem grows_renew {volume : Volume} (hwork : volume.work = m.volume.work)
    (hfollows : volume.follows = m.volume.follows)
    (hkind : ∀ loc kind, volume.kindAt? loc = some kind → m.volume.kindAt? loc = some kind)
    (hgone : ∀ loc, place <+: loc → (volume.kindAt? loc).isSome = true → m.linkAt? loc = none) :
    Grows (m.renew place volume) m where
  volume := ⟨hwork.symm, hfollows.symm, hkind⟩
  linkAt loc hloc := by
    have hrenewed : (m.renew place volume).linkAt? loc =
        if volume.kindAt? loc = some .file then if place.isPrefixOf loc then none else m.link? loc else none :=
      linkAt?_eq _ loc
    rw [hrenewed]
    by_cases hunder : place <+: loc
    · rw [hgone loc hunder hloc]
      simp [hunder]
    · obtain ⟨kind, hkindAt⟩ := Option.isSome_iff_exists.1 hloc
      have hkindAt : volume.kindAt? loc = some kind := hkindAt
      rw [linkAt?_eq, hkindAt, hkind loc kind hkindAt]
      simp [hunder]
  trouble := rfl

theorem findIn_eq_ok : m.findIn p name = .ok (place, entries, e) →
    m.find p = .ok (place, .directory entries) ∧ Assoc.get? name entries = some e := by
  rw [findIn]
  intro h
  split at h
  · cases h
  · obtain ⟨⟨place', entries'⟩, hfound, h⟩ := except_bind_ok.1 h
    dsimp only at h
    split at h
    · rename_i hget
      cases h
      exact ⟨findDirectory_eq_ok.1 hfound, hget⟩
    · cases h

/-- What comes of an attempt to remove what is in the directory at a path under a name. -/
structure Drops (m : Machine) (p : Path) (name : String) (result : Except Fault Unit) (m' : Machine) : Prop where
  trouble : m'.trouble? = m.trouble?
  shrinks : result = .ok () → Grows m' m
  gone : result = .ok () → ∃ place, m.Leads p place ∧ ∀ loc, place ++ [name] <+: loc → m'.volume.nodeAt? loc = none
  noZero : p.hasZero = false → result ≠ .error .zeroInPath

theorem drops_dropAt (h : m.findIn p name = .ok (place, entries, e)) :
    Drops m p name (.ok ()) (m.dropAt place entries name) := by
  have hfind := (findIn_eq_ok h).1
  have he := (find_eq_ok.1 hfind).2.2
  have hnode (loc : Location) : (m.volume.dropAt place entries name).nodeAt? loc =
      if place ++ [name] <+: loc then none else m.volume.nodeAt? loc := Volume.nodeAt?_dropAt he name loc
  refine ⟨rfl, fun _ => grows_renew rfl rfl (fun loc kind hkind => ?_) fun loc hunder hsome => ?_,
    fun _ => ⟨place, ⟨_, hfind⟩, fun loc hloc => (hnode loc).trans (if_pos hloc)⟩, fun _ => nofun⟩
  · rw [Volume.kindAt?, hnode] at hkind
    split at hkind
    · cases hkind
    · exact hkind
  · rw [Volume.kindAt?, hnode, if_pos hunder] at hsome
    cases hsome

theorem drops_discard {result : Except Fault Unit}
    (h : (Disk.discard p name : StateM Machine _) m = (result, m')) : Drops m p name result m' := by
  have hchanging (change : Machine → Except Cause Machine) {failed : Machine → Machine}
      (hdrops : ∀ w, change m = .ok w → Drops m p name (.ok ()) w) (hfailed : (failed m).trouble? = m.trouble?)
      (h : changing (fun m => guardedIn p name (m.unlessTrouble .remove (p.child name) (change m))) failed m =
        (result, m')) : Drops m p name result m' := by
    rw [changing] at h
    split at h <;> rename_i hchange <;> cases h
    · exact hdrops _ (unlessTrouble_eq_ok.1 (Volume.guardedIn_eq_ok.1 hchange).2).2
    · refine ⟨?_, nofun, nofun, fun hzero hfault => Volume.guardedIn_eq_error hchange hzero (Except.error.inj hfault)⟩
      split
      · rfl
      · exact hfailed
  have hlook : (Disk.isTree p name : StateM Machine _) m =
      (guardedIn p name (m.unlessTrouble .look (p.child name) (m.isTree p name)), m) := rfl
  rw [Disk.discard, stateM_bind, hlook] at h
  rcases htree : guardedIn p name (m.unlessTrouble .look (p.child name) (m.isTree p name)) with fault | tree
  · rw [htree] at h
    cases h
    exact ⟨rfl, nofun, nofun, fun hzero hfault => Volume.guardedIn_eq_error htree hzero (Except.error.inj hfault)⟩
  · rw [htree] at h
    cases tree with
    | true =>
      refine hchanging (fun m => m.removeTree p name) (fun w hw => ?_) ?_ h
      · obtain ⟨⟨place, entries, e⟩, hfound, hw⟩ := except_bind_ok.1 hw
        cases e with
        | file data => cases hw
        | directory inner =>
          cases hw
          exact drops_dropAt hfound
      · rw [wrecked]
        split <;> rfl
    | false =>
      refine hchanging (fun m => m.unlink p name) (fun w hw => ?_) rfl h
      obtain ⟨⟨place, entries, e⟩, hfound, hw⟩ := except_bind_ok.1 hw
      cases e with
      | directory inner => cases hw
      | file data =>
        cases hw
        exact drops_dropAt hfound

/-- What the path leads to has been removed, or at least what is in it. -/
structure Clears (m : Machine) (p : Path) (m' : Machine) : Prop where
  shrinks : Grows m' m
  nothing : ∃ place, m.Leads p place ∧ ∀ loc, StrictlyBelow place loc → m'.volume.nodeAt? loc = none

end SchemaDocs.Files.Machine
