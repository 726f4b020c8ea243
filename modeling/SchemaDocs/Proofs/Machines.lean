import SchemaDocs.Files.Machine
import SchemaDocs.Proofs.Disks
import SchemaDocs.Proofs.Runs

/-!
# Paths on machines

With links, where a path leads is a matter of the files, but it stays the same as long as what stands on its way does:
what files and directories are made beside the links does not lead a path elsewhere (`find_of_grows`).
-/

namespace SchemaDocs.Files.Machine

open Volume (guarded guardedIn)

variable {m m1 m' m'' : Machine} {p : Path} {place loc start : Location} {e new : Entry} {depth : Nat}
  {segments front : List String} {entries : List (String × Entry)} {name : String} {α : Type}

/-! ## Links -/

theorem linkAt?_eq (m : Machine) (place : Location) :
    m.linkAt? place = if m.volume.kindAt? place = some .file then m.link? place else none := by
  rw [linkAt?, Volume.kindAt?, Volume.nodeAt?, Entry.nodeAt?]
  cases h : m.volume.root.at? place with
  | none => simp
  | some e => cases e <;> simp [Entry.node, Node.kind]

/-- Files are still files and directories still directories, and what was a link is the same link. -/
structure Grows (m m' : Machine) : Prop where
  volume : Volume.Grows m.volume m'.volume
  linkAt : ∀ place, (m.volume.kindAt? place).isSome = true → m'.linkAt? place = m.linkAt? place
  trouble : m'.trouble? = m.trouble?

namespace Grows

theorem refl (m : Machine) : Grows m m := ⟨.refl _, fun _ _ => rfl, rfl⟩

theorem isSome (h : Grows m m') (hplace : (m.volume.kindAt? place).isSome = true) :
    (m'.volume.kindAt? place).isSome = true := by
  obtain ⟨kind, hkind⟩ := Option.isSome_iff_exists.1 hplace
  rw [h.volume.kindAt _ _ hkind, Option.isSome_some]

theorem trans (h : Grows m m') (h' : Grows m' m'') : Grows m m'' where
  volume := h.volume.trans h'.volume
  linkAt place hplace := (h'.linkAt place (h.isSome hplace)).trans (h.linkAt place hplace)
  trouble := h'.trouble.trans h.trouble

end Grows

/-! ## Following -/

theorem isSome_of_step {segment : String} {q : Location}
    (h : Volume.step m.volume.root place segment = .ok q) : (m.volume.kindAt? q).isSome = true := by
  obtain ⟨hdirectory, hdown, rfl⟩ := Volume.step_eq_ok.1 h
  by_cases hup : segment = ".."
  · subst hup
    rw [walk_up]
    rcases List.eq_nil_or_concat place with rfl | ⟨above, last, rfl⟩
    · rw [List.dropLast_nil, hdirectory, Option.isSome_some]
    · rw [List.concat_eq_append] at hdirectory ⊢
      rw [List.dropLast_concat, Volume.kindAt?_above (by rw [hdirectory, Option.isSome_some]), Option.isSome_some]
  · rw [walk_name hup]
    exact (hdown hup).2

theorem step_of_grows (h : Volume.Grows m.volume m'.volume) {segment : String} {q : Location}
    (hstep : Volume.step m.volume.root place segment = .ok q) : Volume.step m'.volume.root place segment = .ok q := by
  obtain ⟨hdirectory, hdown, rfl⟩ := Volume.step_eq_ok.1 hstep
  refine Volume.step_eq_ok.2 ⟨h.kindAt _ _ hdirectory, fun hup => ⟨(hdown hup).1, ?_⟩, rfl⟩
  obtain ⟨kind, hkind⟩ := Option.isSome_iff_exists.1 (hdown hup).2
  rw [h.kindAt _ _ hkind, Option.isSome_some]

/-- One step, with the link that it leads to. -/
def stride (m : Machine) (depth : Nat) (place : Location) (segment : String) : Except Cause Location := do
  let next ← Volume.step m.volume.root place segment
  match m.linkAt? next with
  | none => return next
  | some p => m.follow depth (startIn place p) p.segments

theorem follow_succ (m : Machine) (depth : Nat) (place : Location) (segments : List String) :
    m.follow (depth + 1) place segments = segments.foldlM (m.stride depth) place := rfl

/-- What can be followed is followed to the same place later on. -/
theorem follow_of_grows (h : Grows m m') : ∀ {depth : Nat} {place : Location} {segments : List String} {q : Location},
    m.follow depth place segments = .ok q → m'.follow depth place segments = .ok q
  | 0, _, _, _, hq => by cases hq
  | depth + 1, place, [], q, hq => hq
  | depth + 1, place, segment :: rest, q, hq => by
    rw [follow_succ, List.foldlM_cons] at hq ⊢
    obtain ⟨next, hnext, hrest⟩ := except_bind_ok.1 hq
    have hrest : m.follow (depth + 1) next rest = .ok q := hrest
    refine except_bind_ok.2 ⟨next, ?_, follow_of_grows h hrest⟩
    obtain ⟨q', hstep, hlink⟩ := except_bind_ok.1 hnext
    refine except_bind_ok.2 ⟨q', step_of_grows h.volume hstep, ?_⟩
    rw [h.linkAt q' (isSome_of_step hstep)]
    split at hlink
    · exact hlink
    · exact follow_of_grows h hlink

/-! ## Where paths lead -/

theorem find_eq_ok : m.find p = .ok (place, e) ↔ Path.byteLength p.text < Volume.longestPath ∧
    m.follow (mostLinks + 1) (m.volume.start p) p.segments = .ok place ∧ m.volume.root.at? place = some e := by
  rw [find]
  by_cases hlong : Volume.longestPath ≤ Path.byteLength p.text
  · simp [hlong, Nat.not_lt.2 hlong, throw, throwThe, MonadExceptOf.throw, bind, Except.bind]
  · simp only [hlong, ↓reduceIte, Nat.not_le.1 hlong, true_and, except_bind_ok]
    constructor
    · rintro ⟨_, hfollow, h⟩
      split at h
      · rename_i e' he
        cases h
        exact ⟨hfollow, he⟩
      · cases h
    · rintro ⟨hfollow, he⟩
      exact ⟨_, hfollow, by rw [he]; rfl⟩

/-- What is found at a path is found there later on, of the same kind. -/
theorem find_of_grows (h : Grows m m') (hfind : m.find p = .ok (place, e)) :
    ∃ e', m'.find p = .ok (place, e') ∧ e'.kind = e.kind := by
  obtain ⟨hshort, hfollow, he⟩ := find_eq_ok.1 hfind
  have hkind := h.volume.kindAt _ _ (Volume.kindAt?_of_at? he)
  rw [Volume.kindAt?, Volume.nodeAt?, Entry.nodeAt?, Option.map_map, Option.map_eq_some_iff] at hkind
  obtain ⟨e', he', hkind⟩ := hkind
  refine ⟨e', find_eq_ok.2 ⟨hshort, ?_, he'⟩, by rw [← hkind, Function.comp_apply, Entry.kind_node]⟩
  rw [Volume.start_congr h.volume.work]
  exact follow_of_grows h hfollow

/-- The path leads to the place. -/
def Leads (m : Machine) (p : Path) (place : Location) : Prop := ∃ e, m.find p = .ok (place, e)

theorem Leads.of_grows (h : Grows m m') (hp : m.Leads p place) : m'.Leads p place := by
  obtain ⟨e, he⟩ := hp
  obtain ⟨e', he', -⟩ := find_of_grows h he
  exact ⟨e', he'⟩

theorem Leads.unique (hp : m.Leads p place) (hp' : m.Leads p loc) : place = loc := by
  obtain ⟨e, he⟩ := hp
  obtain ⟨e', he'⟩ := hp'
  rw [he] at he'
  cases he'
  rfl

def HoldsFile (m : Machine) (p : Path) : Prop := p.hasZero = false ∧ ∃ place data, m.find p = .ok (place, .file data)

theorem HoldsFile.of_grows (h : Grows m m') (hp : m.HoldsFile p) : m'.HoldsFile p := by
  obtain ⟨hzero, place, data, hfind⟩ := hp
  obtain ⟨e, he, hkind⟩ := find_of_grows h hfind
  cases e with
  | file data' => exact ⟨hzero, place, data', he⟩
  | directory entries => cases hkind

theorem follow_append (hfollow : m.follow (depth + 1) start (front ++ segments) = .ok place) :
    ∃ above, m.follow (depth + 1) start front = .ok above ∧ m.follow (depth + 1) above segments = .ok place := by
  rw [follow_succ, List.foldlM_append] at hfollow
  exact except_bind_ok.1 hfollow

/-- What is in something is in a directory. -/
theorem exists_directory_of_child (h : m.find (p.child name) = .ok (place, e)) (hname : name ≠ "") :
    ∃ above entries, m.find p = .ok (above, .directory entries) := by
  obtain ⟨hshort, hfollow, -⟩ := find_eq_ok.1 h
  obtain ⟨above, hfront, hlast⟩ := follow_append hfollow
  rw [follow_succ, List.foldlM_cons] at hlast
  obtain ⟨_, hstride, -⟩ := except_bind_ok.1 hlast
  obtain ⟨_, hstep, -⟩ := except_bind_ok.1 hstride
  obtain ⟨entries, he⟩ := Volume.exists_entries (Volume.step_eq_ok.1 hstep).1
  exact ⟨above, entries, find_eq_ok.2 ⟨Nat.lt_of_le_of_lt (Path.byteLength_text_child (.inr hname)) hshort, hfront, he⟩⟩

theorem findDirectory_eq_ok :
    m.findDirectory p = .ok (place, entries) ↔ m.find p = .ok (place, .directory entries) := by
  rw [findDirectory]
  cases m.find p with
  | error cause => simp [bind, Except.bind]
  | ok found =>
    obtain ⟨q, e⟩ := found
    cases e <;> simp [bind, Except.bind, throw, throwThe, MonadExceptOf.throw, pure, Except.pure]

theorem parentOf_eq_ok : m.parentOf depth start segments = .ok (some (place, entries, name)) ↔
    ∃ front, segments = front ++ [name] ∧ m.follow depth start front = .ok place ∧
      m.volume.root.at? place = some (.directory entries) ∧ name ≠ ".." ∧
        Path.byteLength name ≤ Volume.longestName := by
  constructor
  · intro h
    rw [parentOf] at h
    split at h
    · cases h
    · rename_i last hlast
      obtain ⟨front, rfl⟩ := List.getLast?_eq_some_iff.1 hlast
      rw [List.dropLast_concat] at h
      obtain ⟨above, hfollow, h⟩ := except_bind_ok.1 h
      split at h
      · cases h
      · cases h
      · rename_i entries' he
        split at h
        · cases h
        · rename_i hup
          split at h
          · cases h
          · rename_i hlong
            cases h
            exact ⟨front, rfl, hfollow, he, hup, Nat.not_lt.1 hlong⟩
  · rintro ⟨front, rfl, hfollow, he, hup, hlength⟩
    rw [parentOf, List.getLast?_concat]
    dsimp only
    rw [List.dropLast_concat, hfollow]
    simp [bind, Except.bind, pure, Except.pure, he, hup, Nat.not_lt.2 hlength]

/-- The path passes the place, or leads to it. -/
def OnWay (m : Machine) (p : Path) (loc : Location) : Prop :=
  ∃ front, front <+: p.segments ∧ m.follow (mostLinks + 1) (m.volume.start p) front = .ok loc

theorem OnWay.of_grows (h : Grows m m') (hloc : m.OnWay p loc) : m'.OnWay p loc := by
  obtain ⟨front, hfront, hfollow⟩ := hloc
  refine ⟨front, hfront, ?_⟩
  rw [Volume.start_congr h.volume.work]
  exact follow_of_grows h hfollow

/-! ## Troubles -/

theorem unlessTrouble_eq_ok {access : Access} {result : Except Cause α} {a : α} :
    m.unlessTrouble access p result = .ok a ↔ m.trouble? access p m.volume.root = none ∧ result = .ok a := by
  rw [unlessTrouble]
  cases m.trouble? access p m.volume.root <;> simp

/-! ## Looking -/

instance : Run.Looks Machine where
  workPlace _ := rfl
  kind _ _ := rfl
  read _ _ := rfl
  names _ _ := rfl
  isTree _ _ _ := rfl
  follows _ _ := rfl

/-- What is told about a path: what it leads to, that it leads to nothing, or why that cannot be found out. -/
theorem kind?_cases (m : Machine) (p : Path) : ∃ result, (Disk.kind? p : StateM Machine _) m = (result, m) ∧
    ((∃ place e, p.hasZero = false ∧ m.find p = .ok (place, e) ∧ result = .ok (some e.kind)) ∨
      (result = .ok none ∧ (p.hasZero = true ∨ ∃ cause, m.find p = .error cause)) ∨
        ∃ cause q, result = .error (.failed cause q)) := by
  have hlook : (Disk.kind p : StateM Machine _) m =
      (guarded p (m.unlessTrouble .look p ((m.find p).map fun found => found.2.kind)), m) := rfl
  rw [Disk.kind?, stateM_bind, hlook]
  cases hkind : guarded p (m.unlessTrouble .look p ((m.find p).map fun found => found.2.kind)) with
  | ok kind =>
    obtain ⟨hzero, hfound⟩ := Volume.guarded_eq_ok.1 hkind
    obtain ⟨⟨place, e⟩, hfind, rfl⟩ := except_map_ok.1 (unlessTrouble_eq_ok.1 hfound).2
    exact ⟨_, rfl, .inl ⟨place, e, hzero, hfind, rfl⟩⟩
  | error fault =>
    rcases Volume.guarded_eq_error.1 hkind with ⟨hzero, rfl⟩ | ⟨-, cause, hfailed, rfl⟩
    · exact ⟨_, rfl, .inr (.inl ⟨rfl, .inl hzero⟩)⟩
    · have hnone (hcause : ∀ number text, cause ≠ .other number text) : ∃ cause, m.find p = .error cause := by
        rw [unlessTrouble] at hfailed
        split at hfailed
        · cases hfailed
          exact absurd rfl (hcause _ _)
        · cases hfind : m.find p with
          | error cause => exact ⟨cause, rfl⟩
          | ok found =>
            rw [hfind] at hfailed
            cases hfailed
      cases cause with
      | notFound => exact ⟨_, rfl, .inr (.inl ⟨rfl, .inr (hnone (by simp))⟩)⟩
      | notDirectory => exact ⟨_, rfl, .inr (.inl ⟨rfl, .inr (hnone (by simp))⟩)⟩
      | tooManyLinks => exact ⟨_, rfl, .inr (.inl ⟨rfl, .inr (hnone (by simp))⟩)⟩
      | _ => exact ⟨_, rfl, .inr (.inr ⟨_, _, rfl⟩)⟩

/-- A file is seen, unless it cannot be found out what is there. -/
theorem HoldsFile.kind? (h : m.HoldsFile p) : (Disk.kind? p : StateM Machine _) m = (.ok (some .file), m) ∨
    ∃ cause q, (Disk.kind? p : StateM Machine _) m = (.error (.failed cause q), m) := by
  obtain ⟨hzero, place, data, hfind⟩ := h
  obtain ⟨result, hlook, ⟨place', e, -, hfind', rfl⟩ | ⟨-, hzero' | ⟨cause, hnone⟩⟩ | ⟨cause, q, rfl⟩⟩ :=
    kind?_cases m p
  · cases hfind.symm.trans hfind'
    exact .inl hlook
  · cases hzero.symm.trans hzero'
  · cases hfind.symm.trans hnone
  · exact .inr ⟨cause, q, hlook⟩

theorem holdsFile_of_kind? (h : (Disk.kind? p : StateM Machine _) m = (.ok (some .file), m')) : m.HoldsFile p := by
  obtain ⟨result, hlook, hcases⟩ := kind?_cases m p
  cases hlook.symm.trans h
  rcases hcases with ⟨place, e, hzero, hfind, hkind⟩ | ⟨hnone, -⟩ | ⟨_, _, herror⟩
  · cases e with
    | file data => exact ⟨hzero, place, data, hfind⟩
    | directory entries => cases hkind
  · cases hnone
  · cases herror

end SchemaDocs.Files.Machine
