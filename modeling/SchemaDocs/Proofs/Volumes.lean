import SchemaDocs.Files.Volume
import SchemaDocs.Proofs.Entries
import SchemaDocs.Proofs.Outcomes
import SchemaDocs.Proofs.Splitting

/-!
# Places of paths

A path leads through a volume segment by segment, and where it leads to is a matter of its segments alone
(`Volume.placeOf`): the files only decide whether the way there is open (`Volume.Open`). So what can be done at a path
depends on what stands at the places on the way (`find_eq_ok`, `findParent_eq_ok`), and it stays possible as long as
files stay files and directories stay directories (`Grows`).
-/

namespace SchemaDocs.Files

def walk (place : Location) (segments : List String) : Location :=
  segments.foldl (fun above segment => if segment = ".." then above.dropLast else above ++ [segment]) place

theorem walk_append (place : Location) (front back : List String) :
    walk place (front ++ back) = walk (walk place front) back := List.foldl_append

theorem walk_cons (place : Location) (segment : String) (rest : List String) :
    walk place (segment :: rest) = walk (walk place [segment]) rest := rfl

theorem walk_up (place : Location) : walk place [".."] = place.dropLast := rfl

theorem walk_name {segment : String} (h : segment ≠ "..") (place : Location) :
    walk place [segment] = place ++ [segment] := if_neg h

/-- Without steps up, the way leads below the place. -/
theorem walk_of_names : ∀ {segments : List String} (place : Location), ".." ∉ segments →
    walk place segments = place ++ segments
  | [], place, _ => (List.append_nil place).symm
  | segment :: rest, place, h => by
    rw [List.mem_cons, not_or] at h
    rw [walk_cons, walk_name (Ne.symm h.1), walk_of_names _ h.2, List.append_assoc, List.singleton_append]

namespace Path

/-! ## Lengths of paths -/

theorem byteLength_append (a b : String) : byteLength (a ++ b) = byteLength a + byteLength b := by
  simp [byteLength, Text.Utf8.encode]

theorem byteLength_pos {s : String} (h : s ≠ "") : 0 < byteLength s := by
  rw [ne_eq, ← String.toList_inj] at h
  obtain ⟨c, rest, hc⟩ := List.exists_cons_of_ne_nil h
  rw [byteLength, Text.Utf8.encode, hc, List.flatMap_cons, List.length_append]
  have hpos : 0 < (Text.Utf8.encodeChar c).length := by
    unfold Text.Utf8.encodeChar
    dsimp only
    repeat' split
    all_goals simp
  omega

/-- The path of what is in a directory is not shorter than that of the directory. -/
theorem byteLength_text_child {p : Path} {name : String} (h : p.segments ≠ [] ∨ name ≠ "") :
    byteLength p.text ≤ byteLength (p.child name).text := by
  rw [Path.text, Path.text, Path.child]
  by_cases hnil : p.segments = []
  · by_cases hslashes : p.slashes = 0
    · have hname : 0 < byteLength name := byteLength_pos (h.resolve_left (absurd hnil))
      simp only [hnil, hslashes]
      exact hname
    · simp [hnil, hslashes, Text.join, byteLength_append]
  · simp [hnil, Text.join_append _ _ hnil, byteLength_append, Nat.add_assoc]

/-- The path of what is in a directory is not longer than a path that leads further on from there. -/
theorem byteLength_text_append (p : Path) (name : String) : ∀ (rest : List String),
    byteLength (p.child name).text ≤ byteLength { p with segments := p.segments ++ name :: rest : Path }.text
  | [] => Nat.le_refl _
  | next :: rest => by
    have hstep : byteLength (p.child name).text ≤ byteLength ((p.child name).child next).text :=
      byteLength_text_child (.inl (by simp [Path.child]))
    have hrest := byteLength_text_append (p.child name) next rest
    simp only [Path.child, List.append_assoc, List.singleton_append] at hstep hrest ⊢
    exact Nat.le_trans hstep hrest

end Path

namespace Volume

variable {v v' : Volume} {p : Path} {place loc : Location} {segment name : String} {segments front rest : List String}

/-- What stands at a place. -/
def nodeAt? (v : Volume) (loc : Location) : Option Node := v.root.nodeAt? loc

/-- Whether a file or a directory stands at a place. -/
def kindAt? (v : Volume) (loc : Location) : Option Kind := (v.nodeAt? loc).map Node.kind

/-- The place that a path leads to, if it leads anywhere. -/
def placeOf (v : Volume) (p : Path) : Location := (p.absolute v.work).segments

theorem placeOf_eq (v : Volume) (p : Path) : v.placeOf p = walk (v.start p) p.segments := rfl

theorem kindAt?_eq_directory : v.kindAt? loc = some .directory ↔ v.nodeAt? loc = some .directory := by
  rw [kindAt?]
  cases v.nodeAt? loc with
  | none => simp
  | some n => cases n <;> simp [Node.kind]

theorem nodeAt?_of_at? {e : Entry} (h : v.root.at? loc = some e) : v.nodeAt? loc = some e.node := by
  rw [nodeAt?, Entry.nodeAt?, h, Option.map_some]

theorem kindAt?_of_at? {e : Entry} (h : v.root.at? loc = some e) : v.kindAt? loc = some e.kind := by
  rw [kindAt?, nodeAt?_of_at? h, Option.map_some, Entry.kind_node]

theorem exists_entries (h : v.kindAt? loc = some .directory) :
    ∃ entries, v.root.at? loc = some (.directory entries) := by
  have hdirectory := kindAt?_eq_directory.1 h
  rw [nodeAt?, Entry.nodeAt?] at hdirectory
  obtain ⟨e, he, hnode⟩ := Option.map_eq_some_iff.1 hdirectory
  cases e with
  | file data => cases hnode
  | directory entries => exact ⟨entries, he⟩

/-- Only directories have places below them. -/
theorem kindAt?_above (h : (v.kindAt? (place ++ segment :: rest)).isSome = true) :
    v.kindAt? place = some .directory := by
  rw [kindAt?, Option.isSome_map] at h
  exact kindAt?_eq_directory.2 (Entry.nodeAt?_eq_directory h)

/-! ## Open ways -/

/-- The segments can be followed from a place: every step starts at a directory, and a step down leads to something
under a name that is not too long. -/
def Open (v : Volume) : Location → List String → Prop
  | _, [] => True
  | place, segment :: rest => v.kindAt? place = some .directory ∧
    (segment ≠ ".." → Path.byteLength segment ≤ longestName ∧ (v.kindAt? (place ++ [segment])).isSome = true) ∧
    Open v (walk place [segment]) rest

theorem open_append : ∀ {front rest : List String} {place : Location},
    v.Open place (front ++ rest) ↔ v.Open place front ∧ v.Open (walk place front) rest
  | [], rest, place => by simp [Open, walk]
  | segment :: front, rest, place => by
    rw [List.cons_append, Open, Open, open_append, walk_cons place segment front]
    simp only [and_assoc]

theorem step_eq_ok {q : Location} : step v.root place segment = .ok q ↔ v.kindAt? place = some .directory ∧
    (segment ≠ ".." → Path.byteLength segment ≤ longestName ∧ (v.kindAt? (place ++ [segment])).isSome = true) ∧
    walk place [segment] = q := by
  rw [step]
  cases h : v.root.at? place with
  | none => simp [kindAt?, nodeAt?, Entry.nodeAt?, h]
  | some e =>
    rw [kindAt?_of_at? h]
    cases e with
    | file data => simp [Entry.kind]
    | directory entries =>
      have hbelow : (v.kindAt? (place ++ [segment])).isSome = Assoc.has segment entries := by
        rw [kindAt?, Option.isSome_map, nodeAt?, Entry.nodeAt?, Option.isSome_map, Entry.at?_append, h,
          Option.bind_some, Entry.at?_cons, Assoc.has]
        cases Assoc.get? segment entries <;> simp
      simp only [Entry.kind, true_and, hbelow]
      by_cases hup : segment = ".."
      · simp [hup, walk_up]
      · simp only [hup, ↓reduceIte, ne_eq, not_false_eq_true, forall_const, walk_name hup]
        by_cases hlong : longestName < Path.byteLength segment
        · simp [hlong, Nat.not_le.2 hlong]
        · by_cases hhas : Assoc.has segment entries = true
          · simp [hlong, hhas, Nat.not_lt.1 hlong]
          · simp [hlong, hhas]

theorem foldlM_eq_ok : ∀ {segments : List String} {place q : Location},
    segments.foldlM (step v.root) place = .ok q ↔ v.Open place segments ∧ walk place segments = q
  | [], place, q => by simp [Open, walk, pure, Except.pure]
  | segment :: rest, place, q => by
    rw [List.foldlM_cons, except_bind_ok, Open, walk_cons]
    simp only [step_eq_ok, foldlM_eq_ok]
    constructor
    · rintro ⟨_, ⟨hdirectory, hdown, rfl⟩, hopen, hq⟩
      exact ⟨⟨hdirectory, hdown, hopen⟩, hq⟩
    · rintro ⟨⟨hdirectory, hdown, hopen⟩, hq⟩
      exact ⟨_, ⟨hdirectory, hdown, rfl⟩, hopen, hq⟩

/-! ## What a path leads to -/

/-- A path leads to something when it is not too long and its way is open. -/
theorem find_eq_ok {q : Location} {e : Entry} : v.find p = .ok (q, e) ↔ Path.byteLength p.text < longestPath ∧
    v.Open (v.start p) p.segments ∧ v.placeOf p = q ∧ v.root.at? q = some e := by
  rw [find]
  by_cases hlong : longestPath ≤ Path.byteLength p.text
  · simp [hlong, Nat.not_lt.2 hlong, throw, throwThe, MonadExceptOf.throw, bind, Except.bind]
  · simp only [hlong, ↓reduceIte, Nat.not_le.1 hlong, true_and, except_bind_ok, foldlM_eq_ok, placeOf_eq]
    constructor
    · rintro ⟨_, ⟨hopen, rfl⟩, h⟩
      split at h
      · rename_i e' he
        cases h
        exact ⟨hopen, rfl, he⟩
      · cases h
    · rintro ⟨hopen, rfl, he⟩
      exact ⟨_, ⟨hopen, rfl⟩, by rw [he]; rfl⟩

structure LeadsTo (v : Volume) (p : Path) (above : List String) (name : String) : Prop where
  short : Path.byteLength p.text < longestPath
  segments : p.segments = above ++ [name]
  way : v.Open (v.start p) above
  directory : v.kindAt? (walk (v.start p) above) = some .directory
  named : name ≠ ".."
  length : Path.byteLength name ≤ longestName

theorem LeadsTo.placeOf (h : v.LeadsTo p front name) : v.placeOf p = walk (v.start p) front ++ [name] := by
  rw [placeOf_eq, h.segments, walk_append, walk_name h.named]

theorem findParent_eq_ok {entries : List (String × Entry)} : v.findParent p = .ok (some (place, entries, name)) ↔
    ∃ above, v.LeadsTo p above name ∧ walk (v.start p) above = place ∧
      v.root.at? place = some (.directory entries) := by
  rw [findParent]
  by_cases hlong : longestPath ≤ Path.byteLength p.text
  · simp only [hlong, ↓reduceIte]
    constructor
    · intro h
      cases h
    · rintro ⟨above, h, -⟩
      exact absurd h.short (Nat.not_lt.2 hlong)
  · simp only [hlong, ↓reduceIte]
    constructor
    · intro h
      split at h
      · cases h
      · rename_i last hlast
        obtain ⟨above, habove⟩ := List.getLast?_eq_some_iff.1 hlast
        obtain ⟨place', hplace', h⟩ := except_bind_ok.1 h
        rw [habove, List.dropLast_concat, foldlM_eq_ok] at hplace'
        split at h
        · cases h
        · cases h
        · rename_i entries' hentries
          split at h
          · cases h
          · rename_i hup
            split at h
            · cases h
            · rename_i hlength
              cases h
              obtain ⟨hway, rfl⟩ := hplace'
              exact ⟨above, ⟨Nat.not_le.1 hlong, habove, hway, kindAt?_of_at? hentries, hup, Nat.not_lt.1 hlength⟩, rfl,
                hentries⟩
    · rintro ⟨above, h, rfl, hentries⟩
      rw [h.segments, List.getLast?_concat]
      dsimp only
      rw [List.dropLast_concat, foldlM_eq_ok.2 ⟨h.way, rfl⟩]
      simp [bind, Except.bind, pure, Except.pure, hentries, h.named, Nat.not_lt.2 h.length]

/-- A path without segments, or with a step up at its end, leads to no name. -/
theorem findParent_eq_none (hshort : Path.byteLength p.text < longestPath) (h : p.segments = [] ∨
    ∃ above, p.segments = above ++ [".."] ∧ v.Open (v.start p) above ∧
      v.kindAt? (walk (v.start p) above) = some .directory) : v.findParent p = .ok none := by
  rw [findParent, if_neg (Nat.not_le.2 hshort)]
  rcases h with hnil | ⟨above, hsegments, hway, hdirectory⟩
  · rw [hnil]
    rfl
  · rw [hsegments, List.getLast?_concat]
    dsimp only
    rw [List.dropLast_concat, foldlM_eq_ok.2 ⟨hway, rfl⟩]
    obtain ⟨entries, he⟩ := exists_entries hdirectory
    simp [bind, Except.bind, pure, Except.pure, he]

/-! ## What stands at a path -/

/-- A path leads to something of a kind. -/
structure IsAt (kind : Kind) (v : Volume) (p : Path) : Prop where
  noZero : p.hasZero = false
  short : Path.byteLength p.text < longestPath
  way : v.Open (v.start p) p.segments
  kindAt : v.kindAt? (v.placeOf p) = some kind

theorem IsAt.unique {kind kind' : Kind} (h : v.IsAt kind p) (h' : v.IsAt kind' p) : kind = kind' :=
  Option.some_inj.1 (h.kindAt.symm.trans h'.kindAt)

theorem IsAt.puttable {kind : Kind} (h : v.IsAt kind p) : Entry.Puttable (v.placeOf p) v.root := by
  have hkind := h.kindAt
  rw [kindAt?, Option.map_eq_some_iff] at hkind
  obtain ⟨node, hnode, -⟩ := hkind
  exact Entry.puttable_of_nodeAt? (Option.isSome_iff_exists.2 ⟨node, hnode⟩)

theorem isAt_iff {kind : Kind} : v.IsAt kind p ↔ p.hasZero = false ∧ ∃ q e, v.find p = .ok (q, e) ∧ e.kind = kind := by
  simp only [find_eq_ok]
  constructor
  · rintro ⟨hzero, hshort, hway, hkind⟩
    refine ⟨hzero, v.placeOf p, ?_⟩
    cases he : v.root.at? (v.placeOf p) with
    | none => simp [kindAt?, nodeAt?, Entry.nodeAt?, he] at hkind
    | some e =>
      rw [kindAt?_of_at? he, Option.some_inj] at hkind
      exact ⟨e, ⟨hshort, hway, rfl, rfl⟩, hkind⟩
  · rintro ⟨hzero, q, e, ⟨hshort, hway, rfl, he⟩, rfl⟩
    exact ⟨hzero, hshort, hway, kindAt?_of_at? he⟩

/-- What stands on the way along the segments is still of the same kind. -/
def KeepsWay (v v' : Volume) (place : Location) (segments : List String) : Prop :=
  ∀ front, front <+: segments → ∀ kind, v.kindAt? (walk place front) = some kind →
    v'.kindAt? (walk place front) = some kind

theorem KeepsWay.tail (h : KeepsWay v v' place (segment :: rest)) : KeepsWay v v' (walk place [segment]) rest :=
  fun front hfront => h (segment :: front) (List.cons_prefix_cons.2 ⟨rfl, hfront⟩)

/-- A way stays open as long as what stands on it stays of the same kind. -/
theorem Open.of_keepsWay : ∀ {segments : List String} {place : Location}, v.Open place segments →
    KeepsWay v v' place segments → v'.Open place segments
  | [], _, _, _ => trivial
  | segment :: rest, place, ⟨hdirectory, hdown, hrest⟩, h => by
    refine ⟨h [] List.nil_prefix _ hdirectory, fun hup => ⟨(hdown hup).1, ?_⟩, hrest.of_keepsWay h.tail⟩
    obtain ⟨kind, hkind⟩ := Option.isSome_iff_exists.1 (hdown hup).2
    rw [← walk_name hup] at hkind ⊢
    rw [h [segment] (List.cons_prefix_cons.2 ⟨rfl, List.nil_prefix⟩) kind hkind, Option.isSome_some]

theorem start_congr (hwork : v'.work = v.work) (p : Path) : v'.start p = v.start p := by
  rw [Volume.start, hwork]
  rfl

theorem placeOf_congr (hwork : v'.work = v.work) (p : Path) : v'.placeOf p = v.placeOf p := by
  rw [placeOf_eq, placeOf_eq, start_congr hwork]

/-- **What is at a path stays there** as long as everything on the way stays of the same kind. -/
theorem IsAt.of_keepsWay {kind : Kind} (hp : v.IsAt kind p) (hwork : v'.work = v.work)
    (h : KeepsWay v v' (v.start p) p.segments) : v'.IsAt kind p where
  noZero := hp.noZero
  short := hp.short
  way := start_congr hwork p ▸ hp.way.of_keepsWay h
  kindAt := placeOf_congr hwork p ▸ h p.segments (List.prefix_refl _) kind hp.kindAt

/-- Files are still files, and directories are still directories. -/
structure Grows (v v' : Volume) : Prop where
  work : v'.work = v.work
  follows : v'.follows = v.follows
  kindAt : ∀ loc kind, v.kindAt? loc = some kind → v'.kindAt? loc = some kind

theorem Grows.refl (v : Volume) : Grows v v := ⟨rfl, rfl, fun _ _ h => h⟩

theorem Grows.trans {v'' : Volume} (h : Grows v v') (h' : Grows v' v'') : Grows v v'' :=
  ⟨h'.work.trans h.work, h'.follows.trans h.follows, fun loc kind hk => h'.kindAt loc kind (h.kindAt loc kind hk)⟩

/-- Where nothing is later on, nothing has been. -/
theorem Grows.nodeAt?_eq_none (h : Grows v v') (hnone : v'.nodeAt? loc = none) : v.nodeAt? loc = none := by
  rw [← Option.not_isSome_iff_eq_none, ← Option.isSome_map (f := Node.kind), Option.isSome_iff_exists]
  rintro ⟨kind, hkind⟩
  have := h.kindAt loc kind hkind
  rw [kindAt?, hnone] at this
  cases this

theorem Grows.isAt (h : Grows v v') {kind : Kind} (hp : v.IsAt kind p) : v'.IsAt kind p :=
  hp.of_keepsWay h.work fun _ _ => h.kindAt _

end Volume

end SchemaDocs.Files
