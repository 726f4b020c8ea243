import Mathlib.Logic.Relation
import SchemaDocs.Proofs.Volumes

/-!
# Changes of volumes

What the operations of a disk do to a volume. Making directories and writing files is a sequence of changes of two
kinds (`Change`): a directory is made where nothing was, or a file is written where no directory was. A change shows at
one place only (`nodeAt?_putAt`), so what a whole sequence shows is known place by place (`Changes.nodeAt?`), and files
stay files and directories stay directories (`Changes.grows`).
-/

namespace SchemaDocs.Files

namespace Volume

variable {v v' v'' : Volume} {p : Path} {place loc : Location} {name : String} {above : List String}
  {dirs files dirs' files' : Location → Prop}

/-! ## Changes -/

/-- One change: a new directory at a place that is meant for one, or a file at a place that is meant for one. -/
inductive Change (dirs files : Location → Prop) (v : Volume) : Volume → Prop
  | directory {place : Location} (puttable : Entry.Puttable place v.root) (new : v.kindAt? place = none)
    (allowed : dirs place) : Change dirs files v (v.putAt place (.directory []))
  | file {place : Location} (data : List UInt8) (puttable : Entry.Puttable place v.root)
    (notDirectory : v.kindAt? place ≠ some .directory) (allowed : files place) :
    Change dirs files v (v.putAt place (.file data))

abbrev Changes (dirs files : Location → Prop) : Volume → Volume → Prop := Relation.ReflTransGen (Change dirs files)

/-- What has been put where no directory was shows at that place only. -/
theorem nodeAt?_putAt {new : Entry} (hnew : new.IsBare) (hp : Entry.Puttable place v.root)
    (h : v.kindAt? place ≠ some .directory) (loc : Location) :
    (v.putAt place new).nodeAt? loc = if loc = place then some new.node else v.nodeAt? loc := by
  by_cases hat : loc = place
  · subst hat
    rw [if_pos rfl]
    have := Entry.at?_put new hp []
    rw [List.append_nil, Entry.at?_nil] at this
    rw [nodeAt?, putAt, Entry.nodeAt?, this, Option.map_some]
  · rw [if_neg hat]
    by_cases hunder : place <+: loc
    · obtain ⟨name, rest, rfl⟩ := (eq_or_strictlyBelow hunder).resolve_left hat
      -- below something that is no directory there is nothing, neither before nor after
      have hbefore : v.nodeAt? (place ++ name :: rest) = none := by
        rw [← Option.not_isSome_iff_eq_none]
        exact fun hs => h (kindAt?_above (by rwa [kindAt?, Option.isSome_map]))
      rw [hbefore, nodeAt?, putAt, Entry.nodeAt?, Entry.at?_put new hp, hnew, Option.map_none]
    · exact Entry.nodeAt?_put hp hunder

theorem kindAt?_putAt {new : Entry} (hnew : new.IsBare) (hp : Entry.Puttable place v.root)
    (h : v.kindAt? place ≠ some .directory) (loc : Location) :
    (v.putAt place new).kindAt? loc = if loc = place then some new.kind else v.kindAt? loc := by
  rw [kindAt?, nodeAt?_putAt hnew hp h]
  split
  · rw [Option.map_some, Entry.kind_node]
  · rfl

theorem Change.grows (h : Change dirs files v v') : Grows v v' := by
  cases h with
  | directory puttable new _ =>
    refine ⟨rfl, rfl, fun loc kind hk => ?_⟩
    rw [kindAt?_putAt Entry.isBare_directory puttable (by simp [new])]
    split
    · rename_i hat
      simp [hat, new] at hk
    · exact hk
  | file data puttable notDirectory _ =>
    refine ⟨rfl, rfl, fun loc kind hk => ?_⟩
    rw [kindAt?_putAt (Entry.isBare_file data) puttable notDirectory]
    split
    · rename_i hat
      rw [hat] at hk
      cases kind with
      | file => rfl
      | directory => exact absurd hk notDirectory
    · exact hk

/-- **Changes let files be files and directories be directories.** -/
theorem Changes.grows (h : Changes dirs files v v') : Grows v v' := by
  induction h with
  | refl => exact .refl v
  | tail _ hlast ih => exact ih.trans hlast.grows

theorem Change.mono (hdirs : ∀ loc, dirs loc → dirs' loc) (hfiles : ∀ loc, files loc → files' loc)
    (h : Change dirs files v v') : Change dirs' files' v v' := by
  cases h with
  | directory puttable new allowed => exact .directory puttable new (hdirs _ allowed)
  | file data puttable notDirectory allowed => exact .file data puttable notDirectory (hfiles _ allowed)

theorem Changes.mono (hdirs : ∀ loc, dirs loc → dirs' loc) (hfiles : ∀ loc, files loc → files' loc)
    (h : Changes dirs files v v') : Changes dirs' files' v v' := by
  induction h with
  | refl => exact .refl
  | tail _ hlast ih => exact ih.tail (hlast.mono hdirs hfiles)

/-- A place that is not meant for a file is as it was, or a directory has been made there. -/
theorem Changes.nodeAt? (h : Changes dirs files v v') {loc : Location} (hloc : ¬ files loc) :
    v'.nodeAt? loc = v.nodeAt? loc ∨
    v.nodeAt? loc = none ∧ v'.nodeAt? loc = some .directory ∧ dirs loc := by
  induction h with
  | refl => exact .inl rfl
  | @tail v1 v2 _ hlast ih =>
    cases hlast with
    | @directory place puttable new allowed =>
      have hnew : v1.nodeAt? place = none := by simpa [kindAt?] using new
      rw [nodeAt?_putAt Entry.isBare_directory puttable (by simp [new])]
      split
      · rename_i hat
        subst hat
        rcases ih with hsame | ⟨-, hmade, -⟩
        · exact .inr ⟨hsame.symm.trans hnew, rfl, allowed⟩
        · rw [hnew] at hmade
          cases hmade
      · exact ih
    | @file place data puttable notDirectory allowed =>
      rw [nodeAt?_putAt (Entry.isBare_file data) puttable notDirectory, if_neg]
      · exact ih
      · rintro rfl
        exact hloc allowed

/-- What has been put at or below a place is gone when the place is overwritten. -/
theorem putAt_putAt (hp : Entry.Puttable place v.root) (rest : Location) (e new : Entry) :
    (v.putAt (place ++ rest) e).putAt place new = v.putAt place new := by
  rw [putAt, putAt, putAt, Entry.put_put_append hp]

theorem Grows.puttable (h : Grows v v') (hp : Entry.Puttable place v.root) : Entry.Puttable place v'.root :=
  fun above name heq => kindAt?_eq_directory.1 (h.kindAt _ _ (kindAt?_eq_directory.2 (hp above name heq)))

/-- What has been changed below a place is gone when the place is overwritten. -/
theorem Changes.putAt_eq (h : Changes dirs files v v') (hp : Entry.Puttable place v.root)
    (hdirs : ∀ loc, dirs loc → v.kindAt? loc = none → place <+: loc) (hfiles : ∀ loc, files loc → place <+: loc)
    (new : Entry) : v'.putAt place new = v.putAt place new := by
  induction h with
  | refl => rfl
  | @tail v1 v2 hbefore hlast ih =>
    have hgrows := Changes.grows hbefore
    rw [← ih]
    cases hlast with
    | @directory loc puttable made allowed =>
      have hnone : v.kindAt? loc = none := by
        rw [← Option.not_isSome_iff_eq_none, Option.isSome_iff_exists]
        rintro ⟨kind, hkind⟩
        rw [hgrows.kindAt loc kind hkind] at made
        cases made
      obtain ⟨rest, rfl⟩ := hdirs loc allowed hnone
      exact putAt_putAt (hgrows.puttable hp) rest _ new
    | @file loc data puttable notDirectory allowed =>
      obtain ⟨rest, rfl⟩ := hfiles loc allowed
      exact putAt_putAt (hgrows.puttable hp) rest _ new

/-! ## Making directories -/

/-- The place is passed on the way along a path. -/
def OnWay (v : Volume) (p : Path) (loc : Location) : Prop :=
  ∃ front, front <+: p.segments ∧ loc = walk (v.start p) front

theorem LeadsTo.puttable (h : v.LeadsTo p above name) : Entry.Puttable (v.placeOf p) v.root := by
  rw [h.placeOf]
  exact Entry.puttable_append (kindAt?_eq_directory.1 h.directory) name

/-- What stands under the name that a path leads to is found among the entries of the directory. -/
theorem LeadsTo.kindAt? (h : v.LeadsTo p above name) {entries : List (String × Entry)}
    (he : v.root.at? (walk (v.start p) above) = some (.directory entries)) :
    v.kindAt? (v.placeOf p) = (Assoc.get? name entries).map Entry.kind := by
  rw [h.placeOf, Volume.kindAt?, Volume.nodeAt?, Entry.nodeAt?, Entry.at?_append, he, Option.bind_some, Entry.at?_cons]
  cases Assoc.get? name entries with
  | none => rfl
  | some e => simp [Entry.kind_node]

theorem makeDirectory_eq_ok : v.makeDirectory p = .ok v' ↔ (∃ above name, v.LeadsTo p above name) ∧
    v.kindAt? (v.placeOf p) = none ∧ v.putAt (v.placeOf p) (.directory []) = v' := by
  rw [makeDirectory, except_bind_ok]
  constructor
  · rintro ⟨found, hfound, h⟩
    split at h
    · cases h
    · obtain ⟨above, hleads, rfl, he⟩ := findParent_eq_ok.1 hfound
      split at h
      · cases h
      · rename_i hnew
        cases h
        rw [hleads.placeOf]
        refine ⟨⟨above, _, hleads⟩, ?_, rfl⟩
        rw [← hleads.placeOf, hleads.kindAt? he]
        simpa [Assoc.has] using hnew
  · rintro ⟨⟨above, name, hleads⟩, hnew, rfl⟩
    obtain ⟨entries, he⟩ := exists_entries hleads.directory
    refine ⟨_, findParent_eq_ok.2 ⟨above, hleads, rfl, he⟩, ?_⟩
    have hhas : Assoc.has name entries = false := by
      rw [hleads.kindAt? he] at hnew
      simpa [Assoc.has] using hnew
    simp [hhas, hleads.placeOf, pure, Except.pure]

theorem write_eq_ok {data : List UInt8} : v.write p data = .ok v' ↔ (∃ above name, v.LeadsTo p above name) ∧
    v.kindAt? (v.placeOf p) ≠ some .directory ∧ v.putAt (v.placeOf p) (.file data) = v' := by
  rw [write, except_bind_ok]
  constructor
  · rintro ⟨found, hfound, h⟩
    split at h
    · cases h
    · obtain ⟨above, hleads, rfl, he⟩ := findParent_eq_ok.1 hfound
      split at h
      · cases h
      · rename_i hget
        cases h
        rw [hleads.placeOf]
        refine ⟨⟨above, _, hleads⟩, ?_, rfl⟩
        rw [← hleads.placeOf, hleads.kindAt? he]
        intro hdirectory
        obtain ⟨e, hsome, hkind⟩ := Option.map_eq_some_iff.1 hdirectory
        cases e with
        | file data => cases hkind
        | directory entries => exact hget _ hsome
  · rintro ⟨⟨above, name, hleads⟩, hkind, rfl⟩
    obtain ⟨entries, he⟩ := exists_entries hleads.directory
    refine ⟨_, findParent_eq_ok.2 ⟨above, hleads, rfl, he⟩, ?_⟩
    rw [hleads.kindAt? he] at hkind
    dsimp only
    split
    · rename_i hget
      simp [hget, Entry.kind] at hkind
    · rw [hleads.placeOf]
      rfl

/-- A directory that is there cannot be made. -/
theorem makeDirectory_of_isAt (h : v.IsAt .directory p) : v.makeDirectory p = .error .exists := by
  have hway := h.way
  rcases List.eq_nil_or_concat p.segments with hnil | ⟨above, name, hsegments⟩
  · rw [makeDirectory, findParent_eq_none h.short (.inl hnil)]
    rfl
  · rw [List.concat_eq_append] at hsegments
    rw [hsegments, open_append] at hway
    obtain ⟨habove, hdirectory, hname, -⟩ := hway
    by_cases hup : name = ".."
    · rw [makeDirectory, findParent_eq_none h.short (.inr ⟨above, hup ▸ hsegments, habove, hdirectory⟩)]
      rfl
    · have hleads : v.LeadsTo p above name := ⟨h.short, hsegments, habove, hdirectory, hup, (hname hup).1⟩
      obtain ⟨entries, he⟩ := exists_entries hdirectory
      have hhas : Assoc.has name entries = true := by
        have hkind := h.kindAt
        rw [hleads.kindAt? he] at hkind
        rw [Assoc.has, ← Option.isSome_map, hkind, Option.isSome_some]
      rw [makeDirectory, findParent_eq_ok.2 ⟨above, hleads, rfl, he⟩]
      simp [bind, Except.bind, hhas, throw, throwThe, MonadExceptOf.throw]

end Volume

end SchemaDocs.Files
