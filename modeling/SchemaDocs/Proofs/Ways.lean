import SchemaDocs.Proofs.Disks

/-!
# Ways up and down

A path with steps up can miss what stands at its place, since a step up leaves a directory that may not be there. When
every step up leaves a directory that is there (`UpsInside`), the path finds what stands at its place
(`kindAt?_eq_none`), and it does not pass places below a place where nothing stands (`UpsInside.isSome_of_below`).
-/

namespace SchemaDocs.Files.Volume

variable {v : Volume} {p : Path} {place loc : Location} {segment : String} {segments front back rest : List String}

/-- Every step up of the segments leaves a directory that is there. -/
def UpsInside (v : Volume) (place : Location) (segments : List String) : Prop :=
  ∀ above, above ++ [".."] <+: segments → v.kindAt? (walk place above) = some .directory

theorem UpsInside.append (front : List String) (h : UpsInside v place (front ++ back)) :
    UpsInside v (walk place front) back := by
  intro above habove
  rw [← walk_append]
  refine h (front ++ above) ?_
  rw [List.append_assoc]
  exact (List.prefix_append_right_inj front).2 habove

/-- A path without steps up has none that leaves nothing. -/
theorem upsInside_of_not_mem (h : ".." ∉ segments) : UpsInside v place segments := fun _ habove =>
  absurd (habove.subset (by simp)) h

theorem UpsInside.head (h : UpsInside v place (".." :: rest)) : v.kindAt? place = some .directory :=
  h [] (List.cons_prefix_cons.2 ⟨rfl, List.nil_prefix⟩)

/-- Segments that lead to something can be followed all the way, but for names that are too long. -/
theorem UpsInside.foldlM_eq : ∀ {segments : List String} {place : Location}, UpsInside v place segments →
    (v.kindAt? (walk place segments)).isSome = true → (v.kindAt? place).isSome = true ∧
      (segments.foldlM (step v.root) place = .ok (walk place segments) ∨
        segments.foldlM (step v.root) place = .error .nameTooLong)
  | [], place, _, hend => ⟨hend, .inl rfl⟩
  | segment :: rest, place, h, hend => by
    obtain ⟨hnext, hrest⟩ := UpsInside.foldlM_eq (UpsInside.append [segment] h) hend
    by_cases hup : segment = ".."
    · subst hup
      have hstep : step v.root place ".." = .ok (walk place [".."]) := step_eq_ok.2 ⟨h.head, by simp, rfl⟩
      rw [h.head, List.foldlM_cons, hstep]
      exact ⟨rfl, hrest⟩
    · have hdirectory : v.kindAt? place = some .directory := by
        rw [walk_name hup] at hnext
        exact kindAt?_above hnext
      rw [hdirectory, List.foldlM_cons]
      refine ⟨rfl, ?_⟩
      by_cases hlong : longestName < Path.byteLength segment
      · obtain ⟨entries, he⟩ := exists_entries hdirectory
        have hstep : step v.root place segment = .error .nameTooLong := by
          simp [step, he, hup, hlong]
        rw [hstep]
        exact .inr rfl
      · have hstep : step v.root place segment = .ok (walk place [segment]) :=
          step_eq_ok.2 ⟨hdirectory, fun _ => ⟨Nat.not_lt.1 hlong, by rwa [← walk_name hup]⟩, rfl⟩
        rw [hstep]
        exact hrest

/-- When nothing is found at a path, nothing stands at its place. -/
theorem UpsInside.kindAt?_eq_none (h : UpsInside v (v.start p) p.segments) (hzero : p.hasZero = false)
    (hnone : v.kindOf? p = .ok none) : v.kindAt? (v.placeOf p) = none := by
  rw [← Option.not_isSome_iff_eq_none]
  intro hsome
  have htoo : v.find p = .error .nameTooLong → False := by
    intro hfind
    rw [kindOf?, lookAt, hfind, guarded, if_neg (by simp [hzero])] at hnone
    cases hnone
  by_cases hlong : longestPath ≤ Path.byteLength p.text
  · exact htoo (by rw [find, if_pos hlong]; rfl)
  · rcases (h.foldlM_eq hsome).2 with hok | herror
    · obtain ⟨kind, hkind⟩ := Option.isSome_iff_exists.1 hsome
      have hat : v.IsAt kind p := ⟨hzero, Nat.not_le.1 hlong, (foldlM_eq_ok.1 hok).1, hkind⟩
      rw [kindOf?_eq_some.2 hat] at hnone
      cases hnone
    · refine htoo ?_
      rw [find, if_neg hlong, herror]
      rfl

/-- Segments that lead from below a place up to it leave a directory there. -/
theorem UpsInside.isSome_of_below : ∀ {segments : List String} {loc : Location}, UpsInside v loc segments →
    walk loc segments = place → StrictlyBelow place loc → (v.kindAt? place).isSome = true
  | [], loc, _, hend, ⟨name, rest, hbelow⟩ => by
    rw [show loc = place from hend] at hbelow
    simp at hbelow
  | segment :: rest, loc, h, hend, hbelow => by
    by_cases hup : segment = ".."
    · subst hup
      obtain ⟨name, down, rfl⟩ := hbelow
      rw [kindAt?_above (by rw [h.head, Option.isSome_some]), Option.isSome_some]
    · refine (UpsInside.append [segment] h).isSome_of_below hend ?_
      obtain ⟨name, down, rfl⟩ := hbelow
      exact ⟨name, down ++ [segment], by rw [walk_name hup, List.append_assoc, List.cons_append]⟩

/-- Where nothing stands at the place of a path, the path passes no place below it. -/
theorem UpsInside.not_strictlyBelow (h : UpsInside v (v.start p) p.segments) (hnone : v.kindAt? (v.placeOf p) = none)
    (hloc : v.OnWay p loc) : ¬ StrictlyBelow (v.placeOf p) loc := by
  obtain ⟨front, ⟨back, hsegments⟩, rfl⟩ := hloc
  intro hbelow
  rw [← hsegments] at h
  have hsome := (h.append front).isSome_of_below (by rw [← walk_append, hsegments, placeOf_eq]) hbelow
  rw [hnone] at hsome
  cases hsome

/-- Something stands at every place on the way to what is there. -/
theorem IsAt.isSome_of_onWay {kind : Kind} (hp : v.IsAt kind p) (hloc : v.OnWay p loc) :
    (v.kindAt? loc).isSome = true := by
  obtain ⟨front, ⟨back, hsegments⟩, rfl⟩ := hloc
  have hway := hp.way
  rw [← hsegments, open_append] at hway
  cases back with
  | nil => rw [← List.append_nil front, hsegments, ← placeOf_eq, hp.kindAt, Option.isSome_some]
  | cons segment back => rw [hway.2.1, Option.isSome_some]

end SchemaDocs.Files.Volume
