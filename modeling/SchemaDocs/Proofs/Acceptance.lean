import SchemaDocs.Proofs.Placement
import SchemaDocs.Proofs.Resolving

/-!
# Accepted dumps

Whether a dump is accepted does not depend on the order in which its definitions are read: it is accepted when all of
its definitions are good and all keys lead to packages (`packageOf_isOk_iff`). The schemas that are put into the
hierarchy then have the outlines that the definitions describe (`placements_of_packageOf`).
-/

namespace SchemaDocs.Dump

variable {raw entries : List (Value × Value)} {p p' : Progress} {placements : List (String × Schema)}

theorem Ends.exists_ok {α : Type} {x : Reading α} {Q : α → Progress → Prop} (h : Ends x p Q False) :
    ∃ a p', x p = .ok (a, p') ∧ Q a p' := by
  unfold Ends at h
  cases hx : x p with
  | error e => simp [hx] at h
  | ok r =>
    rw [hx] at h
    exact ⟨r.1, r.2, rfl, h⟩

theorem inv_empty (raw : List (Value × Value)) : Inv raw [] raw.length {} where
  nodup := List.nodup_nil
  defined := by simp
  known h := by simp [Assoc.get?] at h
  complete h := by simp [Assoc.get?] at h
  room := Nat.le_refl _

theorem isDefined_of_mem (hraw : Value.entriesAreJson raw = true) {key : String} {value : Value}
    (h : (.str key, value) ∈ raw) : isDefined raw key = true := by
  rw [isDefined, (Value.lookup_eq_some_iff hraw).2 h]
  rfl

/-- The schema of an accepted definition is all that the definition says. -/
theorem Accepted.complete (hraw : Value.entriesAreJson raw = true) (h : Accepted raw entries p placements p') :
    (∀ e ∈ entries, e ∈ raw) → Inv raw [] raw.length p → placements.map (·.1) = keysOf entries ∧
      ∀ e ∈ placements, e.2.modelType = modelTypeOf? raw e.1 ∧ Complete raw e.1 e.2 := by
  induction h with
  | nil => exact fun _ _ => ⟨rfl, by simp⟩
  | @cons key value rest p p1 p2 schema placements read _ _ _ ih =>
    intro hsub hp
    have hdefined := isDefined_of_mem hraw (hsub _ List.mem_cons_self)
    obtain ⟨hp1, -, hknown, hcomplete⟩ := (ends_resolveWithin hraw raw.length hdefined hp).of_ok read
    obtain ⟨hkeys, hrest⟩ := ih (fun e he => hsub e (List.mem_cons_of_mem _ he)) hp1
    refine ⟨by rw [List.map_cons, hkeys]; rfl, fun e he => ?_⟩
    rcases List.mem_cons.1 he with rfl | he
    · exact ⟨hknown.modelType, hcomplete (by simp)⟩
    · exact hrest e he

/-- Good definitions are accepted one after another. -/
theorem exists_accepted (hraw : Value.entriesAreJson raw = true) (hgood : AllGood raw) :
    ∀ {entries : List (Value × Value)} {p : Progress}, (∀ e ∈ entries, e ∈ raw) →
      (∀ key ∈ keysOf entries, "" ∉ segmentsOfKey key) → Inv raw [] raw.length p →
      ∃ placements p', Accepted raw entries p placements p'
  | [], p, _, _, _ => ⟨[], p, .nil p⟩
  | (k, value) :: rest, p, hsub, hnamed, hp => by
    obtain ⟨key, hk, -⟩ := Value.exists_name hraw (hsub _ List.mem_cons_self)
    simp only at hk
    subst hk
    have hdefined := isDefined_of_mem hraw (hsub _ List.mem_cons_self)
    obtain ⟨s, p1, hread, hp1, -, hknown, -⟩ :=
      ((ends_resolveWithin hraw raw.length hdefined hp).mono (fun _ _ => id) fun hnot => hnot hgood).exists_ok
    obtain ⟨placements, p2, hrest⟩ := exists_accepted hraw hgood (fun e he => hsub e (List.mem_cons_of_mem _ he))
      (fun key hm => hnamed key (List.mem_cons_of_mem _ hm)) hp1
    have hdeclared : s.problemOfDeclared? = none := by
      refine Schema.problemOfDeclared?_eq_none.2 ⟨?_, ?_⟩
      · rw [hknown.modelType]
        exact hgood.typed key hdefined
      · exact Schema.problem?_eq_none.2 (Schema.visit_of_sound (hknown.sound hgood) rfl [])
    exact ⟨_, p2, .cons hread hdeclared (hnamed _ List.mem_cons_self) hrest⟩

/-- The definitions of an accepted dump are good. -/
theorem Accepted.allGood (hraw : Value.entriesAreJson raw = true) (h : Accepted raw raw {} placements p') :
    AllGood raw := by
  obtain ⟨hkeys, hcomplete⟩ := h.complete hraw (fun _ => id) (inv_empty raw)
  intro key value hl
  have hkey : key ∈ placements.map (·.1) := by
    rw [hkeys]
    exact List.mem_map.2 ⟨_, Value.mem_of_lookup hl, rfl⟩
  obtain ⟨⟨_, s⟩, hm, rfl⟩ := List.mem_map.1 hkey
  obtain ⟨hmodel, fields, o, hl', ho, -, hsound⟩ := hcomplete _ hm
  obtain ⟨htyped, hproblem⟩ := Schema.problemOfDeclared?_eq_none.1 (h.of_mem hm).1
  refine ⟨fields, o, Option.some_inj.1 (hl.symm.trans hl'), ho, ?_, hsound hproblem⟩
  rwa [← modelTypeOf?_of_described hl' ho, ← hmodel]

/-! ## Documents -/

variable {defaultName : String} {document : List (Value × Value)}

theorem entriesAreJson_of_readDefinitions (hdocument : Value.entriesAreJson document = true)
    (h : readDefinitions document = .ok raw) : Value.entriesAreJson raw = true := by
  unfold readDefinitions field at h
  cases hl : Value.lookup "definitions" document with
  | none =>
    simp only [hl, Option.getD_none, Value.unmarked] at h
    cases h
    rfl
  | some value =>
    have hjson := Value.isJson_of_lookup hdocument hl
    simp only [hl, Option.getD_some, Value.unmarked_of_isJson hjson] at h
    split at h
    · cases h
      rfl
    · cases h
      exact hjson
    · simp at h

/-- **A dump is accepted when all of its definitions are good and all keys lead to packages**, in whatever order the
definitions are read. -/
theorem packageOf_isOk_iff (hdocument : Value.entriesAreJson document = true) :
    (∃ root, packageOf defaultName document = .ok root) ↔ ∃ info raw, readInfo document = .ok info ∧
      readDefinitions document = .ok raw ∧ AllGood raw ∧ ∀ key ∈ keysOf raw, "" ∉ segmentsOfKey key := by
  constructor
  · rintro ⟨root, h⟩
    obtain ⟨info, raw, placements, p, hinfo, hr, ha, -⟩ := packageOf_ok.1 h
    have hraw := entriesAreJson_of_readDefinitions hdocument hr
    obtain ⟨hkeys, -⟩ := ha.complete hraw (fun _ => id) (inv_empty raw)
    refine ⟨info, raw, hinfo, hr, ha.allGood hraw, fun key hm => ?_⟩
    rw [← hkeys] at hm
    obtain ⟨⟨_, s⟩, hs, rfl⟩ := List.mem_map.1 hm
    exact (ha.of_mem hs).2.1
  · rintro ⟨info, raw, hinfo, hr, hgood, hnamed⟩
    have hraw := entriesAreJson_of_readDefinitions hdocument hr
    obtain ⟨placements, p, ha⟩ := exists_accepted hraw hgood (fun _ => id) hnamed (inv_empty raw)
    exact ⟨_, packageOf_ok.2 ⟨info, raw, placements, p, hinfo, hr, ha, rfl⟩⟩

/-- **The hierarchy of an accepted dump holds what its definitions describe**: they are placed in their order, each with
the outline of its description. -/
theorem placements_of_packageOf (hdocument : Value.entriesAreJson document = true) {root : Package}
    (h : packageOf defaultName document = .ok root) : ∃ info raw placements, readInfo document = .ok info ∧
      readDefinitions document = .ok raw ∧ AllGood raw ∧ placements.map (·.1) = keysOf raw ∧
      (∀ e ∈ placements, ∃ fields o, Value.lookup e.1 raw = some (.map fields) ∧
        describeDefinition raw e.1 fields = .ok o ∧ e.2.outline = o.outline) ∧
      root = placeEach placements (emptyRoot defaultName info) := by
  obtain ⟨info, raw, placements, p, hinfo, hr, ha, hroot⟩ := packageOf_ok.1 h
  have hraw := entriesAreJson_of_readDefinitions hdocument hr
  have hgood := ha.allGood hraw
  obtain ⟨hkeys, hcomplete⟩ := ha.complete hraw (fun _ => id) (inv_empty raw)
  refine ⟨info, raw, placements, hinfo, hr, hgood, hkeys, fun e he => ?_, hroot⟩
  obtain ⟨-, fields, o, hl, ho, houtline, -⟩ := hcomplete e he
  exact ⟨fields, o, hl, ho, houtline hgood.typed⟩

end SchemaDocs.Dump
