import SchemaDocs.Package.Basic
import SchemaDocs.Proofs.Splitting
import SchemaDocs.Proofs.Table

/-!
# The shape of a package hierarchy

A position in a hierarchy is written down three times: in the names that lead to a package, in its name and in
its path. `Placed` says that the three agree. It holds of an empty root and is kept by every insertion
(`Placed.insertAt`), which may make several levels at once. In a placed hierarchy the walk meets every package
once, in strictly increasing order of its segments (`Placed.walk_pairwise`).
-/

namespace SchemaDocs.Package

/-! ## Induction -/

/-- What holds of a package whenever it holds of its sub-packages holds of every package. -/
theorem inductionOn {P : Package → Prop} (p : Package)
    (step : ∀ p : Package, (∀ e ∈ p.subpackages, P e.2) → P p) : P p :=
  step p fun e he =>
    have : sizeOf e.2 < sizeOf p := by
      have h1 := List.sizeOf_lt_of_mem he
      obtain ⟨name, path, description, schemas, subpackages⟩ := p
      obtain ⟨key, child⟩ := e
      simp only [Prod.mk.sizeOf_spec, Package.mk.sizeOf_spec] at h1 ⊢
      omega
    inductionOn e.2 step
termination_by sizeOf p

/-! ## Paths -/

/-- A name that can stand between two dots of a path. -/
def IsSegment (s : String) : Prop := s ≠ "" ∧ '.' ∉ s.toList

/-- The path that leads through the given names. -/
def pathOf (segments : List String) : String := Text.join "." segments

theorem join_eq_empty : ∀ {segments : List String}, (∀ s ∈ segments, s ≠ "") → Text.join "." segments = "" →
    segments = []
  | [], _, _ => rfl
  | [s], h, e => absurd e (h s (by simp))
  | s :: t :: rest, h, e => by
    have := congrArg (fun x => x.toList.length) e
    simp [Text.join, String.toList_append] at this

/-- **The segments of a path are the names it was joined from.** -/
theorem segmentsOf_pathOf {segments : List String} (h : ∀ s ∈ segments, IsSegment s) :
    segmentsOf (pathOf segments) = segments := by
  unfold segmentsOf pathOf
  cases segments with
  | nil => rfl
  | cons s rest =>
    have hne : Text.join "." (s :: rest) ≠ "" := fun e => by
      have := join_eq_empty (fun t ht => (h t ht).1) e
      simp at this
    rw [if_neg (by simpa [String.isEmpty_iff] using hne)]
    exact @Text.split_join '.' _ (by simp) fun t ht => (h t ht).2

theorem pathOf_segmentsOf (path : String) : pathOf (segmentsOf path) = path := by
  unfold segmentsOf pathOf
  split
  · rename_i h
    simpa [Text.join] using (String.isEmpty_iff.1 h).symm
  · exact Text.join_split '.' path

/-- Splitting a path gives names without dots, so only an empty one can be no segment. -/
theorem isSegment_of_mem {path s : String} (h : s ∈ segmentsOf path) (hne : "" ∉ segmentsOf path) : IsSegment s := by
  refine ⟨fun e => hne (e ▸ h), ?_⟩
  unfold segmentsOf at h
  split at h
  · simp at h
  · exact Text.not_mem_of_mem_split h

theorem mem_of_mem_segmentsOf {path s : String} {x : Char} (hs : s ∈ segmentsOf path) (hx : x ∈ s.toList) :
    x ∈ path.toList := by
  unfold segmentsOf at hs
  split at hs
  · simp at hs
  · exact Text.mem_of_mem_split hs hx

/-! ## Placed packages -/

/-- The package stands where the names `above` lead, and so does every package below it. -/
inductive Placed : List String → Package → Prop
  | intro {above : List String} {p : Package} (path : p.path = pathOf above)
      (schemas : (p.schemas.map (·.1)).Nodup) (subpackages : (p.subpackages.map (·.1)).Nodup)
      (named : ∀ name child, (name, child) ∈ p.subpackages →
        IsSegment name ∧ child.name = name ∧ child.description = "")
      (below : ∀ name child, (name, child) ∈ p.subpackages → Placed (above ++ [name]) child) : Placed above p

namespace Placed

variable {above : List String} {p q : Package}

theorem path_eq : Placed above p → p.path = pathOf above
  | .intro path _ _ _ _ => path

theorem nodup_schemas : Placed above p → (p.schemas.map (·.1)).Nodup
  | .intro _ schemas _ _ _ => schemas

theorem nodup_subpackages : Placed above p → (p.subpackages.map (·.1)).Nodup
  | .intro _ _ subpackages _ _ => subpackages

theorem named {name : String} {child : Package} : Placed above p → (name, child) ∈ p.subpackages →
    IsSegment name ∧ child.name = name ∧ child.description = ""
  | .intro _ _ _ named _, h => named name child h

theorem child {name : String} {child : Package} : Placed above p → (name, child) ∈ p.subpackages →
    Placed (above ++ [name]) child
  | .intro _ _ _ _ below, h => below name child h

theorem segments_eq (h : Placed above p) (ha : ∀ s ∈ above, IsSegment s) : p.segments = above := by
  rw [segments, h.path_eq, segmentsOf_pathOf ha]

/-- A package without content is placed wherever its path says. -/
theorem ofEmpty (hp : p.path = pathOf above) (hs : p.schemas = []) (hb : p.subpackages = []) : Placed above p :=
  .intro hp (by simp [hs]) (by simp [hb]) (fun _ _ h => by simp [hb] at h) fun _ _ h => by simp [hb] at h

/-- **Insertion keeps a hierarchy placed**, however many packages it makes on the way. -/
theorem insertAt (visible : String) (schema : Schema) : ∀ {rest above : List String} {p : Package},
    Placed above p → (∀ s ∈ rest, IsSegment s) → Placed above (p.insertAt visible schema above rest)
  | [], above, p, h, _ =>
    .intro h.path_eq (Assoc.nodup_alter h.nodup_schemas _ _) h.nodup_subpackages (fun _ _ => h.named)
      fun _ _ => h.child
  | s :: rest, above, p, h, hs => by
    have hrest : ∀ t ∈ rest, IsSegment t := fun t ht => hs t (List.mem_cons_of_mem _ ht)
    have hnodup := Assoc.nodup_alter h.nodup_subpackages s fun child =>
      Package.insertAt visible schema (above ++ [s]) rest
        (child.getD { name := s, path := Text.join "." (above ++ [s]) })
    have hchild : ∀ name child, (name, child) ∈ (p.insertAt visible schema above (s :: rest)).subpackages →
        (IsSegment name ∧ child.name = name ∧ child.description = "") ∧ Placed (above ++ [name]) child := by
      intro name child hm
      have hget := Assoc.get?_of_mem hnodup hm
      by_cases hn : name = s
      · subst hn
        rw [Assoc.get?_alter_self, Option.some_inj] at hget
        subst hget
        cases hc : Assoc.get? name p.subpackages with
        | none =>
          refine ⟨⟨hs name (by simp), ?_, ?_⟩, insertAt visible schema (ofEmpty rfl rfl rfl) hrest⟩ <;>
            cases rest <;> rfl
        | some old =>
          have hm := Assoc.mem_of_get? hc
          obtain ⟨h1, h2, h3⟩ := h.named hm
          refine ⟨⟨h1, ?_, ?_⟩, insertAt visible schema (h.child hm) hrest⟩
          · rw [← h2]; cases rest <;> rfl
          · rw [← h3]; cases rest <;> rfl
      · rw [Assoc.get?_alter_of_ne hn] at hget
        have hm := Assoc.mem_of_get? hget
        exact ⟨h.named hm, h.child hm⟩
    exact .intro h.path_eq h.nodup_schemas hnodup (fun name child hm => (hchild name child hm).1)
      fun name child hm => (hchild name child hm).2

end Placed

/-! ## Looking up -/

def schemaAt? (segments : List String) (visible : String) (p : Package) : Option Schema :=
  (p.find? segments).bind fun q => Assoc.get? visible q.schemas

@[simp] theorem find?_nil (p : Package) : p.find? [] = some p := rfl

theorem find?_cons (s : String) (rest : List String) (p : Package) :
    p.find? (s :: rest) = (Assoc.get? s p.subpackages).bind fun child => child.find? rest := by
  cases h : Assoc.get? s p.subpackages <;> simp [find?, h]

theorem find?_append : ∀ (segments names : List String) (p : Package),
    p.find? (segments ++ names) = (p.find? segments).bind fun q => q.find? names
  | [], _, _ => rfl
  | s :: rest, names, p => by
    rw [List.cons_append, find?_cons, find?_cons, Option.bind_assoc]
    exact congrArg _ (funext fun child => find?_append rest names child)

theorem find?_ofEmpty {p : Package} (hb : p.subpackages = []) (segments : List String) :
    (p.find? segments).isSome ↔ segments = [] := by
  cases segments <;> simp [find?_cons, hb, Assoc.get?]

theorem schemaAt?_ofEmpty {p : Package} (hs : p.schemas = []) (hb : p.subpackages = []) (visible : String)
    (segments : List String) : schemaAt? segments visible p = none := by
  cases segments <;> simp [schemaAt?, find?_cons, hs, hb, Assoc.get?]

/-- Insertion makes exactly the packages on the way that were missing. -/
theorem find?_insertAt (visible : String) (schema : Schema) : ∀ {rest above : List String} {p : Package}
    {segments : List String}, ((p.insertAt visible schema above rest).find? segments).isSome ↔
      segments <+: rest ∨ (p.find? segments).isSome
  | rest, above, p, [] => by simp
  | [], above, p, n :: ns => by simp [insertAt, find?_cons]
  | s :: rest, above, p, n :: ns => by
    rw [find?_cons, find?_cons, List.cons_prefix_cons]
    simp only [insertAt]
    by_cases hn : n = s
    · subst hn
      rw [Assoc.get?_alter_self, Option.bind_some, find?_insertAt visible schema]
      cases hc : Assoc.get? n p.subpackages with
      | none =>
        simp only [Option.getD_none, find?_ofEmpty, true_and, Option.bind_none, Option.isSome_none,
          Bool.false_eq_true, or_false, or_iff_left_iff_imp]
        rintro rfl
        exact List.nil_prefix
      | some child => simp
    · rw [Assoc.get?_alter_of_ne hn]
      simp [hn]

/-- Insertion changes what is visible at its own place and nowhere else. -/
theorem schemaAt?_insertAt (visible : String) (schema : Schema) : ∀ {rest above : List String} {p : Package}
    {segments : List String} {name : String}, schemaAt? segments name (p.insertAt visible schema above rest) =
      if segments = rest ∧ name = visible then some schema else schemaAt? segments name p
  | [], above, p, [], name => by
    simp only [schemaAt?, insertAt, find?_nil, Option.bind_some, true_and, Assoc.put]
    split
    · rename_i h
      rw [h, Assoc.get?_alter_self]
    · rename_i h
      rw [Assoc.get?_alter_of_ne h]
  | [], above, p, n :: ns, name => by simp [schemaAt?, insertAt, find?_cons]
  | s :: rest, above, p, [], name => by simp [schemaAt?, insertAt]
  | s :: rest, above, p, n :: ns, name => by
    have hcons : ∀ q : Package, schemaAt? (n :: ns) name q =
        (Assoc.get? n q.subpackages).bind (schemaAt? ns name) := by
      intro q
      rw [schemaAt?, find?_cons, Option.bind_assoc]
      rfl
    rw [hcons, hcons]
    simp only [insertAt]
    by_cases hn : n = s
    · subst hn
      rw [Assoc.get?_alter_self, Option.bind_some, schemaAt?_insertAt visible schema]
      cases hc : Assoc.get? n p.subpackages with
      | none => simp [schemaAt?_ofEmpty]
      | some child => simp
    · rw [Assoc.get?_alter_of_ne hn]
      simp [hn]

/-! ## The walk -/

theorem walkEach_eq : ∀ packages : List (String × Package),
    walkEach packages = packages.map fun e => (e.1, e.2.walk)
  | [] => rfl
  | (name, p) :: rest => by rw [walkEach, walkEach_eq rest]; rfl

theorem walk_eq (p : Package) :
    p.walk = p :: (Assoc.sortByName (·.1) p.subpackages).flatMap fun e => e.2.walk := by
  obtain ⟨name, path, description, schemas, subpackages⟩ := p
  rw [walk, walkEach_eq, Assoc.sortByName_map, List.flatMap_map]
  rfl

namespace Placed

variable {above : List String} {p q : Package}

theorem find? : ∀ {segments above : List String} {p q : Package}, Placed above p → p.find? segments = some q →
    Placed (above ++ segments) q ∧ ∀ s ∈ segments, IsSegment s
  | [], above, p, q, h, hq => by
    cases hq
    exact ⟨by simpa using h, by simp⟩
  | s :: rest, above, p, q, h, hq => by
    rw [find?_cons, Option.bind_eq_some_iff] at hq
    obtain ⟨child, hc, hq⟩ := hq
    have hm := Assoc.mem_of_get? hc
    obtain ⟨h1, h2⟩ := find? (h.child hm) hq
    refine ⟨by simpa using h1, fun t ht => ?_⟩
    rcases List.mem_cons.1 ht with rfl | ht
    · exact (h.named hm).1
    · exact h2 t ht

/-- A package below the first one is named by the last of the names that lead to it, and has no description. -/
theorem name_of_find? (h : Placed above p) {segments : List String} {name : String}
    (hq : p.find? (segments ++ [name]) = some q) : q.name = name ∧ q.description = "" := by
  rw [find?_append, Option.bind_eq_some_iff] at hq
  obtain ⟨r, hr, hq⟩ := hq
  rw [find?_cons, Option.bind_eq_some_iff] at hq
  obtain ⟨child, hc, hq⟩ := hq
  cases hq
  exact ((h.find? hr).1.named (Assoc.mem_of_get? hc)).2

/-- The names that lead to a schema can stand between dots. -/
theorem isSegment_of_schemaAt? (h : Placed above p) {segments : List String} {name : String} {schema : Schema}
    (hs : schemaAt? segments name p = some schema) : ∀ s ∈ segments, IsSegment s := by
  rw [schemaAt?, Option.bind_eq_some_iff] at hs
  obtain ⟨q, hq, -⟩ := hs
  exact (h.find? hq).2

/-- The walk meets the packages that some list of names leads to. -/
theorem mem_walk_iff (h : Placed above p) : q ∈ p.walk ↔ ∃ segments, p.find? segments = some q := by
  induction p using Package.inductionOn generalizing above with
  | step p ih =>
    rw [walk_eq, List.mem_cons, List.mem_flatMap]
    constructor
    · rintro (rfl | ⟨⟨name, child⟩, hc, hq⟩)
      · exact ⟨[], rfl⟩
      · rw [Assoc.mem_sortByName] at hc
        obtain ⟨segments, hs⟩ := (ih _ hc (h.child hc)).1 hq
        refine ⟨name :: segments, ?_⟩
        rw [find?_cons, Assoc.get?_of_mem h.nodup_subpackages hc]
        exact hs
    · rintro ⟨segments, hs⟩
      cases segments with
      | nil =>
        cases hs
        exact Or.inl rfl
      | cons name rest =>
        rw [find?_cons, Option.bind_eq_some_iff] at hs
        obtain ⟨child, hc, hq⟩ := hs
        have hm := Assoc.mem_of_get? hc
        exact Or.inr ⟨(name, child), (Assoc.mem_sortByName _).2 hm,
          (ih _ hm (h.child hm)).2 ⟨rest, hq⟩⟩

/-- Every package of a hierarchy has its place there. -/
theorem of_mem_walk (h : Placed above p) (hq : q ∈ p.walk) :
    ∃ segments, p.find? segments = some q ∧ Placed (above ++ segments) q ∧ ∀ s ∈ segments, IsSegment s := by
  obtain ⟨segments, hf⟩ := h.mem_walk_iff.1 hq
  exact ⟨segments, hf, h.find? hf⟩

theorem append_lt_append {s t : List String} : ∀ (above : List String), s < t → above ++ s < above ++ t
  | [], h => h
  | _ :: above, h => List.Lex.cons (append_lt_append above h)

/-- **The walk is in strictly increasing order of segments**: a package before the packages below it, and these
by their names. -/
theorem walk_pairwise (h : Placed above p) (ha : ∀ s ∈ above, IsSegment s) :
    p.walk.Pairwise fun q r => q.segments < r.segments := by
  induction p using Package.inductionOn generalizing above with
  | step p ih =>
    have hplace : ∀ {name child}, (name, child) ∈ p.subpackages → ∀ s ∈ above ++ [name], IsSegment s := by
      intro name child hc s hs
      rcases List.mem_append.1 hs with hs | hs
      · exact ha s hs
      · rw [List.mem_singleton.1 hs]
        exact (h.named hc).1
    -- a package below the sub-package `name` has `name` next in its segments
    have hsegs : ∀ {name child q}, (name, child) ∈ p.subpackages → q ∈ child.walk →
        ∃ rest, q.segments = above ++ name :: rest := by
      intro name child q hc hq
      have hchild := (h.child hc)
      obtain ⟨segments, -, hq', hs⟩ := hchild.of_mem_walk hq
      refine ⟨segments, ?_⟩
      rw [hq'.segments_eq (List.forall_mem_append.2 ⟨hplace hc, hs⟩)]
      simp
    rw [walk_eq, List.pairwise_cons]
    constructor
    · intro q hq
      obtain ⟨⟨name, child⟩, hc, hq⟩ := List.mem_flatMap.1 hq
      obtain ⟨rest, hr⟩ := hsegs ((Assoc.mem_sortByName _).1 hc) hq
      rw [h.segments_eq ha, hr]
      simpa using append_lt_append above (List.Lex.nil (a := name) (l := rest))
    · rw [List.pairwise_flatMap]
      constructor
      · rintro ⟨name, child⟩ hc
        rw [Assoc.mem_sortByName] at hc
        exact ih _ hc (h.child hc) (hplace hc)
      · refine (Assoc.sortByName_pairwise Prod.fst h.nodup_subpackages).imp_of_mem ?_
        rintro ⟨m, c⟩ ⟨n, d⟩ hc hd hlt q hq r hr
        obtain ⟨s, hs⟩ := hsegs ((Assoc.mem_sortByName _).1 hc) hq
        obtain ⟨t, ht⟩ := hsegs ((Assoc.mem_sortByName _).1 hd) hr
        rw [hs, ht]
        exact append_lt_append above (List.Lex.rel hlt)

end Placed

end SchemaDocs.Package
