import SchemaDocs.Proofs.Placement

/-!
# Errors with a wording

A dump that cannot be read is refused with an error that says why, and the program ends with an error line. There are
three things it does not expect, and each of them ends it without one (`Defect`): the key of a definition is no text,
the names of the examples of a node have no common order, or a node lies in itself. Every other error has a wording
(`isWorded_or_defect`), whatever values the dump is made of.
-/

namespace SchemaDocs.Dump

def Error.IsWorded (e : Error) : Prop := e.message?.isSome = true

variable {raw : List (Value × Value)}

/-! ## Defects -/

/-- The raw value is read as a node on the way down from some definition, below the nodes with the first marks; its
parts lie also below those with the others. -/
inductive ReadWithin (raw : List (Value × Value)) : List (Nat × Nat) → List (Nat × Nat) → Value → Prop
  | part {key definition value : Value} {fields : List (Value × Value)} {step : Nat} (mem : (key, definition) ∈ raw)
    (mapping : definition.unmarked = .map fields) (part : value ∈ nodesAt fields step) : ReadWithin raw [] [] value
  | marked {around below : List (Nat × Nat)} {mark : Nat × Nat} {value : Value}
    (node : ReadWithin raw around below (.knot mark value)) : ReadWithin raw around (mark :: below) value
  | deeper {around below : List (Nat × Nat)} {fields : List (Value × Value)} {step : Nat} {value : Value}
    (node : ReadWithin raw around below (.map fields)) (written : field "$ref" fields = .null)
    (part : value ∈ nodesAt fields step) : ReadWithin raw below below value

/-- The fields are those of a definition or of a node that is written out. -/
def ReadFields (raw fields : List (Value × Value)) : Prop :=
  (∃ e ∈ raw, e.2.unmarked = .map fields) ∨
    ∃ around below, ReadWithin raw around below (.map fields) ∧ field "$ref" fields = .null

/-- Something in the definitions that the program does not expect. -/
inductive Defect (raw : List (Value × Value)) : Prop
  /-- The key of a definition is no text. -/
  | key {key value : Value} (mem : (key, value) ∈ raw) (notText : key.isStr = false)
  /-- The names of the examples of a node have no common order. -/
  | examples {fields : List (Value × Value)} (read : ReadFields raw fields) (unordered : UnorderedExamples fields)
  /-- A node lies in itself. -/
  | circle {around below : List (Nat × Nat)} {mark : Nat × Nat} {value : Value}
    (node : ReadWithin raw around below (.knot mark value)) (again : mark ∈ around)

/-! ## The reading of definitions -/

variable (raw) in
/-- The reading of the definitions, of which nothing is said but that its errors have words. -/
def wordedCourse : Course where
  World := Unit
  Stands _ _ := True
  Later _ _ := True
  Closes _ _ := True
  Grows _ _ := True
  Has _ _ := True
  Node _ _ _ := True
  Part _ _ _ := True
  Scope _ := ReadWithin raw
  Fault e := e.IsWorded ∨ Defect raw

/-- The reading has words for every error, unless there is a defect. -/
abbrev Worded {α : Type} (raw : List (Value × Value)) (x : Reading α) : Prop :=
  (wordedCourse raw).Keeps (wordedCourse raw).Later () x fun _ _ => True

theorem path_worded : (wordedCourse raw).Path (wordedCourse raw).Later where
  refl _ := trivial
  trans _ _ := trivial
  of_later _ := trivial
  grows _ := trivial
  begins _ := ⟨(), trivial, trivial, fun _ _ _ => ⟨(), trivial, trivial, trivial, trivial⟩⟩

theorem lawful_worded : (wordedCourse raw).Lawful where
  path := path_worded
  closes_grows _ := trivial
  node_grows _ _ := trivial
  part_grows _ _ := trivial
  node_knot _ := trivial
  node_written _ _ _ _ := trivial
  node_reference _ _ _ _ := trivial
  scope_later _ h := h
  scope_knot h := h.marked
  scope_part h href hm := h.deeper href hm
  fault_node _ _ := .inl rfl
  fault_unordered h href hunordered := .inr (.examples (.inr ⟨_, _, h, href⟩) hunordered)
  fault_endless h hmark := .inr (.circle h hmark)

theorem Worded.error {α : Type} {x : Reading α} (h : Worded raw x) {p : Progress} {e : Error} (hx : x p = .error e) :
    e.IsWorded ∨ Defect raw := by
  have := h p trivial
  rwa [hx] at this

theorem worded_enter (key : String) (s : Schema) : Worded raw (enter key s) :=
  fun _ _ => ⟨(), trivial, trivial, trivial⟩

/-- **A definition is read** with words for every error, unless there is a defect. -/
theorem worded_resolveWithin : ∀ (levels : Nat) (key : String), Worded raw (resolveWithin raw levels key)
  | levels, key => by
    intro p hp
    cases hknown : Assoc.get? key p.table with
    | some s =>
      rw [resolveWithin_of_known hknown]
      exact ⟨(), trivial, trivial, trivial⟩
    | none => cases levels with
      | zero =>
        rw [resolveWithin_zero hknown]
        exact .inl rfl
      | succ levels =>
        by_cases hdefined : ∃ fields, IsDefined raw key fields
        · obtain ⟨fields, hfields⟩ := hdefined
          obtain ⟨definition, hl, hdefinition⟩ := Option.map_eq_some_iff.1 hfields
          have hmem := Value.mem_of_lookup hl
          rw [resolveWithin_of_defined hknown hfields]
          have hresolves : (wordedCourse raw).Resolves (definitionsWithin raw levels) := fun _ _ _ =>
            worded_resolveWithin levels _
          have hpublishes : (wordedCourse raw).Publishes (wordedCourse raw).Later () [] fields (enter key)
              fun _ _ _ => True := {
            later := fun _ _ => trivial
            closes := fun _ _ => trivial
            first := fun _ _ _ => worded_enter key _
            next := fun _ _ _ => worded_enter key _
            scope := fun _ hm => .part hmem hdefinition hm
            unordered := fun h => .inr (.examples (.inl ⟨_, hmem, hdefinition⟩) h) }
          have hread := (Course.readsFields lawful_worded hresolves [] fields).readFields lawful_worded path_worded
            hpublishes key
          exact hread.weaken (fun _ _ _ => trivial) p hp
        · rw [resolveWithin_of_undefined hknown (not_exists.1 hdefined)]
          exact .inl rfl

/-- Every key is a text, so a schema can be put into the hierarchy or there are words for why not. -/
theorem worded_placeAll : ∀ {entries : List (Value × Value)} (root : Package), (∀ e ∈ entries, e ∈ raw) →
    Worded raw (placeAll raw entries root)
  | [], _, _ => .pure path_worded trivial
  | (key, value) :: rest, root, hsub => by
    by_cases hkey : key.isStr = true
    · obtain ⟨name, rfl⟩ : ∃ name, key = .str name := by
        cases key with
        | str name => exact ⟨name, rfl⟩
        | _ => cases hkey
      rw [placeAll]
      refine Course.Keeps.bind path_worded (worded_resolveWithin raw.length name) fun _ schema _ _ => ?_
      split
      · exact .throw (.inl rfl)
      · refine .bind_lift (fun e he => ?_) fun root _ =>
          worded_placeAll root fun e he => hsub e (List.mem_cons_of_mem _ he)
        simp only [place] at he
        split at he
        · cases he
          exact .inl rfl
        · cases he
    · have hdefect : Defect raw := .key (hsub _ List.mem_cons_self) (by simpa using hkey)
      intro p _
      cases placeAll raw ((key, value) :: rest) root p with
      | error e => exact .inr hdefect
      | ok r => exact ⟨(), trivial, trivial, trivial⟩

/-! ## Documents -/

variable {document : List (Value × Value)} {e : Error}

theorem readInfo_error (h : readInfo document = .error e) : e = .infoNotMapping := by
  unfold readInfo at h
  dsimp only at h
  split at h
  · cases h
  · split at h
    · cases h
    · exact (Except.error.inj h).symm

theorem readDefinitions_error (h : readDefinitions document = .error e) : e = .definitionsNotMapping := by
  unfold readDefinitions at h
  split at h
  · cases h
  · cases h
  · exact (Except.error.inj h).symm

theorem run'_error {α : Type} {x : Reading α} {p : Progress} : x.run' p = .error e ↔ x p = .error e := by
  simp only [StateT.run', Functor.map, Except.map]
  cases x p <;> simp

/-- **Every error with which a document is refused has a wording**, unless there is a defect in its definitions. -/
theorem isWorded_or_defect {defaultName : String} (h : packageOf defaultName document = .error e) :
    e.IsWorded ∨ ∃ raw, readDefinitions document = .ok raw ∧ Defect raw := by
  unfold packageOf at h
  cases hinfo : readInfo document with
  | error _ =>
    rw [hinfo] at h
    obtain rfl := Except.error.inj h
    rw [readInfo_error hinfo]
    exact .inl rfl
  | ok info =>
    cases hr : readDefinitions document with
    | error _ =>
      rw [hinfo, hr] at h
      obtain rfl := Except.error.inj h
      rw [readDefinitions_error hr]
      exact .inl rfl
    | ok raw =>
      rw [hinfo, hr] at h
      exact (Worded.error (worded_placeAll (emptyRoot defaultName info) fun _ => id) (run'_error.1 h)).imp_right
        fun hdefect => ⟨raw, rfl, hdefect⟩

end SchemaDocs.Dump
