import SchemaDocs.Proofs.Courses

/-!
# What is tracked while definitions are read

The schemas of a dump come from one reading in which nodes, references and definitions call each other, and a
definition can be referred to before it has been read in full. To show something of these schemas it is enough to say
what is to hold of a node, of a definition that has been read so far, and of one that has been read in full, and that
each follows from the parts (`Tracking`). What is said may depend on a world that grows with the reading. Then it holds
of every schema that is read, in whatever order and however the definitions refer to each other
(`Tracking.ends_resolveWithin`), and what has been read in full stays as it is.
-/

namespace SchemaDocs.Dump

def IsDefined (raw : List (Value × Value)) (key : String) (fields : List (Value × Value)) : Prop :=
  (Value.lookup key raw).map Value.unmarked = some (.map fields)

theorem IsDefined.unique {raw fields fields' : List (Value × Value)} {key : String} (h : IsDefined raw key fields)
    (h' : IsDefined raw key fields') : fields = fields' := by
  rw [IsDefined, h, Option.some.injEq, Value.map.injEq] at h'
  exact h'

theorem IsDefined.mem_keysOf {raw fields : List (Value × Value)} {key : String} (h : IsDefined raw key fields) :
    key ∈ keysOf raw := by
  obtain ⟨value, hl, -⟩ := Option.map_eq_some_iff.1 h
  exact Dump.mem_keysOf (Value.mem_of_lookup hl)

/-- The definitions of a dump with so many levels of references left. -/
def definitionsWithin (raw : List (Value × Value)) (levels : Nat) : Definitions where
  isDefined name := (Value.lookup name raw).isSome
  resolve := resolveWithin raw levels

/-- The schema is what the fields of the definition under this key have been read as. -/
def ParsedFrom (raw : List (Value × Value)) (key : String) (s : Schema) : Prop :=
  ∃ fields levels p p', IsDefined raw key fields ∧
    readFields (enter key) key (rawFields (readNode (definitionsWithin raw levels)) [] fields) p = .ok (s, p')

/-! ## Resolving step by step -/

section Resolving

variable {raw fields : List (Value × Value)} {key : String} {p : Progress} {s : Schema} {levels : Nat}

theorem newNumber_apply (p : Progress) : newNumber p = .ok (p.count, { p with count := p.count + 1 }) := rfl

theorem enter_apply (key : String) (s : Schema) (p : Progress) :
    enter key s p = .ok ((), { p with table := Assoc.put key s p.table }) := rfl

/-- It makes no difference to the reading of a definition that nothing is known of it at first. -/
theorem readFields_entered (key location : String) (fields : RawFields Reading) (p : Progress) :
    readFields (enter key) location fields { p with table := Assoc.put key {} p.table } =
      readFields (enter key) location fields p := by
  unfold readFields
  cases hhead : readHead location fields.values with
  | error e => rfl
  | ok head =>
    simp only [bind, StateT.bind, Except.bind, newNumber_apply, enter_apply, liftM, monadLift, MonadLift.monadLift,
      StateT.lift, pure, Except.pure, Assoc.put_put]

theorem resolveWithin_of_known (h : Assoc.get? key p.table = some s) : resolveWithin raw levels key p = .ok (s, p) := by
  have hknown : known? key p = .ok (some s, p) := congrArg (fun found => Except.ok (found, p)) h
  cases levels <;> simp only [resolveWithin, Bind.bind, StateT.bind, Except.bind, hknown] <;> rfl

/-- Nothing more can be resolved at the last level. -/
theorem resolveWithin_zero (h : Assoc.get? key p.table = none) :
    resolveWithin raw 0 key p = .error (.definitionNotObject key) := by
  have hknown : known? key p = .ok (none, p) := congrArg (fun found => Except.ok (found, p)) h
  simp only [resolveWithin, Bind.bind, StateT.bind, Except.bind, hknown]
  rfl

/-- A definition that nothing is known of is read. -/
theorem resolveWithin_of_defined (h : Assoc.get? key p.table = none) (hfields : IsDefined raw key fields) :
    resolveWithin raw (levels + 1) key p =
      readFields (enter key) key (rawFields (readNode (definitionsWithin raw levels)) [] fields) p := by
  have hknown : known? key p = .ok (none, p) := congrArg (fun found => Except.ok (found, p)) h
  rw [IsDefined] at hfields
  simp only [resolveWithin, Bind.bind, StateT.bind, Except.bind, hknown, hfields]
  exact readFields_entered ..

theorem resolveWithin_of_undefined (h : Assoc.get? key p.table = none)
    (hfields : ∀ fields, ¬ IsDefined raw key fields) :
    resolveWithin raw levels key p = .error (.definitionNotObject key) := by
  have hknown : known? key p = .ok (none, p) := congrArg (fun found => Except.ok (found, p)) h
  cases levels with
  | zero => exact resolveWithin_zero h
  | succ levels =>
    simp only [resolveWithin, Bind.bind, StateT.bind, Except.bind, hknown]
    unfold IsDefined at hfields
    generalize (Value.lookup key raw).map Value.unmarked = found at hfields
    split
    · exact absurd rfl (hfields _)
    · rfl

end Resolving

/-! ## The nodes that have been read -/

/-- The nodes that have been read in full, each under its number, and the number of nodes that have been begun. -/
structure Register where
  node : Nat → Option Schema
  count : Nat
  fresh : ∀ {m}, count ≤ m → node m = none

namespace Register

variable {u v w : Register} {s t : Schema} {n : Nat}

def Has (w : Register) (s : Schema) : Prop := ∃ n, s.number = some n ∧ w.node n = some s

/-- Whatever is in the first register is in the second one. -/
structure Grows (v w : Register) : Prop where
  count : v.count ≤ w.count
  node : ∀ {m t}, v.node m = some t → w.node m = some t

/-- The second register comes later in a reading: of the nodes that had been begun by then, no other ones have been
read in full. -/
structure Later (v w : Register) : Prop where
  count : v.count ≤ w.count
  node : ∀ {m}, m < v.count → w.node m = v.node m

theorem Has.grows (h : v.Has s) (hw : v.Grows w) : w.Has s := by
  obtain ⟨n, hn, hs⟩ := h
  exact ⟨n, hn, hw.node hs⟩

theorem Later.refl (w : Register) : w.Later w := ⟨Nat.le_refl _, fun _ => rfl⟩

theorem Later.trans (h : u.Later v) (h' : v.Later w) : u.Later w :=
  ⟨Nat.le_trans h.count h'.count, fun hm => (h'.node (Nat.lt_of_lt_of_le hm h.count)).trans (h.node hm)⟩

theorem Later.grows (h : v.Later w) : v.Grows w := by
  refine ⟨h.count, fun {m t} ht => ?_⟩
  have hm : m < v.count := by
    by_contra hm
    rw [v.fresh (Nat.le_of_not_lt hm)] at ht
    cases ht
  rw [h.node hm, ht]

/-- Nothing has been read. -/
def empty : Register := ⟨fun _ => none, 0, fun _ => rfl⟩

def next (w : Register) : Register := ⟨w.node, w.count + 1, fun hm => w.fresh (Nat.le_of_succ_le hm)⟩

@[simp] theorem next_count (w : Register) : w.next.count = w.count + 1 := rfl

@[simp] theorem next_node (w : Register) : w.next.node = w.node := rfl

theorem later_next (w : Register) : w.Later w.next := ⟨Nat.le_succ _, fun _ => rfl⟩

/-- A node that has been begun is read in full. -/
def add (w : Register) (n : Nat) (s : Schema) (hn : n < w.count) : Register where
  node m := if m = n then some s else w.node m
  count := w.count
  fresh {m} hm := by
    rw [if_neg (by omega)]
    exact w.fresh hm

theorem node_add {hn : n < w.count} (m : Nat) : (w.add n s hn).node m = if m = n then some s else w.node m := rfl

theorem grows_add {hn : n < w.count} (hnew : w.node n = none) : w.Grows (w.add n s hn) := by
  refine ⟨Nat.le_refl _, fun {m t} ht => ?_⟩
  rw [node_add, if_neg, ht]
  rintro rfl
  rw [hnew] at ht
  cases ht

theorem has_add {hn : n < w.count} (h : s.number = some n) : (w.add n s hn).Has s :=
  ⟨n, h, by rw [node_add, if_pos rfl]⟩

/-- A register is later than one at which a node had not been begun that has been read in full since. -/
theorem Later.add (h : v.Later w) {hn : n < w.count} (hv : v.count ≤ n) : v.Later (w.add n s hn) := by
  refine ⟨h.count, fun {m} hm => ?_⟩
  rw [node_add, if_neg (by omega), h.node hm]

end Register

/-! ## Tracking -/

/-- What is tracked while the definitions of a dump are read: what holds between a raw node and the schema read from
it, and what holds of the schema of a definition that has been read so far or in full. -/
structure Tracking (raw : List (Value × Value)) where
  Node : Register → Value → Schema → Prop
  Part : Register → String → Schema → Prop
  Whole : Register → String → Schema → Prop
  node_grows : ∀ {v w value s}, v.Grows w → Node v value s → Node w value s
  part_grows : ∀ {v w key s}, v.Grows w → Part v key s → Part w key s
  whole_grows : ∀ {v w key s}, v.Grows w → Whole v key s → Whole w key s
  node_knot : ∀ {w mark value s}, Node w value s → Node w (.knot mark value) s
  /-- A node that is written out, when its parts have been read. -/
  node_written : ∀ {w fields s}, field "$ref" fields = .null → w.Has s → Own fields s → ReadFrom (Node w) fields s →
    Node w (.map fields) s
  /-- A node that refers to a definition, of which as much is known as has been read. -/
  node_reference : ∀ {w fields name s} {number description default readOnly decorators}, RefersTo name fields →
    Part w name s → Beside fields description default readOnly decorators →
      w.Has (asReference s number description default readOnly decorators) →
        Node w (.map fields) (asReference s number description default readOnly decorators)
  /-- A definition of which some parts have been read. -/
  part_read : ∀ {w key fields s step}, IsDefined raw key fields → ReadTo step (Node w) fields s → Part w key s
  /-- A definition that has been read in full. -/
  whole_read : ∀ {w key fields s}, IsDefined raw key fields → w.Has s → Own fields s → ReadFrom (Node w) fields s →
    ParsedFrom raw key s → Whole w key s

namespace Tracking

variable {raw : List (Value × Value)} (T : Tracking raw) (opened : List String)

/-- The state of a reading in which the definitions in `opened` have not been read in full. -/
structure Stands (w : Register) (p : Progress) : Prop where
  count : w.count = p.count
  part : ∀ {key s}, Assoc.get? key p.table = some s → T.Part w key s
  whole : ∀ {key s}, Assoc.get? key p.table = some s → key ∉ opened → T.Whole w key s

/-- What has been read in full stays as it is. -/
def Kept (opened : List String) (p p' : Progress) : Prop :=
  ∀ {key s}, key ∉ opened → Assoc.get? key p.table = some s → Assoc.get? key p'.table = some s

theorem Kept.refl (p : Progress) : Kept opened p p := fun _ h => h

theorem Kept.trans {opened : List String} {p p' p'' : Progress} (h : Kept opened p p') (h' : Kept opened p' p'') :
    Kept opened p p'' := fun hk hs => h' hk (h hk hs)

variable {T opened}

theorem Stands.grows {v w : Register} {p p' : Progress} (h : T.Stands opened v p) (hw : v.Grows w)
    (hcount : w.count = p'.count) (htable : p'.table = p.table) : T.Stands opened w p' :=
  ⟨hcount, fun hs => T.part_grows hw (h.part (htable ▸ hs)), fun hs hk => T.whole_grows hw (h.whole (htable ▸ hs) hk)⟩

theorem Stands.mono {opened' : List String} {w : Register} {p : Progress} (h : T.Stands opened w p)
    (hopened : opened ⊆ opened') : T.Stands opened' w p :=
  ⟨h.count, h.part, fun hs hk => h.whole hs fun hm => hk (hopened hm)⟩

variable (T opened) in
/-- A reading in which the definitions in `opened` have not been read in full. Its worlds are the registers, together
with the states that they describe. -/
def course : Course where
  World := Register × Progress
  Stands w p := w.2 = p ∧ T.Stands opened w.1 p
  Later v w := v.1.Later w.1 ∧ Kept opened v.2 w.2
  Closes v w := v.1.Grows w.1 ∧ v.2 = w.2
  Grows v w := v.1.Grows w.1
  Has w s := w.1.Has s
  Node w := T.Node w.1
  Part w := T.Part w.1
  Scope _ _ _ _ := True
  Fault _ := True

theorem path_course : (T.course opened).Path (T.course opened).Later where
  refl w := ⟨.refl w.1, Kept.refl opened w.2⟩
  trans h h' := ⟨h.1.trans h'.1, fun hk hs => h'.2 hk (h.2 hk hs)⟩
  of_later h := h
  grows h := h.1.grows
  begins := by
    rintro ⟨w, q⟩ p ⟨hq, hp⟩
    obtain rfl : q = p := hq
    have hp : T.Stands opened w q := hp
    have hnext : T.Stands opened w.next { q with count := q.count + 1 } :=
      hp.grows w.later_next.grows (by rw [Register.next_count, hp.count]) rfl
    refine ⟨(w.next, { q with count := q.count + 1 }), ⟨w.later_next, Kept.refl opened q⟩, ⟨rfl, hnext⟩, ?_⟩
    rintro ⟨u, p'⟩ _ s ⟨hu, hkept⟩ ⟨⟨⟩, hp'⟩ hnumber
    rw [← hp.count] at hnumber
    have hu : w.next.Later u := hu
    have hn : w.count < u.count := hu.count
    -- no other node can have been read in full under this number
    have hnew : u.node w.count = none := by
      rw [hu.node (by simp), Register.next_node, w.fresh (Nat.le_refl _)]
    have hgrows : u.Grows (u.add w.count s hn) := Register.grows_add hnew
    have hlater : w.Later (u.add w.count s hn) := (w.later_next.trans hu).add (Nat.le_refl _)
    have hhas : (u.add w.count s hn).Has s := Register.has_add hnumber
    exact ⟨(u.add w.count s hn, p'), ⟨hlater, hkept⟩, ⟨hgrows, rfl⟩, ⟨rfl, hp'.grows hgrows hp'.count rfl⟩,
      hhas⟩

variable (T opened) in
/-- What is tracked follows from the parts. -/
theorem lawful_course : (T.course opened).Lawful where
  path := path_course
  closes_grows h := h.1
  node_grows h hs := T.node_grows h hs
  part_grows h hs := T.part_grows h hs
  node_knot h := T.node_knot h
  node_written := T.node_written
  node_reference := T.node_reference
  scope_later _ _ := trivial
  scope_knot _ := trivial
  scope_part _ _ _ := trivial
  fault_node _ _ := trivial
  fault_unordered _ _ _ := trivial
  fault_endless _ _ := trivial

/-! ## Definitions -/

/-- The schema that has been read of a definition is in the table in the end. -/
theorem ends_published (key location : String) (fields : RawFields Reading) (p : Progress) :
    Ends (readFields (enter key) location fields) p (fun s p' => Assoc.get? key p'.table = some s) True := by
  unfold readFields
  iterate 16 refine .bind (.any _ _) fun _ _ _ => ?_
  refine .bind_enter (.pure ?_)
  rw [Assoc.put, Assoc.get?_alter_self]

theorem Stands.put {w : Register} {p : Progress} {key : String} {s : Schema} (h : T.Stands (key :: opened) w p)
    (hs : T.Part w key s) : T.Stands (key :: opened) w { p with table := Assoc.put key s p.table } where
  count := h.count
  part {k t} ht := by
    by_cases hk : k = key
    · subst hk
      rw [Assoc.put, Assoc.get?_alter_self] at ht
      cases ht
      exact hs
    · rw [Assoc.put, Assoc.get?_alter_of_ne hk] at ht
      exact h.part ht
  whole {k t} ht hk := by
    rw [Assoc.put, Assoc.get?_alter_of_ne (List.ne_and_not_mem_of_not_mem_cons hk).1] at ht
    exact h.whole ht hk

/-- What has been read of a definition is handed on through the table. -/
theorem publishes_definition {w : Register × Progress} {key : String} {fields : List (Value × Value)}
    (hfields : IsDefined raw key fields) : (T.course (key :: opened)).Publishes (T.course (key :: opened)).Later w []
      fields (enter key) fun _ _ _ => True := by
  have henter {step : Nat} {v : Register × Progress} {s : Schema} (h : ReadTo step (T.Node v.1) fields s) :
      (T.course (key :: opened)).Keeps (T.course (key :: opened)).Later v (enter key s) fun _ _ => True := by
    rintro p ⟨hv, hp⟩
    have hp := hp.put (T.part_read hfields h)
    refine ⟨(v.1, { p with table := Assoc.put key s p.table }), ⟨.refl v.1, fun {k t} hk ht => ?_⟩, ⟨rfl, hp⟩, trivial⟩
    rwa [Assoc.put, Assoc.get?_alter_of_ne (List.ne_and_not_mem_of_not_mem_cons hk).1, ← hv]
  exact {
    later := fun _ _ => trivial
    closes := fun _ _ => trivial
    first := fun _ _ h => henter h
    next := fun _ _ h => henter h
    scope := fun _ _ => trivial
    unordered := fun _ => trivial }

/-- A definition that has been read in full is not opened any more. -/
theorem Stands.close {w : Register} {p : Progress} {key : String} {s : Schema} (h : T.Stands (key :: opened) w p)
    (hs : Assoc.get? key p.table = some s) (hwhole : T.Whole w key s) : T.Stands opened w p where
  count := h.count
  part := h.part
  whole {k t} ht hk := by
    by_cases hkey : k = key
    · subst hkey
      cases hs.symm.trans ht
      exact hwhole
    · exact h.whole ht (by simp [hkey, hk])

variable (T) in
/-- **Resolving a definition gives a schema of which as much is known as has been read**, and it is the one in the table
unless the definition is opened. -/
theorem keeps_resolveWithin : ∀ (levels : Nat) {opened : List String} (key : String) (w : Register × Progress),
    (T.course opened).Keeps (T.course opened).Later w (resolveWithin raw levels key) fun v s =>
      T.Part v.1 key s ∧ (key ∉ opened → Assoc.get? key v.2.table = some s)
  | levels, opened, key, (w, p) => by
    rintro _ ⟨⟨⟩, hp⟩
    cases hknown : Assoc.get? key p.table with
    | some s =>
      rw [resolveWithin_of_known hknown]
      exact ⟨(w, p), path_course.refl _, ⟨rfl, hp⟩, hp.part hknown, fun _ => hknown⟩
    | none => cases levels with
      | zero =>
        rw [resolveWithin_zero hknown]
        trivial
      | succ levels =>
        by_cases hdefined : ∃ fields, IsDefined raw key fields
        · obtain ⟨fields, hfields⟩ := hdefined
          rw [resolveWithin_of_defined hknown hfields]
          have hresolves : (T.course (key :: opened)).Resolves (definitionsWithin raw levels) := fun _ _ _ =>
            (keeps_resolveWithin levels _ _).weaken fun _ _ h => h.1
          have hread := (Course.readsFields (T.lawful_course _) hresolves [] fields).readFields (T.lawful_course _)
            path_course (publishes_definition (w := (w, p)) hfields) key
          have hends := hread p ⟨rfl, hp.mono (List.subset_cons_self key opened)⟩
          revert hends
          cases hrun : readFields (enter key) key (rawFields (readNode (definitionsWithin raw levels)) [] fields) p with
          | error e => exact id
          | ok r =>
            obtain ⟨s, p'⟩ := r
            rintro ⟨⟨v, q⟩, ⟨hv, hkept⟩, ⟨hq, hp'⟩, hhas, hown, hs, -⟩
            obtain rfl : q = p' := hq
            have htable : Assoc.get? key q.table = some s := (ends_published ..).of_ok hrun
            have hwhole := T.whole_read hfields hhas hown hs ⟨fields, levels, p, q, hfields, hrun⟩
            refine ⟨(v, q), ⟨hv, fun {k t} hk ht => ?_⟩, ⟨rfl, hp'.close htable hwhole⟩, hp'.part htable,
              fun _ => htable⟩
            have hkey : k ≠ key := fun he => by
              rw [he, hknown] at ht
              cases ht
            exact hkept (by simp [hkey, hk]) ht
        · rw [resolveWithin_of_undefined hknown (not_exists.1 hdefined)]
          trivial

end Tracking

/-- The model types have names. -/
def namesTracked (raw : List (Value × Value)) : Tracking raw where
  Node _ _ _ := True
  Part _ _ s := Named s
  Whole _ _ _ := True
  node_grows _ h := h
  part_grows _ h := h
  whole_grows _ h := h
  node_knot h := h
  node_written _ _ _ _ := trivial
  node_reference _ _ _ _ := trivial
  part_read _ h := h.modelType.elim fun _ => named_of_modelTypeField
  whole_read _ _ _ _ _ := trivial

end SchemaDocs.Dump
