import SchemaDocs.Proofs.Keys

/-!
# Faithful references

A node that refers to a definition has the parts that are known of the definition when the reference is read. If the
definition has been read in full by then, these are all its parts. If it is still being read, they are the parts up to
some step of its reading, and then a chain of references that begins at a node read in that step leads to the definition
in which the reference stands (`faithful_of_packageOf`). So references are faithful but for those that lead back, and
these lose the parts that come after (`not_faithful_of_returning`).

While definitions are read, one inside the other, each has a draft that says how far it has been read (`Draft`). Nothing
that is read below a definition changes the drafts of those above it, so each of them stays at the step whose nodes
lead on to what is read below.
-/

namespace SchemaDocs

namespace Schema

theorem upTo_upTo (i j : Nat) (s : Schema) : (s.upTo i).upTo j = s.upTo (min i j) := by
  have hite {α : Type} (n : Nat) (a b : α) :
      (if n ≤ j then if n ≤ i then a else b else b) = if n ≤ min i j then a else b := by
    rw [← ite_and]
    simp only [Nat.le_min, and_comm]
  simp only [upTo, hite]

theorem upTo_five (s : Schema) : s.upTo 5 = s := by
  cases s
  rfl

end Schema

/-- How far a schema has been read: up to a step of its reading, with the parts that have been read by then. -/
structure Draft where
  step : Nat
  schema : Schema
  upTo_step : schema.upTo step = schema

namespace Draft

/-- More has been read of the schema. -/
structure Grows (d e : Draft) : Prop where
  step : d.step ≤ e.step
  schema : e.schema.upTo d.step = d.schema

theorem Grows.refl (d : Draft) : d.Grows d := ⟨Nat.le_refl _, d.upTo_step⟩

theorem Grows.trans {d e f : Draft} (h : d.Grows e) (h' : e.Grows f) : d.Grows f := by
  refine ⟨Nat.le_trans h.step h'.step, ?_⟩
  rw [← h.schema, ← h'.schema, Schema.upTo_upTo, Nat.min_eq_right h.step]

end Draft

namespace Dump

variable {raw : List (Value × Value)} {fields : List (Value × Value)} {value : Value} {s t : Schema} {key name : String}
  {step : Nat}

/-! ## Where references stand -/

/-- The second raw node is the first one or stands in it, below written-out nodes only. -/
inductive Within : Value → Value → Prop
  | refl (value : Value) : Within value value
  | marked {mark : Nat × Nat} {value inner : Value} (h : Within value inner) : Within (.knot mark value) inner
  | part {fields : List (Value × Value)} {step : Nat} {value inner : Value} (written : field "$ref" fields = .null)
    (part : value ∈ nodesAt fields step) (h : Within value inner) : Within (.map fields) inner

/-- Among the nodes of a definition that are read in a step there is a reference to the name. -/
def RefersAt (raw : List (Value × Value)) (step : Nat) (key name : String) : Prop :=
  ∃ fields node target, IsDefined raw key fields ∧ node ∈ nodesAt fields step ∧ Within node (.map target) ∧
    RefersTo name target

/-- A chain of references leads from one definition to another one, from a node on that is read in a step. -/
inductive LeadsTo (raw : List (Value × Value)) : Nat → String → String → Prop
  | refers {step : Nat} {key name : String} (h : RefersAt raw step key name) : LeadsTo raw step key name
  | through {step step' : Nat} {key next name : String} (h : RefersAt raw step key next)
    (rest : LeadsTo raw step' next name) : LeadsTo raw step key name

/-- A name that is referred to from where a chain of references leads is led to as well. -/
theorem LeadsTo.append {step' : Nat} {next : String} (h : LeadsTo raw step key next)
    (h' : RefersAt raw step' next name) : LeadsTo raw step key name := by
  induction h with
  | refers h => exact .through h (.refers h')
  | through h _ ih => exact .through h (ih h')

/-! ## Places in a node and in its schema -/

/-- The raw node and the schema stand at one place among the parts of a node and of the schema read from it. -/
inductive PartAt (fields : List (Value × Value)) (s : Schema) : Value → Schema → Prop
  | property {name : String} {value : Value} {t : Schema}
    (raw : Assoc.get? name (writtenAttributes fields) = some value) (read : Assoc.get? name s.properties = some t) :
    PartAt fields s value t
  | items {value : Value} {t : Schema} (raw : value ∈ writtenIn "items" fields) (read : s.items = some t) :
    PartAt fields s value t
  | additional {value : Value} {t : Schema} (raw : value ∈ writtenAdditional fields) (read : s.additional = some t) :
    PartAt fields s value t
  | keyType {value : Value} {t : Schema} (raw : value ∈ writtenIn "x-kcl-dict-key-type" fields)
    (read : s.keyType = some t) : PartAt fields s value t
  | member {index : Nat} {value : Value} {t : Schema} (raw : (writtenMembers fields)[index]? = some value)
    (read : s.members[index]? = some t) : PartAt fields s value t

/-- The second raw node and schema stand at one place in the first ones, at any depth. -/
inductive At : Value → Schema → Value → Schema → Prop
  | refl (value : Value) (s : Schema) : At value s value s
  | marked {mark : Nat × Nat} {value inner : Value} {s t : Schema} (h : At value s inner t) :
    At (.knot mark value) s inner t
  | part {fields : List (Value × Value)} {value inner : Value} {s t u : Schema} (written : field "$ref" fields = .null)
    (part : PartAt fields s value t) (h : At value t inner u) : At (.map fields) s inner u

section ReadFrom

variable {N : Value → Schema → Prop}

theorem get?_of_forall₂ {raws : List (String × Value)} {parts : List (String × Schema)}
    (h : List.Forall₂ (Assoc.Paired N) raws parts) (hraw : Assoc.get? name raws = some value)
    (hpart : Assoc.get? name parts = some t) : N value t := by
  induction h with
  | nil => cases hraw
  | @cons e f _ _ hef _ ih =>
    obtain ⟨k, v⟩ := e
    obtain ⟨k', u⟩ := f
    obtain ⟨rfl : k = k', hN⟩ := hef
    rw [Assoc.get?] at hraw hpart
    by_cases hk : k = name
    · simp only [hk, ↓reduceIte, Option.some.injEq] at hraw hpart
      exact hraw ▸ hpart ▸ hN
    · simp only [hk, ↓reduceIte] at hraw hpart
      exact ih hraw hpart

theorem getElem?_of_forall₂ {raws : List Value} {parts : List Schema} (h : List.Forall₂ N raws parts) :
    ∀ {index : Nat}, raws[index]? = some value → parts[index]? = some t → N value t := by
  induction h with
  | nil => simp
  | cons hab _ ih =>
    intro index hraw hpart
    cases index with
    | zero =>
      simp only [List.getElem?_cons_zero, Option.some.injEq] at hraw hpart
      exact hraw ▸ hpart ▸ hab
    | succ index => exact ih (by simpa using hraw) (by simpa using hpart)

theorem of_forall₂_toList {raws : List Value} {part : Option Schema} (h : List.Forall₂ N raws part.toList)
    (hraw : value ∈ raws) (hpart : part = some t) : N value t := by
  subst hpart
  rw [Option.toList_some] at h
  cases h with
  | cons hab hrest =>
    cases hrest
    rwa [List.mem_singleton.1 hraw]

/-- The parts of a schema have been read from the nodes at their places. -/
theorem ReadFrom.part (h : ReadFrom N fields s) (hpart : PartAt fields s value t) : N value t := by
  cases hpart with
  | property raw read => exact get?_of_forall₂ (h.properties.1 (by decide)) raw read
  | items raw read => exact of_forall₂_toList (h.items.1 (by decide)) raw read
  | additional raw read => exact of_forall₂_toList (h.additional.1 (by decide)) raw read
  | keyType raw read => exact of_forall₂_toList (h.keyType.1 (by decide)) raw read
  | member raw read => exact getElem?_of_forall₂ (h.members.1 (by decide)) raw read

end ReadFrom

/-! ## Drafts of definitions -/

/-- The draft of each definition of which something has been read. -/
abbrev Drafts := String → Option Draft

/-- More has been read of some definitions. -/
def Drafts.Grows (u v : Drafts) : Prop := ∀ key d, u key = some d → ∃ e, v key = some e ∧ d.Grows e

theorem Drafts.Grows.refl (u : Drafts) : u.Grows u := fun _ d hd => ⟨d, hd, .refl d⟩

theorem Drafts.Grows.trans {u v w : Drafts} (h : u.Grows v) (h' : v.Grows w) : u.Grows w := by
  intro key d hd
  obtain ⟨e, he, hde⟩ := h key d hd
  obtain ⟨f, hf, hef⟩ := h' key e he
  exact ⟨f, hf, hde.trans hef⟩

/-- The schema is what was known of the definition `name` when a reference in the definition `key` was read: all of it,
or the parts up to a step from which references lead to `key`. -/
def Shown (raw : List (Value × Value)) (u : Drafts) (key name : String) (s : Schema) : Prop :=
  ∃ d step, u name = some d ∧ step ≤ d.step ∧ s = d.schema.upTo step ∧ (step = 5 ∨ LeadsTo raw step name key)

/-- The schema is a reference to what was known of the definition, with what stands next to the reference. -/
def RefersBy (raw : List (Value × Value)) (u : Drafts) (key name : String) (fields : List (Value × Value))
    (t : Schema) : Prop :=
  ∃ s number description default readOnly decorators, Shown raw u key name s ∧
    Beside fields description default readOnly decorators ∧
      t = asReference s number description default readOnly decorators

/-- Every reference in the raw node, which stands in the definition, has been read as a reference. -/
def Faithful (raw : List (Value × Value)) (u : Drafts) (key : String) (value : Value) (s : Schema) : Prop :=
  ∀ {fields name t}, At value s (.map fields) t → RefersTo name fields → RefersBy raw u key name fields t

/-- The definition has been read in full, with its references. -/
def ReadFaithfully (raw : List (Value × Value)) (u : Drafts) (key : String) (s : Schema) : Prop :=
  ∃ fields, IsDefined raw key fields ∧ ReadFrom (Faithful raw u key) fields s

section Grows

variable {u v : Drafts}

theorem Shown.grows (hv : u.Grows v) (h : Shown raw u key name s) : Shown raw v key name s := by
  obtain ⟨d, step, hd, hstep, rfl, hleads⟩ := h
  obtain ⟨e, he, hde⟩ := hv name d hd
  refine ⟨e, step, he, Nat.le_trans hstep hde.step, ?_, hleads⟩
  rw [← hde.schema, Schema.upTo_upTo, Nat.min_eq_right hstep]

theorem Faithful.grows (hv : u.Grows v) (h : Faithful raw u key value s) : Faithful raw v key value s := by
  intro fields name t hat hrefers
  obtain ⟨s, number, description, default, readOnly, decorators, hs, hrest⟩ := h hat hrefers
  exact ⟨s, number, description, default, readOnly, decorators, hs.grows hv, hrest⟩

theorem ReadFaithfully.grows (hv : u.Grows v) (h : ReadFaithfully raw u key s) : ReadFaithfully raw v key s := by
  obtain ⟨fields, hfields, hs⟩ := h
  exact ⟨fields, hfields, hs.mono fun _ _ => Faithful.grows hv⟩

end Grows

/-- The definition is as it was before, or it has been read in full since. -/
def Drafts.AsBefore (u v : Drafts) (key : String) : Prop :=
  v key = u key ∨ u key = none ∧ ∃ d, v key = some d ∧ d.step = 5

theorem Drafts.AsBefore.trans {u v w : Drafts} (h : u.AsBefore v key) (h' : v.AsBefore w key) : u.AsBefore w key := by
  rcases h with h | ⟨hu, d, hv, hd⟩
  · rcases h' with h' | ⟨hv, hw⟩
    · exact .inl (h'.trans h)
    · exact .inr ⟨h ▸ hv, hw⟩
  · rcases h' with h' | ⟨hv', -⟩
    · exact .inr ⟨hu, d, h' ▸ hv, hd⟩
    · rw [hv'] at hv
      cases hv

/-- While parts of the definition `key` are read, the others are as before or have been read in full since. -/
structure Drafts.Onward (key : String) (u v : Drafts) : Prop where
  grows : u.Grows v
  others : ∀ {name}, name ≠ key → u.AsBefore v name

/-- While a part of the definition `key` is read, nothing changes about it either. -/
structure Drafts.Later (key : String) (u v : Drafts) : Prop where
  others : ∀ {name}, name ≠ key → u.AsBefore v name
  own : v key = u key

theorem Drafts.Later.onward {u v : Drafts} (h : u.Later key v) : u.Onward key v := by
  refine ⟨fun name d hd => ?_, h.others⟩
  by_cases hname : name = key
  · subst hname
    exact ⟨d, h.own.trans hd, .refl d⟩
  · rcases h.others hname with hv | ⟨hu, -⟩
    · exact ⟨d, hv.trans hd, .refl d⟩
    · rw [hu] at hd
      cases hd

/-! ## Reading a definition -/

/-- The drafts are those in the table, and those that are complete have been read with their references. -/
structure Drafts.Stands (raw : List (Value × Value)) (u : Drafts) (p : Progress) : Prop where
  table : ∀ key, Assoc.get? key p.table = (u key).map Draft.schema
  whole : ∀ {key d}, u key = some d → d.step = 5 → ReadFaithfully raw u key d.schema

/-- From each other definition that is still being read, from the step that it is at, references lead to the definition
`key`. -/
def Drafts.Leads (raw : List (Value × Value)) (key : String) (u : Drafts) : Prop :=
  ∀ {name d}, name ≠ key → u name = some d → d.step = 5 ∨ LeadsTo raw d.step name key

theorem Drafts.Leads.asBefore {u v : Drafts} (h : u.Leads raw key) (hv : ∀ {name}, name ≠ key → u.AsBefore v name) :
    v.Leads raw key := by
  intro name d hname hd
  rcases hv hname with heq | ⟨-, e, he, hstep⟩
  · exact h hname (heq ▸ hd)
  · rw [he] at hd
    cases hd
    exact .inl hstep

/-- The raw node stands in one of those that are read in the step that the definition is at. -/
def Drafts.Reaches (raw : List (Value × Value)) (key : String) (u : Drafts) (value : Value) : Prop :=
  ∃ d fields node, u key = some d ∧ IsDefined raw key fields ∧ node ∈ nodesAt fields d.step ∧ Within node value

/-- The reading of the definition `key`. Its worlds are the drafts of all definitions. -/
def draftCourse (raw : List (Value × Value)) (key : String) : Course where
  World := Drafts
  Stands u p := u.Stands raw p ∧ u.Leads raw key
  Later := Drafts.Later key
  Closes := Eq
  Grows := Drafts.Grows
  Has _ _ := True
  Node u := Faithful raw u key
  Part u := Shown raw u key
  Scope u _ _ := u.Reaches raw key
  Fault _ := True

theorem Drafts.Onward.refl (u : Drafts) : u.Onward key u := ⟨.refl u, fun _ => .inl rfl⟩

theorem Drafts.Onward.trans {u v w : Drafts} (h : u.Onward key v) (h' : v.Onward key w) : u.Onward key w :=
  ⟨h.grows.trans h'.grows, fun hname => (h.others hname).trans (h'.others hname)⟩

theorem Drafts.Later.trans {u v w : Drafts} (h : u.Later key v) (h' : v.Later key w) : u.Later key w :=
  ⟨fun hname => (h.others hname).trans (h'.others hname), h'.own.trans h.own⟩

theorem path_later : (draftCourse raw key).Path (draftCourse raw key).Later where
  refl _ := ⟨fun _ => .inl rfl, rfl⟩
  trans := Drafts.Later.trans
  of_later h := h
  grows h := h.onward.grows
  begins hp := ⟨_, ⟨fun _ => .inl rfl, rfl⟩, ⟨⟨hp.1.table, hp.1.whole⟩, hp.2⟩,
    fun hv hp' _ => ⟨_, hv, rfl, hp', trivial⟩⟩

theorem path_onward : (draftCourse raw key).Path (Drafts.Onward key) where
  refl := .refl
  trans := .trans
  of_later h := h.onward
  grows h := h.grows
  begins hp := ⟨_, ⟨fun _ => .inl rfl, rfl⟩, ⟨⟨hp.1.table, hp.1.whole⟩, hp.2⟩,
    fun hv hp' _ => ⟨_, hv, rfl, hp', trivial⟩⟩

theorem Within.trans {value inner innermost : Value} (h : Within value inner) (h' : Within inner innermost) :
    Within value innermost := by
  induction h with
  | refl => exact h'
  | marked _ ih => exact .marked (ih h')
  | part written part _ ih => exact .part written part (ih h')

theorem lawful_drafts : (draftCourse raw key).Lawful where
  path := path_later
  closes_grows := by
    rintro u _ rfl
    exact .refl u
  node_grows hv h := Faithful.grows hv h
  part_grows hv h := Shown.grows hv h
  node_knot h := by
    intro fields name t hat
    cases hat with
    | marked hat => exact h hat
  node_written := by
    intro w fields s hwritten _ _ hread target name t hat hrefers
    cases hat with
    | refl => exact absurd hwritten hrefers.ne_null
    | part _ hpart hat => exact hread.part hpart hat hrefers
  node_reference := by
    intro w fields name s number description default readOnly decorators hrefers hs hbeside _ target name' t hat
      hrefers'
    cases hat with
    | refl =>
      obtain rfl := hrefers.unique hrefers'
      exact ⟨s, number, description, default, readOnly, decorators, hs, hbeside, rfl⟩
    | part hwritten => exact absurd hwritten hrefers.ne_null
  scope_later := by
    rintro u v _ _ _ hv ⟨d, fields, node, hd, hrest⟩
    exact ⟨d, fields, node, hv.own.trans hd, hrest⟩
  scope_knot := by
    rintro u _ _ _ _ ⟨d, fields, node, hd, hfields, hnode, hwithin⟩
    exact ⟨d, fields, node, hd, hfields, hnode, hwithin.trans (.marked (.refl _))⟩
  scope_part := by
    rintro u _ _ _ _ _ ⟨d, fields, node, hd, hfields, hnode, hwithin⟩ hwritten hpart
    exact ⟨d, fields, node, hd, hfields, hnode, hwithin.trans (.part hwritten hpart (.refl _))⟩
  fault_node _ _ := trivial
  fault_unordered _ _ _ := trivial
  fault_endless _ _ := trivial

/-- A draft that continues the one there was is entered. -/
theorem keeps_enter {u : Drafts} {d : Draft} (hfields : IsDefined raw key fields)
    (hgrows : ∀ e, u key = some e → e.Grows d) (hread : ReadTo d.step (Faithful raw u key) fields d.schema) :
    (draftCourse raw key).Keeps (Drafts.Onward key) u (enter key d.schema) fun v _ => v key = some d := by
  rintro p ⟨hp, hleads⟩
  have hself : Function.update u key (some d) key = some d := Function.update_self ..
  have hother {name : String} (hname : name ≠ key) : Function.update u key (some d) name = u name :=
    Function.update_of_ne hname ..
  have honward : u.Onward key (Function.update u key (some d)) := by
    refine ⟨fun name e he => ?_, fun hname => .inl (hother hname)⟩
    by_cases hname : name = key
    · subst hname
      exact ⟨d, hself, hgrows e he⟩
    · exact ⟨e, (hother hname).trans he, .refl e⟩
  refine ⟨Function.update u key (some d), honward, ⟨⟨fun name => ?_, fun {name e} he hstep => ?_⟩, ?_⟩, hself⟩
  · show Assoc.get? name (Assoc.put key d.schema p.table) = _
    by_cases hname : name = key
    · rw [hname, hself, Assoc.put, Assoc.get?_alter_self, Option.map_some]
    · rw [hother hname, Assoc.put, Assoc.get?_alter_of_ne hname, hp.table]
  · by_cases hname : name = key
    · subst hname
      obtain rfl : d = e := Option.some_inj.1 (hself.symm.trans he)
      rw [hstep] at hread
      exact ⟨fields, hfields, hread.mono fun _ _ => Faithful.grows honward.grows⟩
    · exact (hp.whole (hother hname ▸ he) hstep).grows honward.grows
  · exact hleads.asBefore honward.others

/-- What has been read of a definition after each step is handed on as its draft. -/
theorem publishes_draft {u : Drafts} (hfields : IsDefined raw key fields) (hnone : u key = none) :
    (draftCourse raw key).Publishes (Drafts.Onward key) u [] fields (enter key) fun step v s =>
      ∃ d, v key = some d ∧ d.step = step ∧ d.schema = s where
  later := by
    rintro step v w s hw ⟨d, hd, hrest⟩
    exact ⟨d, hw.own.trans hd, hrest⟩
  closes := by
    rintro v _ s rfl hs
    exact hs
  first {v s} hv hs hread := by
    have hnone : v key = none := hv.own.trans hnone
    refine (keeps_enter (d := ⟨0, s, hs⟩) hfields (fun e he => ?_) hread).weaken fun _ _ hd => ⟨_, hd, rfl, rfl⟩
    rw [hnone] at he
    cases he
  next {step v s t} hshows ht hread := by
    obtain ⟨d, hd, rfl, rfl⟩ := hshows
    refine (keeps_enter (d := ⟨d.step + 1, t, ht.after⟩) hfields (fun e he => ?_) hread).weaken
      fun _ _ hd => ⟨_, hd, rfl, rfl⟩
    obtain rfl : d = e := Option.some_inj.1 (hd.symm.trans he)
    exact ⟨Nat.le_succ _, ht.before⟩
  scope {step v s node} hshows hnode := by
    obtain ⟨d, hd, rfl, rfl⟩ := hshows
    exact ⟨d, fields, node, hd, hfields, hnode, .refl node⟩
  unordered _ := trivial

/-- A reference that stands where the reading is leads on from every definition that is still being read. -/
theorem Drafts.Leads.of_reaches {u : Drafts} (h : u.Leads raw key) (hreaches : u.Reaches raw key (.map fields))
    (hrefers : RefersTo name fields) {other : String} {d : Draft} (hd : u other = some d) :
    d.step = 5 ∨ LeadsTo raw d.step other name := by
  obtain ⟨e, fields', node, he, hfields, hnode, hwithin⟩ := hreaches
  have hat : RefersAt raw e.step key name := ⟨fields', node, fields, hfields, hnode, hwithin, hrefers⟩
  by_cases hother : other = key
  · subst hother
    obtain rfl : d = e := Option.some_inj.1 (hd.symm.trans he)
    exact .inr (.refers hat)
  · exact (h hother hd).imp_right fun hleads => hleads.append hat

/-- Definitions are resolved one inside the other: if references lead to a definition from all those that are not
complete, then resolving it leaves their drafts as they are, and all others are complete in the end or as before. -/
def ResolvesDrafts (raw : List (Value × Value)) (levels : Nat) : Prop :=
  ∀ (key : String) {u : Drafts} {p : Progress}, u.Stands raw p →
    (∀ {name d}, u name = some d → d.step = 5 ∨ LeadsTo raw d.step name key) →
      Ends (resolveWithin raw levels key) p (fun s p' => ∃ v d, (∀ name, u.AsBefore v name) ∧ v.Stands raw p' ∧
        v key = some d ∧ d.schema = s) True

/-- What a reference shows has been read up to a step from which references lead back to it, or in full. -/
theorem ResolvesDrafts.resolves {levels : Nat} (h : ResolvesDrafts raw levels) :
    (draftCourse raw key).Resolves (definitionsWithin raw levels) := by
  rintro u _ _ fields name hreaches hrefers - p ⟨hp, hleads⟩
  have hall {other d} (hd : u other = some d) := hleads.of_reaches hreaches hrefers hd
  have hends := h name hp hall
  rw [Ends] at hends
  revert hends
  rw [show (definitionsWithin raw levels).resolve name = resolveWithin raw levels name from rfl]
  cases resolveWithin raw levels name p with
  | error e => exact id
  | ok r =>
    rintro ⟨v, d, hbefore, hp', hd, hs⟩
    obtain ⟨own, _, _, hown, _⟩ := hreaches
    have hlater : u.Later key v := by
      refine ⟨fun _ => hbefore _, (hbefore key).resolve_right ?_⟩
      rintro ⟨hnone, -⟩
      rw [hown] at hnone
      cases hnone
    refine ⟨v, hlater, ⟨hp', hleads.asBefore hlater.others⟩, d, d.step, hd, Nat.le_refl _, ?_, ?_⟩
    · rw [d.upTo_step, hs]
    · rcases hbefore name with heq | ⟨-, e, he, hstep⟩
      · rw [heq] at hd
        by_cases hname : name = key
        · exact hname ▸ hall hd
        · exact hleads hname hd
      · obtain rfl : d = e := Option.some_inj.1 (hd.symm.trans he)
        exact .inl hstep

theorem resolvesDrafts : ∀ levels : Nat, ResolvesDrafts raw levels
  | levels, key, u, p, hp, hleads => by
    have htable := hp.table key
    cases hknown : u key with
    | some d =>
      rw [hknown, Option.map_some] at htable
      rw [Ends, resolveWithin_of_known htable]
      exact ⟨u, d, fun _ => .inl rfl, hp, hknown, rfl⟩
    | none =>
      rw [hknown, Option.map_none] at htable
      cases levels with
      | zero =>
        rw [Ends, resolveWithin_zero htable]
        trivial
      | succ levels =>
        by_cases hdefined : ∃ fields, IsDefined raw key fields
        · obtain ⟨fields, hfields⟩ := hdefined
          rw [Ends, resolveWithin_of_defined htable hfields]
          have hread := (Course.readsFields lawful_drafts (resolvesDrafts levels).resolves [] fields).readFields
            lawful_drafts path_onward (publishes_draft hfields hknown) key p ⟨hp, fun _ => hleads⟩
          revert hread
          cases readFields (enter key) key (rawFields (readNode (definitionsWithin raw levels)) [] fields) p with
          | error e => exact id
          | ok r =>
            rintro ⟨v, honward, ⟨hp', -⟩, -, -, -, d, hd, hstep, hs⟩
            refine ⟨v, d, fun name => ?_, hp', hd, hs⟩
            by_cases hname : name = key
            · exact .inr ⟨hname ▸ hknown, d, hname ▸ hd, hstep⟩
            · exact honward.others hname
        · rw [Ends, resolveWithin_of_undefined htable (not_exists.1 hdefined)]
          trivial

/-! ## Accepted dumps -/

/-- Every definition of which something has been read is complete. -/
def Drafts.Complete (u : Drafts) : Prop := ∀ name d, u name = some d → d.step = 5

theorem Drafts.Complete.asBefore {u v : Drafts} (h : u.Complete) (hv : ∀ name, u.AsBefore v name) : v.Complete := by
  intro name d hd
  rcases hv name with heq | ⟨-, e, he, hstep⟩
  · exact h name d (heq ▸ hd)
  · rw [he] at hd
    cases hd
    exact hstep

/-- **Each accepted definition has been read with its references**, and so have those that it leads to. -/
theorem Accepted.drafts {entries : List (Value × Value)} {p p' : Progress} {placements : List (String × Schema)}
    (h : Accepted raw entries p placements p') {u : Drafts} (hp : u.Stands raw p) (hu : u.Complete) :
    ∃ v : Drafts, (∀ name, u.AsBefore v name) ∧ v.Stands raw p' ∧
      ∀ e ∈ placements, ∃ d, v e.1 = some d ∧ d.schema = e.2 := by
  induction h generalizing u with
  | nil p => exact ⟨u, fun _ => .inl rfl, hp, by simp⟩
  | @cons key value rest p p1 p2 schema placements read _ _ _ ih =>
    have hends := resolvesDrafts raw.length key hp fun hd => .inl (hu _ _ hd)
    rw [Ends, show resolveWithin raw raw.length key p = .ok (schema, p1) from read] at hends
    obtain ⟨v, d, hv, hp1, hd, hs⟩ := hends
    obtain ⟨w, hw, hp2, hrest⟩ := ih hp1 (hu.asBefore hv)
    refine ⟨w, fun name => (hv name).trans (hw name), hp2, fun e he => ?_⟩
    rcases List.mem_cons.1 he with rfl | he
    · rcases hw key with heq | ⟨hnone, -⟩
      · exact ⟨d, heq.trans hd, hs⟩
      · rw [hd] at hnone
        cases hnone
    · exact hrest e he

/-- The schema of a reference to `name` in the definition `key` is what the name resolves to in the end, or as much of
it as is read up to a step from which references lead to `key`, with what stands next to the reference. -/
def ShowsReference (raw : List (Value × Value)) (last : Progress) (key name : String) (fields : List (Value × Value))
    (t : Schema) : Prop :=
  ∃ full step number description default readOnly decorators, (definitionsOf raw).resolve name last = .ok (full, last) ∧
    Beside fields description default readOnly decorators ∧
      t = asReference (full.upTo step) number description default readOnly decorators ∧
        (full.upTo step = full ∨ LeadsTo raw step name key)

theorem Drafts.Stands.showsReference {u : Drafts} {p : Progress} (hp : u.Stands raw p)
    (h : RefersBy raw u key name fields t) : ShowsReference raw p key name fields t := by
  obtain ⟨_, number, description, default, readOnly, decorators, ⟨d, step, hd, -, rfl, hleads⟩, hbeside, rfl⟩ := h
  have htable := hp.table name
  rw [hd, Option.map_some] at htable
  refine ⟨d.schema, step, number, description, default, readOnly, decorators, resolve_of_known htable, hbeside, rfl, ?_⟩
  refine hleads.imp_left ?_
  rintro rfl
  exact d.schema.upTo_five

/-- **References are faithful but for those that lead back**: whatever the order of the definitions of an accepted dump
and the references among them, every node that refers to a definition is the schema that the definition has in the end,
with what stands next to the reference, unless references lead from the definition back to the one in which the node
stands. Then it is this schema with the parts left out that are read later than where these references begin. -/
theorem faithful_of_packageOf {defaultName : String} {document : List (Value × Value)} {root : Package}
    (h : packageOf defaultName document = .ok root) (hr : readDefinitions document = .ok raw) :
    ∃ info last, readInfo document = .ok info ∧ placeAll raw raw (emptyRoot defaultName info) {} = .ok (root, last) ∧
      ∀ {key fields}, IsDefined raw key fields → ∃ s, (definitionsOf raw).resolve key last = .ok (s, last) ∧
        ∀ {value target u t name}, PartAt fields s value u → At value u (.map target) t → RefersTo name target →
          ShowsReference raw last key name target t := by
  obtain ⟨info, raw', placements, last, hinfo, hr', ha, rfl⟩ := packageOf_ok.1 h
  obtain rfl : raw = raw' := Except.ok.inj (hr.symm.trans hr')
  have hnothing : Drafts.Stands raw (fun _ => none) {} := ⟨fun _ => rfl, fun hd => by cases hd⟩
  obtain ⟨v, hv, hstands, hplaced⟩ := ha.drafts hnothing fun _ _ hd => by cases hd
  have hcomplete : v.Complete := Drafts.Complete.asBefore (fun _ _ hd => by cases hd) hv
  refine ⟨info, last, hinfo, placeAll_ok.2 ⟨placements, ha, rfl⟩, fun {key fields} hfields => ?_⟩
  obtain ⟨⟨_, s⟩, hm, rfl⟩ := List.mem_map.1 (ha.keys_eq ▸ IsDefined.mem_keysOf hfields : key ∈ placements.map (·.1))
  obtain ⟨d, hd, rfl⟩ := hplaced _ hm
  obtain ⟨fields', hfields', hread⟩ := hstands.whole hd (hcomplete _ _ hd)
  obtain rfl : fields = fields' := IsDefined.unique hfields hfields'
  refine ⟨d.schema, (ha.parsed hm).1, fun hpart hat hrefers => ?_⟩
  exact hstands.showsReference (hread.part hpart hat hrefers)

/-- A dump in which two definitions refer to each other and a third one to both. -/
def grove : List (Value × Value) :=
  [(.str "definitions", .map [
    (.str "Tree", declaredIn "" "Tree" [
      (.str "properties", .map [(.str "below", .map [(.str "$ref", .str "#/definitions/Forest")])]),
      (.str "required", .list [.str "below"])]),
    (.str "Forest", declaredIn "" "Forest" [(.str "items", .map [(.str "$ref", .str "#/definitions/Tree")])]),
    (.str "Garden", declaredIn "" "Garden" [
      (.str "properties", .map [
        (.str "oak", .map [(.str "$ref", .str "#/definitions/Tree"), (.str "description", .str "the old one")])]),
      (.str "items", .map [(.str "$ref", .str "#/definitions/Forest")])])])]

theorem faithful_of_grove : ∃ root raw, packageOf "main" grove = .ok root ∧ readDefinitions grove = .ok raw ∧
    ∃ info last, readInfo grove = .ok info ∧ placeAll raw raw (emptyRoot "main" info) {} = .ok (root, last) ∧
      ∀ {key fields}, IsDefined raw key fields → ∃ s, (definitionsOf raw).resolve key last = .ok (s, last) ∧
        ∀ {value target u t name}, PartAt fields s value u → At value u (.map target) t → RefersTo name target →
          ShowsReference raw last key name target t := by
  obtain ⟨root, h⟩ := exists_ok_of_isOk (by decide +kernel : (packageOf "main" grove).isOk = true)
  exact ⟨root, _, h, rfl, faithful_of_packageOf h rfl⟩

/-- A dump with a definition that refers to itself. -/
def returning : List (Value × Value) :=
  [(.str "definitions", .map [
    (.str "A", declaredIn "" "A" [
      (.str "properties", .map [(.str "self", .map [(.str "$ref", .str "#/definitions/A")])]),
      (.str "enum", .list [.str "a"])])])]

/-- A reference that leads back need not be faithful: it has neither the attributes nor the values of the definition. -/
theorem not_faithful_of_returning : ∃ root s t, packageOf "main" returning = .ok root ∧
    Command.findSchema root "A" = .ok s ∧ Assoc.get? "self" s.properties = some t ∧ t.modelType = s.modelType ∧
      t.properties ≠ s.properties ∧ t.enum ≠ s.enum := by
  have hshape : ((packageOf "main" returning).toOption.bind fun root => (Command.findSchema root "A").toOption.bind
      fun s => (Assoc.get? "self" s.properties).map fun t =>
        (decide (t.modelType = s.modelType), t.properties.isEmpty, t.enum.isNone, s.enum.isSome)) =
      some (true, true, true, true) := by decide +kernel
  simp only [Option.bind_eq_some_iff, Option.map_eq_some_iff, toOption_eq_some, Prod.mk.injEq,
    decide_eq_true_eq] at hshape
  obtain ⟨root, hroot, s, hs, t, ht, hmodel, hnone, henum, hsome⟩ := hshape
  refine ⟨root, s, t, hroot, hs, ht, hmodel, fun heq => ?_, fun heq => ?_⟩
  · rw [heq, List.isEmpty_iff] at hnone
    rw [hnone] at ht
    cases ht
  · rw [heq, Option.isNone_iff_eq_none] at henum
    rw [henum] at hsome
    cases hsome

end Dump

end SchemaDocs
