import SchemaDocs.Proofs.Filling

/-!
# Reading in a store

Reading in a store goes along with reading schemas: whenever the one makes, fills or registers a node, the other numbers
a schema, reads a part of it, or hands it on, and they come to the same error or to a schema and its address (`Matches`).
A reference to a node that is opened is read as a copy of it at an address of its own, and the parts of the copy have
been filled (`goesAlong_parse`). Calls go no deeper than raw nodes lie in one another, and that again for every
definition that has yet to be entered (`depthFor`, `resolvesAlong`).
-/

namespace SchemaDocs.Dump

variable {raw fields : List (Value × Value)} {levels above : Nat} {opened : List Nat} {σ σ₀ σ' : Store} {p p' : Progress}
  {key : String} {s t : Schema} {n : Nat} {owner : Option String}

/-! ## Two readings -/

/-- From these states the two readings come to the same error, or to results between which `Q` holds. -/
def Matches {α β : Type} (x : Reading α) (y : Storing β) (p : Progress) (σ : Store)
    (Q : α → Progress → β → Store → Prop) : Prop :=
  match x p with
  | .error e => y σ = some (.error e)
  | .ok (a, p') => ∃ b σ', y σ = some (.ok (b, σ')) ∧ Q a p' b σ'

namespace Matches

variable {α β γ δ : Type} {x : Reading α} {y : Storing β} {Q : α → Progress → β → Store → Prop}
  {R : γ → Progress → δ → Store → Prop}

theorem pure {a : α} {b : β} (h : Q a p b σ) : Matches (Pure.pure a) (Pure.pure b) p σ Q := ⟨b, σ, rfl, h⟩

theorem throw {e : Error} : Matches (throw e : Reading α) (throw e : Storing β) p σ Q := rfl

/-- Only what the first reading comes to from its state matters. -/
theorem of_eq {x' : Reading α} (hx : x p = x' p) (h : Matches x' y p σ Q) : Matches x y p σ Q := by
  unfold Matches at h ⊢
  rw [hx]
  exact h

theorem mono {Q' : α → Progress → β → Store → Prop} (h : Matches x y p σ Q)
    (hQ : ∀ a p' b σ', Q a p' b σ' → Q' a p' b σ') : Matches x y p σ Q' := by
  revert h
  unfold Matches
  cases x p with
  | error e => exact id
  | ok r =>
    rintro ⟨b, σ', hy, h⟩
    exact ⟨b, σ', hy, hQ _ _ _ _ h⟩

theorem bind {f : α → Reading γ} {g : β → Storing δ} (h : Matches x y p σ Q)
    (hf : ∀ a p' b σ', Q a p' b σ' → Matches (f a) (g b) p' σ' R) : Matches (x >>= f) (y >>= g) p σ R := by
  revert h
  unfold Matches
  cases hx : x p with
  | error e =>
    intro hy
    simp only [Bind.bind, StateT.bind, Except.bind, hx, ExceptT.bind, ExceptT.bindCont, ExceptT.mk, hy, Option.bind]
    rfl
  | ok r =>
    rintro ⟨b, σ', hy, h⟩
    have hnext := hf r.1 r.2 b σ' h
    simp only [Bind.bind, StateT.bind, Except.bind, hx, ExceptT.bind, ExceptT.bindCont, ExceptT.mk, hy, Option.bind]
    exact hnext

theorem map {f : α → γ} {g : β → δ} (h : Matches x y p σ Q) (hf : ∀ a p' b σ', Q a p' b σ' → R (f a) p' (g b) σ') :
    Matches (f <$> x) (g <$> y) p σ R := by
  rw [map_eq_pure_bind, map_eq_pure_bind]
  exact h.bind fun a p' b σ' hQ => .pure (hf a p' b σ' hQ)

/-- A step of which the second reading does not use the result. -/
theorem andReturn {c : δ} {R : α → Progress → δ → Store → Prop} (h : Matches x y p σ Q)
    (hR : ∀ a p' b σ', Q a p' b σ' → R a p' c σ') : Matches x (y >>= fun _ => Pure.pure c) p σ R := by
  rw [← bind_pure x]
  exact h.bind fun a p' b σ' hQ => .pure (hR a p' b σ' hQ)

/-- A step that changes neither state. -/
theorem bind_lift {z : Except Error α} {f : α → Reading γ} {g : α → Storing δ}
    (h : ∀ a, z = .ok a → Matches (f a) (g a) p σ R) : Matches (liftM z >>= f) (liftM z >>= g) p σ R := by
  cases z with
  | error e => rfl
  | ok a => exact h a rfl

/-! A step of one of the two readings. -/

theorem bind_newNumber {f : Nat → Reading γ} {y : Storing δ}
    (h : Matches (f p.count) y { p with count := p.count + 1 } σ R) : Matches (newNumber >>= f) y p σ R := h

theorem bind_allocate {x : Reading γ} {g : Nat → Storing δ} {cell : Cell}
    (h : Matches x (g σ.cells.length) p { σ with cells := σ.cells ++ [cell] } R) :
    Matches x (Storing.allocate cell >>= g) p σ R := h

theorem bind_load {x : Reading γ} {g : Cell → Storing δ} {cell : Cell} (hcell : σ.cells[n]? = some cell)
    (h : Matches x (g cell) p σ R) : Matches x (Storing.load n >>= g) p σ R := by
  have hload : (Storing.load n >>= g) σ = g cell σ := by
    simp only [Storing.load, Bind.bind, StateT.bind, ExceptT.bind, ExceptT.bindCont, ExceptT.mk, hcell, Option.map_some,
      Option.bind]
  unfold Matches at h ⊢
  rw [hload]
  exact h

theorem bind_change {x : Reading γ} {g : Unit → Storing δ} {f : Cell → Cell}
    (h : Matches x (g ()) p { σ with cells := σ.cells.modify n f } R) : Matches x (Storing.change n f >>= g) p σ R := h

theorem bind_registered? {x : Reading γ} {g : Option Nat → Storing δ}
    (h : Matches x (g (Assoc.get? key σ.definitions)) p σ R) : Matches x (Storing.registered? key >>= g) p σ R := h

theorem bind_register {x : Reading γ} {g : Unit → Storing δ}
    (h : Matches x (g ()) p { σ with definitions := Assoc.put key n σ.definitions } R) :
    Matches x (Storing.register key n >>= g) p σ R := h

theorem bind_publishFor {f : Unit → Reading γ} {y : Storing δ}
    (h : Matches (f ()) y { p with table := putFor owner s p.table } σ R) :
    Matches (publishFor owner s >>= f) y p σ R := by
  have hrun : (publishFor owner s >>= f) p = f () { p with table := putFor owner s p.table } := by
    simp only [Bind.bind, StateT.bind, Except.bind, publishFor_apply]
  unfold Matches at h ⊢
  rw [hrun]
  exact h

end Matches

/-! ## Parts of a node -/

/-- The second reading gives the addresses of the schemas that the first one gives, and the store holds these. -/
def GoesAlong {α β : Type} (raw : List (Value × Value)) (levels : Nat) (opened : List Nat) (schemas : α → List Schema)
    (addresses : α → β) (x : Reading α) (y : Storing β) : Prop :=
  ∀ σ p, Backs raw levels opened σ p → Matches x y p σ fun a p' b σ' =>
    b = addresses a ∧ Backs raw levels opened σ' p' ∧ σ.Grows σ' ∧ ∀ s ∈ schemas a, σ'.Holds opened s

def NodeGoesAlong (raw : List (Value × Value)) (levels : Nat) (opened : List Nat) (definitions : Definitions)
    (readers : Readers) (value : Value) : Prop :=
  ∀ location, GoesAlong raw levels opened ([·]) Schema.address (nodeReader (readNode definitions) value location)
    (readers.parse value location)

namespace GoesAlong

variable {α β γ δ : Type} {schemas : α → List Schema} {addresses : α → β} {x : Reading α} {y : Storing β}

theorem pure {a : α} (h : schemas a = []) :
    GoesAlong raw levels opened schemas addresses (Pure.pure a) (Pure.pure (addresses a)) :=
  fun _ _ hb => .pure ⟨rfl, hb, .refl _, by simp [h]⟩

theorem throw {e : Error} : GoesAlong raw levels opened schemas addresses (throw e) (throw e) := fun _ _ _ => .throw

theorem map {schemas' : γ → List Schema} {addresses' : γ → δ} {f : α → γ} {g : β → δ}
    (h : GoesAlong raw levels opened schemas addresses x y) (hg : ∀ a, g (addresses a) = addresses' (f a))
    (hsub : ∀ a, schemas' (f a) ⊆ schemas a) : GoesAlong raw levels opened schemas' addresses' (f <$> x) (g <$> y) := by
  intro σ p hb
  refine (h σ p hb).map ?_
  rintro a p' b σ' ⟨rfl, hb', hgrows, hheld⟩
  exact ⟨hg a, hb', hgrows, fun s hs => hheld s (hsub a hs)⟩

/-- Two parts one after the other, which are put together. -/
theorem andThen {α' β' : Type} {schemas' : α' → List Schema} {addresses' : α' → β'} {x' : Reading α'} {y' : Storing β'}
    {schemas'' : γ → List Schema} {addresses'' : γ → δ} {f : α → α' → γ} {g : β → β' → δ}
    (h : GoesAlong raw levels opened schemas addresses x y) (h' : GoesAlong raw levels opened schemas' addresses' x' y')
    (hg : ∀ a a', g (addresses a) (addresses' a') = addresses'' (f a a'))
    (hsub : ∀ a a', schemas'' (f a a') ⊆ schemas a ++ schemas' a') :
    GoesAlong raw levels opened schemas'' addresses'' (x >>= fun a => x' >>= fun a' => Pure.pure (f a a'))
      (y >>= fun b => y' >>= fun b' => Pure.pure (g b b')) := by
  intro σ p hb
  refine (h σ p hb).bind ?_
  rintro a p₁ b σ₁ ⟨rfl, hb₁, hgrows₁, hheld₁⟩
  refine (h' σ₁ p₁ hb₁).bind ?_
  rintro a' p₂ b' σ₂ ⟨rfl, hb₂, hgrows₂, hheld₂⟩
  refine .pure ⟨hg a a', hb₂, hgrows₁.trans hgrows₂, fun s hs => ?_⟩
  rcases List.mem_append.1 (hsub a a' hs) with hs | hs
  · exact hgrows₂.holds (hheld₁ s hs)
  · exact hheld₂ s hs

end GoesAlong

section Parts

variable {definitions : Definitions} {readers : Readers}

def attributeAddresses (attributes : List (String × Schema)) : List (String × Nat) :=
  attributes.map fun e => (e.1, e.2.address)

theorem goesAlong_readAttributes (location : String) : ∀ {attributes : List (Value × Value)},
    (∀ e ∈ attributes, NodeGoesAlong raw levels opened definitions readers e.2) →
    GoesAlong raw levels opened (List.map (·.2)) attributeAddresses
      (RawFields.readAttributes location (attributes.map fun e => (e.1, nodeReader (readNode definitions) e.2)))
      (attributes.mapM fun entry => do
        let n ← readers.parse entry.2 (location ++ "." ++ entry.1.plain)
        return (entry.1.plain, n))
  | [], _ => .pure rfl
  | e :: rest, h => by
    have hrest := goesAlong_readAttributes location fun e he => h e (List.mem_cons_of_mem _ he)
    simp only [List.map_cons, RawFields.readAttributes, List.mapM_cons, bind_assoc, pure_bind]
    exact (h e List.mem_cons_self _).andThen hrest (fun _ _ => rfl) fun _ _ => List.Subset.refl _

theorem goesAlong_readMembers (location : String) : ∀ {items : List Value} (index : Nat),
    (∀ value ∈ items, NodeGoesAlong raw levels opened definitions readers value) →
    GoesAlong raw levels opened id (List.map Schema.address)
      (RawFields.readMembers location index (items.map (nodeReader (readNode definitions))))
      ((items.zipIdx index).mapM fun item => readers.parse item.1 (Location.member location item.2))
  | [], _, _ => .pure rfl
  | value :: rest, index, h => by
    have hrest := goesAlong_readMembers location (index + 1) fun value hv => h value (List.mem_cons_of_mem _ hv)
    simp only [List.map_cons, RawFields.readMembers, List.zipIdx_cons, List.mapM_cons]
    exact (h value List.mem_cons_self _).andThen hrest (fun _ _ => rfl) fun _ _ => List.Subset.refl _

theorem forall₂_attributeAddresses {attributes : List (String × Schema)} {addresses : List (String × Nat)} :
    List.Forall₂ (Assoc.Paired fun s n => n = s.address ∧ σ.Holds opened s) attributes addresses ↔
      addresses = attributeAddresses attributes ∧ ∀ s ∈ attributes.map (·.2), σ.Holds opened s := by
  constructor
  · intro h
    induction h with
    | nil => exact ⟨rfl, by simp⟩
    | @cons e f rest rest' hef _ ih =>
      obtain ⟨name, s⟩ := e
      obtain ⟨name', n⟩ := f
      obtain ⟨rfl : name = name', rfl : n = s.address, hs⟩ := hef
      exact ⟨congrArg _ ih.1, List.forall_mem_cons.2 ⟨hs, ih.2⟩⟩
  · rintro ⟨rfl, h⟩
    induction attributes with
    | nil => exact .nil
    | cons e rest ih =>
      obtain ⟨hs, hrest⟩ := List.forall_mem_cons.1 h
      exact .cons ⟨rfl, rfl, hs⟩ (ih hrest)

variable (hfields : Value.entriesAreJson fields = true)
include hfields

theorem goesAlong_properties (h : ∀ attributes, Value.lookup "properties" fields = some (.map attributes) →
      ∀ e ∈ attributes, NodeGoesAlong raw levels opened definitions readers e.2) (location : String) :
    GoesAlong raw levels opened (List.map (·.2)) attributeAddresses
      (RawFields.properties location (rawFields (readNode definitions) [] fields))
      (readers.properties location fields) := by
  rw [RawFields.properties_rawFields _ hfields, Readers.properties, field]
  cases hl : Value.lookup "properties" fields with
  | none => exact .pure rfl
  | some value =>
    dsimp only [Option.getD_some]
    split
    · exact .pure rfl
    · cases value with
      | map attributes =>
        intro σ p hb
        refine (goesAlong_readAttributes location (h attributes hl) σ p hb).map ?_
        rintro ps p' bs σ' ⟨hbs, hb', hgrows, hheld⟩
        have hpaired := Assoc.forall₂_ofList (forall₂_attributeAddresses.2 ⟨hbs, hheld⟩)
        obtain ⟨haddresses, hheld⟩ := forall₂_attributeAddresses.1 hpaired
        exact ⟨haddresses, hb', hgrows, hheld⟩
      | _ => exact .throw

omit hfields in
theorem goesAlong_node? (h : ∀ name value, Value.lookup name fields = some value →
      NodeGoesAlong raw levels opened definitions readers value) (name location : String) :
    GoesAlong raw levels opened Option.toList (Option.map Schema.address)
      (RawFields.node? name location (rawFields (readNode definitions) [] fields))
      (readers.node? name location fields) := by
  rw [RawFields.node?_rawFields, Readers.node?]
  cases hl : Value.lookup name fields with
  | none => exact .pure rfl
  | some value => exact (h name value hl location).map (fun _ => rfl) fun _ => List.Subset.refl _

theorem goesAlong_additional (h : ∀ name value, Value.lookup name fields = some value →
      NodeGoesAlong raw levels opened definitions readers value) (location : String) :
    GoesAlong raw levels opened Option.toList (Option.map Schema.address)
      (RawFields.additional location (rawFields (readNode definitions) [] fields))
      (readers.additional location fields) := by
  rw [RawFields.additional_rawFields _ hfields, Readers.additional, field]
  cases hl : Value.lookup "additionalProperties" fields with
  | none => exact .pure rfl
  | some value =>
    cases value with
    | map entries => exact (h _ _ hl _).map (fun _ => rfl) fun _ => List.Subset.refl _
    | _ => exact .pure rfl

theorem goesAlong_members (h : ∀ items, Value.lookup "x-kcl-union-types" fields = some (.list items) →
      ∀ value ∈ items, NodeGoesAlong raw levels opened definitions readers value) (location : String) :
    GoesAlong raw levels opened id (List.map Schema.address)
      (RawFields.members location (rawFields (readNode definitions) [] fields)) (readers.members location fields) := by
  rw [RawFields.members_rawFields _ hfields, Readers.members, field]
  cases hl : Value.lookup "x-kcl-union-types" fields with
  | none => exact .pure rfl
  | some value =>
    dsimp only [Option.getD_some]
    split
    · exact .pure rfl
    · cases value with
      | list items => exact goesAlong_readMembers location 0 (h items hl)
      | _ => exact .throw

structure PartsGoAlong (raw : List (Value × Value)) (levels : Nat) (opened : List Nat) (definitions : Definitions)
    (readers : Readers) (fields : List (Value × Value)) (location : String) : Prop where
  properties : GoesAlong raw levels opened (List.map (·.2)) attributeAddresses
    (RawFields.properties location (rawFields (readNode definitions) [] fields)) (readers.properties location fields)
  node? : ∀ name location, GoesAlong raw levels opened Option.toList (Option.map Schema.address)
    (RawFields.node? name location (rawFields (readNode definitions) [] fields)) (readers.node? name location fields)
  additional : GoesAlong raw levels opened Option.toList (Option.map Schema.address)
    (RawFields.additional location (rawFields (readNode definitions) [] fields)) (readers.additional location fields)
  members : GoesAlong raw levels opened id (List.map Schema.address)
    (RawFields.members location (rawFields (readNode definitions) [] fields)) (readers.members location fields)

/-- The parts of a node are nodes of smaller values. -/
theorem partsGoAlong (hbelow : ∀ value, sizeOf value < sizeOf (Value.map fields) → value.isJson = true →
      NodeGoesAlong raw levels opened definitions readers value) (location : String) :
    PartsGoAlong raw levels opened definitions readers fields location := by
  have hlookup : ∀ name value, Value.lookup name fields = some value →
      NodeGoesAlong raw levels opened definitions readers value :=
    fun name value hl => hbelow value (Value.sizeOf_lt_of_lookup hl) (Value.isJson_of_lookup hfields hl)
  refine ⟨goesAlong_properties hfields (fun attributes hl e he => ?_) location, goesAlong_node? hlookup,
    goesAlong_additional hfields hlookup location, goesAlong_members hfields (fun items hl value hv => ?_) location⟩
  · exact hbelow e.2 (Nat.lt_trans (Value.sizeOf_lt_of_mem he) (Value.sizeOf_lt_of_lookup hl))
      (Value.isJson_of_mem (Value.isJson_of_lookup hfields hl) he)
  · exact hbelow value (Nat.lt_trans (Value.sizeOf_lt_of_mem_items hv) (Value.sizeOf_lt_of_lookup hl))
      (Value.isJson_of_mem_items (Value.isJson_of_lookup hfields hl) hv)

end Parts

/-! ## Nodes -/

namespace Underway

variable {α β γ δ : Type} {Q : γ → Progress → δ → Store → Prop}

/-- A part is read, and then what follows it. -/
theorem bind_part (h : Underway raw levels opened owner σ₀ σ p s) {schemas : α → List Schema} {addresses : α → β}
    {x : Reading α} {y : Storing β} {f : α → Reading γ} {g : β → Storing δ}
    (hpart : GoesAlong raw levels (σ₀.cells.length :: opened) schemas addresses x y)
    (hf : ∀ a p' σ', Underway raw levels opened owner σ₀ σ' p' s →
      (∀ t ∈ schemas a, σ'.Holds (σ₀.cells.length :: opened) t) → Matches (f a) (g (addresses a)) p' σ' Q) :
    Matches (x >>= f) (y >>= g) p σ Q := by
  refine (hpart σ p h.backs).bind ?_
  rintro a p' b σ' ⟨rfl, hb, hgrows, hheld⟩
  exact hf a p' σ' (h.grown hgrows hb) hheld

/-- The node is filled for the first time, and what has been read of it by then is handed on. -/
theorem bind_begin (h : Backs raw above opened σ₀ p) {f : Cell → Cell} {k : Unit → Reading γ} {g : Unit → Storing δ}
    (haddress : s.address = σ₀.cells.length) (hcell : f {} = s.cell) (hparts : s.parts = [])
    (howner : ∀ key, owner = some key → key ∈ keysOf raw ∧ Assoc.get? key p.table = none)
    (hroom : raw.length ≤ levels + (putFor owner s p.table).length)
    (hk : ∀ p' σ', Underway raw levels opened owner σ₀ σ' p' s → Matches (k ()) (g ()) p' σ' Q) :
    Matches (publishFor owner s >>= k) (Storing.change σ₀.cells.length f >>= g) { p with count := p.count + 1 }
      ⟨σ₀.cells ++ [({} : Cell)], putFor owner σ₀.cells.length σ₀.definitions⟩ Q :=
  .bind_publishFor (.bind_change (hk _ _ (begin h haddress hcell hparts howner hroom)))

/-- The node is changed, and what has been read of it by then is handed on. -/
theorem bind_put (h : Underway raw levels opened owner σ₀ σ p s) (t : Schema) {f : Cell → Cell} {k : Unit → Reading γ}
    {g : Unit → Storing δ} (haddress : t.address = s.address) (hcell : f s.cell = t.cell)
    (hparts : ∀ u ∈ t.parts, σ.Holds (σ₀.cells.length :: opened) u)
    (hk : ∀ p' σ', Underway raw levels opened owner σ₀ σ' p' t → Matches (k ()) (g ()) p' σ' Q) :
    Matches (publishFor owner t >>= k) (Storing.change σ₀.cells.length f >>= g) p σ Q :=
  .bind_publishFor (.bind_change (hk _ _ (h.put haddress hcell hparts)))

end Underway

/-- **Filling a node in a store goes along with reading its fields.** -/
theorem matches_fill {definitions : Definitions} {readers : Readers} (levels : Nat) (owner : Option String)
    (hfields : Value.entriesAreJson fields = true)
    (hbelow : ∀ value, sizeOf value < sizeOf (Value.map fields) → value.isJson = true →
      NodeGoesAlong raw levels (σ₀.cells.length :: opened) definitions readers value)
    (h : Backs raw above opened σ₀ p)
    (howner : ∀ key, owner = some key → key ∈ keysOf raw ∧ Assoc.get? key p.table = none)
    (hroom : ∀ s, raw.length ≤ levels + (putFor owner s p.table).length) (location : String) :
    Matches (readFields (publishFor owner) location (rawFields (readNode definitions) [] fields))
      (readers.fill σ₀.cells.length location fields) p
      ⟨σ₀.cells ++ [({} : Cell)], putFor owner σ₀.cells.length σ₀.definitions⟩
      fun s p' _ σ' => Underway raw levels opened owner σ₀ σ' p' s := by
  have hparts := partsGoAlong hfields hbelow location
  unfold readFields Readers.fill
  rw [RawFields.values_rawFields]
  refine Matches.bind_newNumber ?_
  refine Matches.bind_lift fun head hhead => ?_
  obtain ⟨type, description, readOnly, default, modelType, rfl⟩ := readHead_eq hhead
  -- after every step the node is changed, and the schema is handed on
  refine Underway.bind_begin h h.count.symm rfl rfl howner (hroom _) fun p σ h => ?_
  refine h.bind_part hparts.properties fun properties p σ h hnew => ?_
  refine Matches.bind_lift fun required _ => ?_
  refine h.bind_put _ rfl rfl ?_ fun p σ h => ?_
  · exact Schema.forall_parts.2 ⟨List.forall_mem_map.1 hnew, by simp, by simp, by simp, by simp⟩
  refine h.bind_part (hparts.node? _ _) fun items p σ h hnew => ?_
  refine h.bind_put _ rfl rfl ?_ fun p σ h => ?_
  · obtain ⟨hproperties, -⟩ := Schema.forall_parts.1 h.stored.parts
    exact Schema.forall_parts.2 ⟨hproperties, by simpa using hnew, by simp, by simp, by simp⟩
  refine h.bind_part hparts.additional fun additional p σ h hnew => ?_
  refine Matches.bind_lift fun enumerated _ => ?_
  refine h.bind_put _ rfl rfl ?_ fun p σ h => ?_
  · obtain ⟨hproperties, hitems, -⟩ := Schema.forall_parts.1 h.stored.parts
    exact Schema.forall_parts.2 ⟨hproperties, hitems, by simpa using hnew, by simp, by simp⟩
  refine h.bind_part (hparts.node? _ _) fun keyType p σ h hnew => ?_
  refine h.bind_put _ rfl rfl ?_ fun p σ h => ?_
  · obtain ⟨hproperties, hitems, hadditional, -⟩ := Schema.forall_parts.1 h.stored.parts
    exact Schema.forall_parts.2 ⟨hproperties, hitems, hadditional, by simp, by simpa using hnew⟩
  refine h.bind_part hparts.members fun members p σ h hnew => ?_
  refine Matches.bind_lift fun decorators _ => ?_
  refine Matches.bind_lift fun examples _ => ?_
  rw [← bind_pure (Storing.change _ _)]
  refine h.bind_put _ rfl rfl ?_ fun p σ h => .pure h
  obtain ⟨hproperties, hitems, hadditional, -, hkeyType⟩ := Schema.forall_parts.1 h.stored.parts
  exact Schema.forall_parts.2 ⟨hproperties, hitems, hadditional, hnew, hkeyType⟩

/-- Resolving definitions in a store, with calls that may go to a depth, goes along with resolving them as schemas. Of a
definition that is opened both give what has been filled of it so far. -/
def ResolvesAlong (raw : List (Value × Value)) (levels depth : Nat) : Prop :=
  ∀ opened σ p key, Backs raw levels opened σ p →
    Matches (resolveWithin raw levels key) ((readersWithin raw depth).resolve key) p σ fun s p' n σ' =>
      n = s.address ∧ Backs raw levels opened σ' p' ∧ σ.Grows σ' ∧ σ'.Stored opened s

/-- A copy is made of a node, at an address of its own. -/
theorem Backs.copy (h : Backs raw levels opened σ p) (hs : σ.Stored opened s) (haddress : t.address = σ.cells.length)
    (hparts : t.parts = s.parts) :
    Backs raw levels opened ⟨σ.cells ++ [t.cell], σ.definitions⟩ { p with count := p.count + 1 } ∧
      Store.Holds ⟨σ.cells ++ [t.cell], σ.definitions⟩ opened t := by
  have hstored : Store.Stored ⟨σ.cells ++ [t.cell], σ.definitions⟩ (σ.cells.length :: opened) t := by
    refine ⟨by simp [haddress], fun u hu => ?_⟩
    rw [hparts] at hu
    exact (hs.parts u hu).allocate _ _
  have hb := h.allocate t.cell
  exact hb.close hstored haddress (fun hm => Nat.lt_irrefl _ (h.opened _ hm)) h.room

/-- A node that refers to a definition is read as a copy of what is known of this. -/
theorem goesAlong_reference {depth : Nat} (hresolve : ResolvesAlong raw levels depth) (location : String)
    (reference : Value) : GoesAlong raw levels opened ([·]) Schema.address
      (readReference (definitionsWithin raw levels) location reference fields) (do
        let name ← referenceName (fun name => (Value.lookup name raw).isSome) location reference
        let cell ← Storing.load (← (readersWithin raw depth).resolve name)
        let description ← textField "description" location fields
        let decorators ← readDecorators location fields
        Storing.allocate { cell with
          description := Text.trimBlanks description
          default := Value.lookup "default" fields
          readOnly := (field "readOnly" fields).isTruthy
          decorators := decorators
          examples := [] }) := by
  intro σ p hb
  unfold readReference
  refine Matches.bind_lift fun name _ => ?_
  refine (hresolve opened σ p name hb).bind ?_
  rintro s p₁ n σ₁ ⟨rfl, hb₁, hgrows, hs⟩
  refine .bind_load hs.cell ?_
  refine Matches.bind_lift fun description _ => ?_
  refine Matches.bind_lift fun decorators _ => ?_
  refine .bind_newNumber ?_
  let t := asReference s p₁.count (Text.trimBlanks description) (Value.lookup "default" fields)
    (field "readOnly" fields).isTruthy decorators
  obtain ⟨hb₂, hheld⟩ := hb₁.copy (t := t) hs hb₁.count.symm rfl
  exact ⟨_, _, rfl, hb₁.count, hb₂, hgrows.trans (σ₁.grows_allocate _), List.forall_mem_singleton.2 hheld⟩

/-! ## The depth of calls -/

/-- How deep the calls of a definition that is resolved may have to go, with so many definitions left to be entered: in
each of them, as deep as raw nodes lie in one another. -/
noncomputable def depthFor (raw : List (Value × Value)) : Nat → Nat
  | 0 => 1
  | levels + 1 => depthFor raw levels + sizeOf (Value.map raw) + 1

theorem depthFor_pos (raw : List (Value × Value)) (levels : Nat) : 0 < depthFor raw levels := by
  cases levels with
  | zero => exact Nat.one_pos
  | succ levels => exact Nat.succ_pos _

/-- **Reading a raw value as a node in a store goes along with reading it as a schema**, if calls may go deep enough for
what lies in it and for the definitions that it refers to. -/
theorem goesAlong_parse (hresolve : ∀ depth, depthFor raw levels ≤ depth → ResolvesAlong raw levels depth) (depth : Nat)
    {value : Value} (hvalue : value.isJson = true) (hdepth : depthFor raw levels + sizeOf value ≤ depth) :
    NodeGoesAlong raw levels opened (definitionsWithin raw levels) (readersWithin raw depth) value := by
  intro location
  induction depth generalizing value opened location with
  | zero =>
    have hpos := depthFor_pos raw levels
    omega
  | succ depth ih =>
    show GoesAlong raw levels opened ([·]) Schema.address
      (nodeReader (readNode (definitionsWithin raw levels)) value location)
      ((readersWithin raw depth).parseNext raw value location)
    cases value with
    | map fields =>
      have hbelow : ∀ v, sizeOf v < sizeOf (Value.map fields) → v.isJson = true → ∀ opened,
          NodeGoesAlong raw levels opened (definitionsWithin raw levels) (readersWithin raw depth) v :=
        fun v hlt hv opened location => ih hv (by omega) location
      show GoesAlong raw levels opened ([·]) Schema.address
        (readNode (definitionsWithin raw levels) (rawFields (readNode (definitionsWithin raw levels)) [] fields)
          location) _
      rw [readNode, RawFields.values_rawFields, Readers.parseNext]
      cases field "$ref" fields with
      | null =>
        intro σ p hb
        refine .bind_allocate ((matches_fill levels none hvalue (fun v hlt hv => hbelow v hlt hv _) hb
          (fun _ h => nomatch h) (fun _ => hb.room) location).andReturn fun s p' _ σ' h => ?_)
        obtain ⟨hb', hheld⟩ := h.close hb.opened (Nat.le_refl _)
        exact ⟨h.address.symm, hb', h.grows, List.forall_mem_singleton.2 hheld⟩
      | _ =>
        have hsize : 0 < sizeOf (Value.map fields) := by
          rw [Value.map.sizeOf_spec]
          omega
        exact goesAlong_reference (hresolve depth (by omega)) location _
    | knot mark inner => simp [Value.isJson] at hvalue
    | _ => exact .throw

/-- A definition of a JSON document is a mapping as it stands. -/
theorem isDefined_iff_lookup (hraw : Value.entriesAreJson raw = true) :
    IsDefined raw key fields ↔ Value.lookup key raw = some (.map fields) := by
  unfold IsDefined
  cases hl : Value.lookup key raw with
  | none => simp
  | some value => simp [Value.unmarked_of_isJson (Value.isJson_of_lookup hraw hl)]

/-- There is a level left for every definition that has not been entered. -/
theorem Backs.levels_pos (h : Backs raw levels opened σ p) (hkey : key ∈ keysOf raw)
    (hnew : Assoc.get? key p.table = none) : 0 < levels :=
  Assoc.left_pos h.nodup h.keys hkey (Assoc.get?_eq_none_iff.1 hnew) (by simpa [keysOf] using h.room)

/-- **Resolving definitions in a store goes along with resolving them as schemas**, if calls may go deep enough for those
that have yet to be entered. -/
theorem resolvesAlong (hraw : Value.entriesAreJson raw = true) (levels depth : Nat)
    (hdepth : depthFor raw levels ≤ depth) : ResolvesAlong raw levels depth := by
  induction levels using Nat.strongRecOn generalizing depth with
  | ind levels ih =>
    obtain ⟨depth, rfl⟩ : ∃ d, depth = d + 1 :=
      Nat.exists_eq_add_one_of_ne_zero (Nat.ne_of_gt (Nat.lt_of_lt_of_le (depthFor_pos raw levels) hdepth))
    intro opened σ p key hb
    show Matches _ ((readersWithin raw depth).resolveNext raw key) p σ _
    refine .bind_registered? ?_
    rw [hb.definitions]
    cases hknown : Assoc.get? key p.table with
    | some s => exact .of_eq (resolveWithin_of_known hknown) (.pure ⟨rfl, hb, .refl σ, hb.stored hknown⟩)
    | none =>
      dsimp only [Option.map_none]
      split
      · rename_i fields hl
        have hdefined := (isDefined_iff_lookup hraw).2 hl
        -- the definition is entered, which takes a level away from those that are entered while it is read
        obtain ⟨levels, rfl⟩ : ∃ l, levels = l + 1 :=
          Nat.exists_eq_add_one_of_ne_zero (Nat.ne_of_gt (hb.levels_pos hdefined.mem_keysOf hknown))
        have hsize : sizeOf (Value.map fields) < sizeOf (Value.map raw) := Value.sizeOf_lt_of_lookup hl
        rw [depthFor] at hdepth
        refine .of_eq (resolveWithin_of_defined hknown hdefined) (.bind_allocate (.bind_register ?_))
        refine (matches_fill levels (some key) (Value.isJson_of_lookup hraw hl) (fun v hlt hv => ?_) hb
          ?_ (fun s => ?_) key).andReturn fun s p' _ σ' h => ?_
        · exact goesAlong_parse (ih levels (Nat.lt_succ_self levels)) depth hv (by omega)
        · rintro _ ⟨⟩
          exact ⟨hdefined.mem_keysOf, hknown⟩
        · have hroom := hb.room
          rw [putFor, Assoc.put_of_not_mem (Assoc.get?_eq_none_iff.1 hknown), List.length_append, List.length_singleton]
          omega
        · obtain ⟨hb', hheld⟩ := h.close hb.opened (Nat.le_succ levels)
          exact ⟨h.address.symm, hb', h.grows, hheld.cell, hheld.parts⟩
      · rename_i hundefined
        refine .of_eq (resolveWithin_of_undefined hknown fun fields hfields => ?_) .throw
        exact hundefined fields ((isDefined_iff_lookup hraw).1 hfields)

end SchemaDocs.Dump
