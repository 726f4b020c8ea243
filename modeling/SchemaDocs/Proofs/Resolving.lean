import SchemaDocs.Proofs.Agreement

/-!
# Resolving definitions

Reading follows the description: whenever a node is read in a state in which the invariant holds, the schema that comes
out agrees with what the node describes, and reading fails only if the node describes nothing or some definition of the
dump is not good. Inside a node this goes by the size of the value, and from a definition to those that it refers to by
the number of definitions that have not been entered yet (`ends_resolveWithin`).
-/

namespace SchemaDocs.Dump

open Schema (Covers)

/-- There is nothing to be read, or there is something wrong with a definition. -/
def Fails {β : Type} (raw : List (Value × Value)) (y : Except Error β) : Prop := ¬ AllGood raw ∨ ∀ b, y ≠ .ok b

/-- What a part fails with, the whole fails with. -/
theorem Fails.whole {β γ : Type} {raw : List (Value × Value)} {y : Except Error β} {whole : Except Error γ}
    (hpart : ∀ o, whole = .ok o → ∃ b, y = .ok b) (h : Fails raw y) : Fails raw whole := by
  refine h.imp id fun hy o ho => ?_
  obtain ⟨b, hb⟩ := hpart o ho
  exact hy b hb

/-- From every state with the invariant `I` the reading `x` yields what the description `y` does, with results related
by `R` over the numbers given out meanwhile, or the reading rightly fails. -/
def Follows {α β : Type} (raw : List (Value × Value)) (I : Progress → Prop) (x : Reading α) (y : Except Error β)
    (R : Nat → α → β → Nat → Prop) : Prop :=
  ∀ p, I p → Ends x p (fun a p' => I p' ∧ ∃ b, y = .ok b ∧ R p.count a b p'.count) (Fails raw y)

namespace Follows

variable {α β γ δ : Type} {raw : List (Value × Value)} {I : Progress → Prop} {x : Reading α} {y : Except Error β}
  {R : Nat → α → β → Nat → Prop}

theorem pure {a : α} {b : β} (h : ∀ n, R n a b n) : Follows raw I (Pure.pure a) (Pure.pure b) R :=
  fun _ hp => Ends.pure ⟨hp, b, rfl, h _⟩

theorem throw {e e' : Error} : Follows raw I (throw e : Reading α) (throw e' : Except Error β) R :=
  fun _ _ => Ends.throw (Or.inr fun _ => by simp [MonadExcept.throw, throwThe, MonadExceptOf.throw])

/-- Two readings one after the other, the results of which are put together. -/
theorem andThen {γ' δ' : Type} {x' : Reading γ} {y' : Except Error δ} {R' : Nat → γ → δ → Nat → Prop} {f : α → γ → γ'}
    {g : β → δ → δ'} {R'' : Nat → γ' → δ' → Nat → Prop} (hx : Follows raw I x y R) (hx' : Follows raw I x' y' R')
    (h : ∀ {k a b m c d n}, R k a b m → R' m c d n → R'' k (f a c) (g b d) n) :
    Follows raw I (x >>= fun a => x' >>= fun c => Pure.pure (f a c))
      (y >>= fun b => y' >>= fun d => Pure.pure (g b d)) R'' := by
  have hfirst : (∀ b, y ≠ .ok b) → ∀ b', (y >>= fun b => y' >>= fun d => Pure.pure (g b d)) ≠ .ok b' := by
    intro hy b' hb
    obtain ⟨b, hb, -⟩ := except_bind_ok.1 hb
    exact hy b hb
  refine fun p hp => ((hx p hp).mono (fun _ _ => id) (Or.imp id hfirst)).bind fun a p' ⟨hp', b, hb, hr⟩ => ?_
  have hsecond : (∀ d, y' ≠ .ok d) → ∀ b', (y >>= fun b => y' >>= fun d => Pure.pure (g b d)) ≠ .ok b' := by
    intro hy b' hb
    obtain ⟨_, -, hb⟩ := except_bind_ok.1 hb
    obtain ⟨d, hd, -⟩ := except_bind_ok.1 hb
    exact hy d hd
  refine ((hx' p' hp').mono (fun _ _ => id) (Or.imp id hsecond)).bind fun c p'' ⟨hp'', d, hd, hr'⟩ => ?_
  exact Ends.pure ⟨hp'', _, by rw [hb, hd]; rfl, h hr hr'⟩

theorem map {f : α → γ} {g : β → δ} {R' : Nat → γ → δ → Nat → Prop} (hx : Follows raw I x y R)
    (h : ∀ {k a b n}, y = .ok b → R k a b n → R' k (f a) (g b) n) : Follows raw I (f <$> x) (g <$> y) R' := by
  refine fun p hp => Ends.map ((hx p hp).mono (fun a p' ha => ?_) fun hfails => hfails.imp id fun hy b hb => ?_)
  · obtain ⟨hp', b, rfl, hr⟩ := ha
    exact ⟨hp', g b, rfl, h rfl hr⟩
  · obtain ⟨b', hb', -⟩ := except_map_ok.1 hb
    exact hy b' hb'

/-- A part of something larger that is read next: without the part the whole has no description either. -/
theorem bind {p : Progress} {whole : Except Error δ} {f : α → Reading γ} {Q : γ → Progress → Prop}
    (hx : Follows raw I x y R) (hp : I p) (hpart : ∀ o, whole = .ok o → ∃ b, y = .ok b)
    (hf : ∀ a b q, I q → y = .ok b → R p.count a b q.count → Ends (f a) q Q (Fails raw whole)) :
    Ends (x >>= f) p Q (Fails raw whole) := by
  refine ((hx p hp).mono (fun _ _ => id) (Fails.whole hpart)).bind ?_
  rintro a q ⟨hq, b, hb, hr⟩
  exact hf a b q hq hb hr

end Follows

/-- A part of something larger that needs no state. -/
theorem ends_lift_bind {α γ δ : Type} {raw : List (Value × Value)} {y : Except Error α} {whole : Except Error δ}
    {p : Progress} {f : α → Reading γ} {Q : γ → Progress → Prop} (hpart : ∀ o, whole = .ok o → ∃ a, y = .ok a)
    (hf : ∀ a, y = .ok a → Ends (f a) p Q (Fails raw whole)) : Ends (liftM y >>= f) p Q (Fails raw whole) := by
  refine (Ends.lift (Q := fun a q => y = .ok a ∧ q = p) (fun a ha => ⟨ha, rfl⟩) fun e he => ?_).bind ?_
  · refine Fails.whole hpart (Or.inr fun a ha => ?_)
    rw [he] at ha
    cases ha
  · rintro a _ ⟨ha, rfl⟩
    exact hf a ha

/-! ## Parts of a node -/

section Parts

variable {raw entries : List (Value × Value)} {I : Progress → Prop} {definitions : Definitions}

/-- Reading the value as a node follows what it describes. -/
def FollowsNode (raw : List (Value × Value)) (I : Progress → Prop) (definitions : Definitions) (value : Value) : Prop :=
  ∀ location, Follows raw I (nodeReader (readNode definitions) value location) (describe raw value location) (Agrees raw)

theorem follows_readAttributes (location : String) : ∀ {attributes : List (Value × Value)},
    (∀ e ∈ attributes, FollowsNode raw I definitions e.2) → Follows raw I
      (RawFields.readAttributes location (attributes.map fun e => (e.1, nodeReader (readNode definitions) e.2)))
      (RawFields.readAttributes location (attributes.map fun e => (e.1, describe raw e.2))) (Chain (AgreesAt raw))
  | [], _ => .pure fun _ => .nil
  | e :: rest, h => by
    simp only [List.map_cons, RawFields.readAttributes]
    exact (h e List.mem_cons_self _).andThen
      (follows_readAttributes location fun e he => h e (List.mem_cons_of_mem _ he)) fun hr hr' => .cons ⟨rfl, hr⟩ hr'

theorem follows_readMembers (location : String) : ∀ {items : List Value} (index : Nat),
    (∀ value ∈ items, FollowsNode raw I definitions value) → Follows raw I
      (RawFields.readMembers location index (items.map (nodeReader (readNode definitions))))
      (RawFields.readMembers location index (items.map (describe raw))) (Chain (Agrees raw))
  | [], _, _ => .pure fun _ => .nil
  | value :: rest, index, h => by
    simp only [List.map_cons, RawFields.readMembers]
    exact (h value List.mem_cons_self _).andThen
      (follows_readMembers location (index + 1) fun e he => h e (List.mem_cons_of_mem _ he)) fun hr hr' => .cons hr hr'

/-- A part that may be missing follows what is described of it. -/
abbrev AgreesOption (raw : List (Value × Value)) (k : Nat) (a b : Option Schema) (n : Nat) : Prop :=
  Chain (Agrees raw) k a.toList b.toList n

theorem follows_node? (h : ∀ name value, Value.lookup name entries = some value → FollowsNode raw I definitions value)
    (name location : String) : Follows raw I (RawFields.node? name location (rawFields (readNode definitions) [] entries))
      (RawFields.node? name location (rawFields (describeMapping raw) [] entries)) (AgreesOption raw) := by
  rw [RawFields.node?_rawFields, RawFields.node?_rawFields]
  cases hl : Value.lookup name entries with
  | none => exact .pure fun _ => .nil
  | some value => exact (h name value hl location).map fun _ hr => .cons hr .nil

variable (hentries : Value.entriesAreJson entries = true)
include hentries

theorem follows_additional (h : ∀ name value, Value.lookup name entries = some value →
      FollowsNode raw I definitions value) (location : String) :
    Follows raw I (RawFields.additional location (rawFields (readNode definitions) [] entries))
      (RawFields.additional location (rawFields (describeMapping raw) [] entries)) (AgreesOption raw) := by
  rw [RawFields.additional_rawFields _ hentries, RawFields.additional_rawFields _ hentries]
  cases hl : Value.lookup "additionalProperties" entries with
  | none => exact .pure fun _ => .nil
  | some value =>
    cases value with
    | map fields => exact (h _ _ hl _).map fun _ hr => .cons hr .nil
    | _ => exact .pure fun _ => .nil

theorem follows_properties (h : ∀ attributes, Value.lookup "properties" entries = some (.map attributes) →
      ∀ e ∈ attributes, FollowsNode raw I definitions e.2) (location : String) :
    Follows raw I (RawFields.properties location (rawFields (readNode definitions) [] entries))
      (RawFields.properties location (rawFields (describeMapping raw) [] entries)) (Chain (AgreesAt raw)) := by
  rw [RawFields.properties_rawFields _ hentries, RawFields.properties_rawFields _ hentries]
  cases hl : Value.lookup "properties" entries with
  | none => exact .pure fun _ => .nil
  | some value =>
    have hjson := Value.isJson_of_lookup hentries hl
    dsimp only
    split
    · exact .pure fun _ => .nil
    · cases value with
      | map attributes =>
        refine (follows_readAttributes location (h attributes hl)).map fun {k as bs n} hb hr => ?_
        have hbs : (bs.map (·.1)).Nodup := by
          rw [names_readAttributes hb]
          exact Value.nodup_plain hjson
        have has : (as.map (·.1)).Nodup := by
          rw [hr.map_eq fun hr => hr.1]
          exact hbs
        rwa [Assoc.ofList_of_nodup has, Assoc.ofList_of_nodup hbs]
      | _ => exact .throw

theorem follows_members (h : ∀ items, Value.lookup "x-kcl-union-types" entries = some (.list items) →
      ∀ value ∈ items, FollowsNode raw I definitions value) (location : String) :
    Follows raw I (RawFields.members location (rawFields (readNode definitions) [] entries))
      (RawFields.members location (rawFields (describeMapping raw) [] entries)) (Chain (Agrees raw)) := by
  rw [RawFields.members_rawFields _ hentries, RawFields.members_rawFields _ hentries]
  cases hl : Value.lookup "x-kcl-union-types" entries with
  | none => exact .pure fun _ => .nil
  | some value =>
    dsimp only
    split
    · exact .pure fun _ => .nil
    · cases value with
      | list items => exact follows_readMembers location 0 (h items hl)
      | _ => exact .throw

/-- Reading the parts of a node follows their descriptions. -/
structure FollowsParts (raw : List (Value × Value)) (I : Progress → Prop) (definitions : Definitions) (location : String)
    (fields : RawFields Reading) (described : RawFields (Except Error)) : Prop where
  properties : Follows raw I (fields.properties location) (described.properties location) (Chain (AgreesAt raw))
  node? : ∀ name location, Follows raw I (fields.node? name location) (described.node? name location) (AgreesOption raw)
  additional : Follows raw I (fields.additional location) (described.additional location) (AgreesOption raw)
  members : Follows raw I (fields.members location) (described.members location) (Chain (Agrees raw))

/-- The parts of a node are nodes of smaller values. -/
theorem followsParts (hbelow : ∀ value, sizeOf value < sizeOf (Value.map entries) → value.isJson = true →
      FollowsNode raw I definitions value) (location : String) :
    FollowsParts raw I definitions location (rawFields (readNode definitions) [] entries)
      (rawFields (describeMapping raw) [] entries) := by
  have hlookup : ∀ name value, Value.lookup name entries = some value → FollowsNode raw I definitions value :=
    fun name value hl => hbelow value (Value.sizeOf_lt_of_lookup hl) (Value.isJson_of_lookup hentries hl)
  refine ⟨follows_properties hentries (fun attributes hl e he => ?_) location, follows_node? hlookup,
    follows_additional hentries hlookup location, follows_members hentries (fun items hl value hv => ?_) location⟩
  · exact hbelow e.2 (Nat.lt_trans (Value.sizeOf_lt_of_mem he) (Value.sizeOf_lt_of_lookup hl))
      (Value.isJson_of_mem (Value.isJson_of_lookup hentries hl) he)
  · exact hbelow value (Nat.lt_trans (Value.sizeOf_lt_of_mem_items hv) (Value.sizeOf_lt_of_lookup hl))
      (Value.isJson_of_mem_items (Value.isJson_of_lookup hentries hl) hv)

end Parts

/-! ## Half-read nodes -/

/-- A part of a node that has not been read, or that agrees with its description. -/
inductive SoFar (raw : List (Value × Value)) (n : Nat) (as : List Schema) (described : Except Error (List Schema)) : Prop
  | unread (nil : as = [])
  | read {bs : List Schema} {k m : Nat} (described : described = .ok bs) (chain : Chain (Agrees raw) k as bs m)
    (le : m ≤ n)

/-- A node that has been read so far: every part of it is missing, or it agrees with its description. -/
structure HalfRead (raw : List (Value × Value)) (location : String) (entries : List (Value × Value)) (n : Nat)
    (s : Schema) : Prop where
  head : ∃ head, readHead location entries = .ok head ∧ s.modelType = head.modelType
  properties : s.properties = [] ∧ s.required = [] ∨ ∃ bs k m,
    RawFields.properties location (rawFields (describeMapping raw) [] entries) = .ok bs ∧
    required location entries = .ok s.required ∧ Chain (AgreesAt raw) k s.properties bs m ∧ m ≤ n
  items : SoFar raw n s.items.toList
    (Option.toList <$> RawFields.node? "items" (location ++ "[items]") (rawFields (describeMapping raw) [] entries))
  additional : SoFar raw n s.additional.toList
    (Option.toList <$> RawFields.additional location (rawFields (describeMapping raw) [] entries))
  members : SoFar raw n s.members (RawFields.members location (rawFields (describeMapping raw) [] entries))

section HalfRead

variable {raw entries : List (Value × Value)} {n : Nat} {s o : Schema} {location key : String}

theorem SoFar.below {as : List Schema} {y : Except Error (List Schema)} (h : SoFar raw n as y) :
    ∀ t ∈ as, t.Below n := by
  intro t ht
  cases h with
  | unread nil => simp [nil] at ht
  | read _ chain le =>
    obtain ⟨_, -, _, _, hle, hagrees⟩ := chain.mem Agrees.le ht
    exact hagrees.below.mono (Nat.le_trans hle le)

theorem SoFar.covers {as bs : List Schema} {y : Except Error (List Schema)} (h : SoFar raw n as y) (hraw : AllGood raw)
    (hy : y = .ok bs) : ∀ t ∈ as, ∃ u ∈ bs, ∀ top, Schema.Sound top u → Schema.Sound top t := by
  intro t ht
  cases h with
  | unread nil => simp [nil] at ht
  | read described chain _ =>
    cases hy.symm.trans described
    obtain ⟨u, hu, _, _, -, hagrees⟩ := chain.mem Agrees.le ht
    exact ⟨u, hu, hagrees.sound hraw⟩

theorem HalfRead.below (h : HalfRead raw location entries n s) (hnumber : ∀ m ∈ s.number, m < n) : s.Below n := by
  refine .intro hnumber (fun e he => ?_) (fun t ht => h.items.below t (Option.mem_toList.2 ht))
    (fun t ht => h.additional.below t (Option.mem_toList.2 ht)) h.members.below
  rcases h.properties with ⟨hnil, -⟩ | ⟨bs, k, m, -, -, chain, le⟩
  · simp [hnil] at he
  · obtain ⟨_, -, _, _, hle, -, hagrees⟩ := chain.mem AgreesAt.le he
    exact hagrees.below.mono (Nat.le_trans hle le)

theorem HalfRead.covers (h : HalfRead raw location entries n s) (hraw : AllGood raw)
    (ho : describeFields location (rawFields (describeMapping raw) [] entries) = .ok o) : Covers s o := by
  obtain ⟨head, hd⟩ := describeFields_ok.1 ho
  have hhead := hd.head
  have hrequired := hd.required
  rw [RawFields.values_rawFields] at hhead hrequired
  obtain ⟨listed, hlisted, hsorted⟩ := hd.listed
  refine ⟨?_, ?_, fun e he => ?_, fun t ht => ?_, fun t ht => ?_, h.members.covers hraw hd.members⟩
  · obtain ⟨head', hhead', hm⟩ := h.head
    cases hhead.symm.trans hhead'
    rw [hm, hd.eq]
  · rcases h.properties with ⟨-, hnil⟩ | ⟨bs, k, m, hbs, hreq, chain, -⟩
    · exact Or.inl hnil
    · cases hlisted.symm.trans hbs
      refine Or.inr ⟨Except.ok.inj (hreq.symm.trans hrequired), fun name hname => ?_⟩
      rw [Schema.names, hsorted] at hname
      rw [Schema.names, chain.map_eq fun hr => hr.1]
      exact (((Assoc.sortByName_perm _ listed).map (·.1)).mem_iff).1 hname
  · rcases h.properties with ⟨hnil, -⟩ | ⟨bs, k, m, hbs, -, chain, -⟩
    · simp [hnil] at he
    · cases hlisted.symm.trans hbs
      obtain ⟨f, hf, _, _, -, hname, hagrees⟩ := chain.mem AgreesAt.le he
      rw [hsorted, hname]
      exact ⟨f.2, (Assoc.mem_sortByName _).2 hf, hagrees.sound hraw⟩
  · obtain ⟨u, hu, hsound⟩ := h.items.covers hraw (except_map_ok.2 ⟨_, hd.items, rfl⟩) t (Option.mem_toList.2 ht)
    exact ⟨u, Option.mem_toList.1 hu, hsound⟩
  · obtain ⟨u, hu, hsound⟩ :=
      h.additional.covers hraw (except_map_ok.2 ⟨_, hd.additional, rfl⟩) t (Option.mem_toList.2 ht)
    exact ⟨u, Option.mem_toList.1 hu, hsound⟩

theorem SoFar.mono {m : Nat} {as : List Schema} {y : Except Error (List Schema)} (h : SoFar raw n as y) (hnm : n ≤ m) :
    SoFar raw m as y := by
  cases h with
  | unread nil => exact .unread nil
  | read described chain le => exact .read described chain (Nat.le_trans le hnm)

theorem HalfRead.mono {m : Nat} (h : HalfRead raw location entries n s) (hnm : n ≤ m) :
    HalfRead raw location entries m s := by
  refine ⟨h.head, h.properties.imp id ?_, h.items.mono hnm, h.additional.mono hnm, h.members.mono hnm⟩
  rintro ⟨bs, k, l, hbs, hrequired, chain, le⟩
  exact ⟨bs, k, l, hbs, hrequired, chain, Nat.le_trans le hnm⟩

/-! A node is read in six steps; what has been read stays as it is in the steps after. -/

theorem HalfRead.start {head : Schema} (h : readHead location entries = .ok head) (number : Option Nat) :
    HalfRead raw location entries n { head with number := number } := by
  obtain ⟨_, _, _, _, _, rfl⟩ := readHead_eq h
  exact ⟨⟨_, h, rfl⟩, Or.inl ⟨rfl, rfl⟩, .unread rfl, .unread rfl, .unread rfl⟩

theorem HalfRead.withProperties {m : Nat} {as bs : List (String × Schema)} {names : List String}
    (h : HalfRead raw location entries m s)
    (hbs : RawFields.properties location (rawFields (describeMapping raw) [] entries) = .ok bs)
    (hnames : required location entries = .ok names) (chain : Chain (AgreesAt raw) m as bs n) :
    HalfRead raw location entries n { s with properties := as, required := names } := by
  obtain ⟨head, -, items, additional, members⟩ := h.mono (chain.le AgreesAt.le)
  exact ⟨head, Or.inr ⟨bs, m, n, hbs, hnames, chain, Nat.le_refl n⟩, items, additional, members⟩

theorem HalfRead.withItems {m : Nat} {item item' : Option Schema} (h : HalfRead raw location entries m s)
    (hitem : RawFields.node? "items" (location ++ "[items]") (rawFields (describeMapping raw) [] entries) = .ok item')
    (chain : AgreesOption raw m item item' n) : HalfRead raw location entries n { s with items := item } := by
  obtain ⟨head, properties, -, additional, members⟩ := h.mono (chain.le Agrees.le)
  exact ⟨head, properties, .read (except_map_ok.2 ⟨_, hitem, rfl⟩) chain (Nat.le_refl n), additional, members⟩

theorem HalfRead.withAdditional {m : Nat} {more more' : Option Schema} (h : HalfRead raw location entries m s)
    (hmore : RawFields.additional location (rawFields (describeMapping raw) [] entries) = .ok more')
    (chain : AgreesOption raw m more more' n) (enum : Option (List Value)) :
    HalfRead raw location entries n { s with additional := more, enum := enum } := by
  obtain ⟨head, properties, items, -, members⟩ := h.mono (chain.le Agrees.le)
  exact ⟨head, properties, items, .read (except_map_ok.2 ⟨_, hmore, rfl⟩) chain (Nat.le_refl n), members⟩

theorem HalfRead.withKeyType {m : Nat} (h : HalfRead raw location entries m s) (hmn : m ≤ n) (keyType : Option Schema) :
    HalfRead raw location entries n { s with keyType := keyType } := by
  obtain ⟨head, properties, items, additional, members⟩ := h.mono hmn
  exact ⟨head, properties, items, additional, members⟩

theorem HalfRead.withMembers {m : Nat} {as bs : List Schema} (h : HalfRead raw location entries m s)
    (hbs : RawFields.members location (rawFields (describeMapping raw) [] entries) = .ok bs)
    (chain : Chain (Agrees raw) m as bs n) (decorators : List Decorator) (examples : List Example) :
    HalfRead raw location entries n { s with members := as, decorators := decorators, examples := examples } := by
  obtain ⟨head, properties, items, additional, -⟩ := h.mono (chain.le Agrees.le)
  exact ⟨head, properties, items, additional, .read hbs chain (Nat.le_refl n)⟩

/-- What has been read of a definition so far is known of it. -/
theorem HalfRead.known (h : HalfRead raw key entries n s) (hl : Value.lookup key raw = some (.map entries))
    (hnumber : ∀ m ∈ s.number, m < n) : Known raw n key s where
  modelType := by
    obtain ⟨head, hhead, hm⟩ := h.head
    rw [hm, modelTypeOf?_eq hl hhead]
  below := h.below hnumber
  sound hraw := by
    obtain ⟨fields, o, he, ho, -, hsound⟩ := hraw key _ hl
    cases he
    exact (h.covers hraw ho).sound hsound

end HalfRead

/-! ## Nodes -/

/-- How the parts of a node are handed on while it is read: this is possible in states with `O`, which all states with
the invariant `I` have, and it leads to a state with the invariant and with `P`. -/
structure Publishes (raw : List (Value × Value)) (location : String) (entries : List (Value × Value))
    (I O : Progress → Prop) (publish : Schema → Reading Unit) (P : Schema → Progress → Prop) : Prop where
  ready : ∀ q, I q → O q
  publish : ∀ s q, O q → HalfRead raw location entries q.count s → (∀ m ∈ s.number, m < q.count) →
    Ends (publish s) q (fun _ q' => I q' ∧ q'.count = q.count ∧ P s q') False

section Nodes

variable {raw entries : List (Value × Value)} {I O : Progress → Prop} {definitions : Definitions} {location : String}
  {publish : Schema → Reading Unit} {P : Schema → Progress → Prop}

theorem Publishes.bind (h : Publishes raw location entries I O publish P) {s : Schema} {p q : Progress} {β : Type}
    {f : Unit → Reading β} {Q : β → Progress → Prop} {F : Prop} (hq : O q)
    (hs : HalfRead raw location entries q.count s) (hnumber : s.number = some p.count) (hlt : p.count < q.count)
    (hf : ∀ q', I q' → q'.count = q.count → P s q' → Ends (f ()) q' Q F) : Ends (publish s >>= f) q Q F := by
  refine ((h.publish s q hq hs fun m hm => ?_).mono (fun _ _ => id) False.elim).bind fun _ q' hq' =>
    hf q' hq'.1 hq'.2.1 hq'.2.2
  rw [hnumber] at hm
  cases hm
  exact hlt

/-- **Reading the fields of a node follows their description**, if so does reading the nodes below it. -/
theorem ends_readFields (hentries : Value.entriesAreJson entries = true)
    (hbelow : ∀ value, sizeOf value < sizeOf (Value.map entries) → value.isJson = true →
      FollowsNode raw I definitions value)
    (hpub : Publishes raw location entries I O publish P) {p : Progress} (hp : O { p with count := p.count + 1 }) :
    Ends (readFields publish location (rawFields (readNode definitions) [] entries)) p
      (fun s p' => I p' ∧ P s p' ∧ ∃ o, describeFields location (rawFields (describeMapping raw) [] entries) = .ok o ∧
        Agrees raw p.count s o p'.count ∧ (Typed raw → s.outline = o.outline))
      (Fails raw (describeFields location (rawFields (describeMapping raw) [] entries))) := by
  have hparts := followsParts hentries hbelow location
  have hvalues : (rawFields (describeMapping raw) [] entries).values = entries := RawFields.values_rawFields ..
  generalize hD : rawFields (describeMapping raw) [] entries = D at *
  unfold readFields
  simp only [RawFields.values_rawFields]
  refine .bind_newNumber ?_
  refine ends_lift_bind (part_of_described fun hd => ⟨_, hvalues ▸ hd.head⟩) fun head hhead => ?_
  -- after every step the half-read node is handed on
  have half1 : HalfRead raw location entries (p.count + 1) { head with number := some p.count } := .start hhead _
  refine hpub.bind hp half1 rfl (Nat.lt_succ_self _) fun q1 h1 hc1 _ => ?_
  refine hparts.properties.bind h1 (part_of_described fun hd => hd.listed.imp fun _ => And.left)
    fun as bs q2 h2 hbs cproperties => ?_
  refine ends_lift_bind (part_of_described fun hd => ⟨_, hvalues ▸ hd.required⟩) fun required hrequired => ?_
  rw [hc1] at cproperties
  have lt2 : p.count < q2.count := cproperties.le AgreesAt.le
  have half2 := half1.withProperties (hD ▸ hbs) hrequired cproperties
  refine hpub.bind (hpub.ready _ h2) half2 rfl lt2 fun q3 h3 hc3 _ => ?_
  refine (hparts.node? _ _).bind h3 (part_of_described fun hd => ⟨_, hd.items⟩)
    fun item item' q4 h4 hitem citems => ?_
  rw [hc3] at citems
  have lt4 := Nat.lt_of_lt_of_le lt2 (citems.le Agrees.le)
  have half4 := half2.withItems (hD ▸ hitem) citems
  refine hpub.bind (hpub.ready _ h4) half4 rfl lt4 fun q5 h5 hc5 _ => ?_
  refine hparts.additional.bind h5 (part_of_described fun hd => ⟨_, hd.additional⟩)
    fun more more' q6 h6 hmore cadditional => ?_
  refine ends_lift_bind (part_of_described fun hd => ⟨_, hvalues ▸ hd.enum⟩) fun enum henum => ?_
  rw [hc5] at cadditional
  have lt6 := Nat.lt_of_lt_of_le lt4 (cadditional.le Agrees.le)
  have half6 := half4.withAdditional (hD ▸ hmore) cadditional enum
  refine hpub.bind (hpub.ready _ h6) half6 rfl lt6 fun q7 h7 hc7 _ => ?_
  refine (hparts.node? _ _).bind h7 (part_of_described fun hd => ⟨_, hd.keyType⟩)
    fun keyType keyType' q8 h8 hkeyType ckeyType => ?_
  rw [hc7] at ckeyType
  have lt8 := Nat.lt_of_lt_of_le lt6 (ckeyType.le Agrees.le)
  have half8 := half6.withKeyType (ckeyType.le Agrees.le) keyType
  refine hpub.bind (hpub.ready _ h8) half8 rfl lt8 fun q9 h9 hc9 _ => ?_
  refine hparts.members.bind h9 (part_of_described fun hd => ⟨_, hd.members⟩)
    fun members members' q10 h10 hmembers cmembers => ?_
  refine ends_lift_bind (part_of_described fun hd => ⟨_, hvalues ▸ hd.decorators⟩) fun decorators hdecorators => ?_
  refine ends_lift_bind (part_of_described fun hd => ⟨_, hvalues ▸ hd.examples⟩) fun examples hexamples => ?_
  rw [hc9] at cmembers
  have lt10 := Nat.lt_of_lt_of_le lt8 (cmembers.le Agrees.le)
  have half10 := half8.withMembers (hD ▸ hmembers) cmembers decorators examples
  refine hpub.bind (hpub.ready _ h10) half10 rfl lt10 fun q11 h11 hc11 hP => ?_
  rw [← hvalues] at hhead hrequired henum hdecorators hexamples
  obtain ⟨o, hdescribed, hagree⟩ : ∃ o, describeFields location D = .ok o ∧ PartsAgree raw p.count
      { head with
        number := some p.count
        properties := as
        required := required
        items := item
        additional := more
        enum := enum
        keyType := keyType
        members := members
        decorators := decorators
        examples := examples }
      o bs q2.count q4.count q6.count q8.count q10.count := by
    refine ⟨{ head with
      properties := Assoc.sortByName (·.1) bs
      required := required
      items := item'
      additional := more'
      enum := enum
      keyType := keyType'
      members := members'
      decorators := decorators
      examples := examples }, describeFields_ok.2 ⟨head, ?_⟩, ?_⟩
    · exact ⟨hhead, except_map_ok.2 ⟨bs, hbs, rfl⟩, hrequired, hitem, hmore, henum, hkeyType, hmembers, hdecorators,
        hexamples, rfl⟩
    · exact ⟨rfl, rfl, rfl, cproperties, citems, cadditional, ckeyType, cmembers⟩
  have hnumbers := half10.below fun m hm => Option.some_inj.1 hm ▸ lt10
  refine Ends.pure ⟨h11, hP, o, hdescribed, ?_, hagree.outline_eq⟩
  rw [hc11]
  exact hagree.agrees hnumbers fun hraw => half10.covers hraw (hD ▸ hdescribed)

/-- The definitions resolve to what is known of them, or something is wrong with the dump. -/
structure Resolves (raw : List (Value × Value)) (I : Progress → Prop) (definitions : Definitions) : Prop where
  isDefined : definitions.isDefined = isDefined raw
  resolve : ∀ name p, Dump.isDefined raw name = true → I p → Ends (definitions.resolve name) p
    (fun s p' => I p' ∧ p.count ≤ p'.count ∧ Known raw p'.count name s) (¬ AllGood raw)

theorem isDefined_of_referenceName {isDefined : String → Bool} {reference : Value} {name : String}
    (h : referenceName isDefined location reference = .ok name) : isDefined name = true := by
  unfold referenceName at h
  repeat' split at h
  all_goals cases h
  assumption

theorem follows_readReference (hdefinitions : Resolves raw I definitions)
    (hcount : ∀ p, I p → I { p with count := p.count + 1 }) (location : String) (reference : Value) :
    Follows raw I (readReference definitions location reference entries)
      (describeReference raw location reference entries) (Agrees raw) := by
  intro p hp
  unfold readReference
  rw [hdefinitions.isDefined]
  refine ends_lift_bind (fun o ho => ?_) fun name hname => ?_
  · obtain ⟨name, _, _, hname, -⟩ := describeReference_ok.1 ho
    exact ⟨name, hname⟩
  have hdefined := isDefined_of_referenceName hname
  refine ((hdefinitions.resolve name p hdefined hp).mono (fun _ _ => id) Or.inl).bind ?_
  rintro s q ⟨hq, hle, hknown⟩
  refine ends_lift_bind (fun o ho => ?_) fun description hdescription => ?_
  · obtain ⟨_, description, _, -, hdescription, -⟩ := describeReference_ok.1 ho
    exact ⟨description, hdescription⟩
  refine ends_lift_bind (fun o ho => ?_) fun decorators hdecorators => ?_
  · obtain ⟨_, _, decorators, -, -, hdecorators, -⟩ := describeReference_ok.1 ho
    exact ⟨decorators, hdecorators⟩
  have hdescribed := describeReference_ok.2 ⟨name, description, decorators, hname, hdescription, hdecorators, rfl⟩
  refine .bind_newNumber (Ends.pure ⟨hcount q hq, _, hdescribed, ?_⟩)
  exact hknown.agrees hdefined hle _ _ _ _

/-- **Reading a value as a node follows what it describes.** -/
theorem follows_node (hdefinitions : Resolves raw I definitions)
    (hcount : ∀ p, I p → I { p with count := p.count + 1 }) (value : Value) (hvalue : value.isJson = true) :
    FollowsNode raw I definitions value := by
  intro location
  cases value with
  | map entries =>
    have hbelow : ∀ v, sizeOf v < sizeOf (Value.map entries) → v.isJson = true → FollowsNode raw I definitions v :=
      fun v _ hv => follows_node hdefinitions hcount v hv
    show Follows raw I (readNode definitions (rawFields (readNode definitions) [] entries) location)
      (describeMapping raw (rawFields (describeMapping raw) [] entries) location) (Agrees raw)
    rw [readNode, describeMapping, RawFields.values_rawFields, RawFields.values_rawFields]
    cases field "$ref" entries with
    | null =>
      intro p hp
      refine (ends_readFields (O := I) (P := fun _ _ => True) hvalue hbelow ⟨fun _ => id, fun s q hq _ _ => ?_⟩
        (hcount p hp)).mono (fun s p' h => ?_) id
      · exact Ends.pure ⟨hq, rfl, trivial⟩
      · obtain ⟨hp', -, o, ho, hagrees, -⟩ := h
        exact ⟨hp', o, ho, hagrees⟩
    | _ => exact follows_readReference hdefinitions hcount location _
  | knot mark inner => simp [Value.isJson] at hvalue
  | _ => exact .throw
termination_by sizeOf value

end Nodes

/-! ## Definitions -/

/-- The invariant of reading with the definitions in `opened` half-read: what is in the table is known of a definition,
the definitions that are not half-read are complete, and no more than `levels` of them have yet to be entered. -/
structure Inv (raw : List (Value × Value)) (opened : List String) (levels : Nat) (p : Progress) : Prop where
  nodup : (p.table.map (·.1)).Nodup
  defined : ∀ key ∈ p.table.map (·.1), isDefined raw key = true
  known : ∀ {key s}, Assoc.get? key p.table = some s → Known raw p.count key s
  complete : ∀ {key s}, Assoc.get? key p.table = some s → key ∉ opened → Complete raw key s
  room : raw.length ≤ levels + p.table.length

section Definitions

variable {raw : List (Value × Value)} {opened opened' : List String} {levels levels' n : Nat} {p : Progress}
  {key : String} {s : Schema}

theorem Inv.count_le (h : Inv raw opened levels p) (hn : p.count ≤ n) : Inv raw opened levels { p with count := n } :=
  ⟨h.nodup, h.defined, fun hs => (h.known hs).mono hn, h.complete, h.room⟩

/-- A half-read definition is put into the table. -/
theorem Inv.put (h : Inv raw opened levels p) (hkey : isDefined raw key = true) (hs : Known raw n key s) (hn : p.count ≤ n)
    (hopened : ∀ k, k ∉ opened' → k ≠ key ∧ k ∉ opened)
    (hroom : raw.length ≤ levels' + (Assoc.put key s p.table).length) :
    Inv raw opened' levels' ⟨Assoc.put key s p.table, n⟩ where
  nodup := Assoc.nodup_alter h.nodup _ _
  defined k hk := by
    rcases Assoc.mem_keys_alter.1 hk with rfl | hk
    · exact hkey
    · exact h.defined k hk
  known {k t} ht := by
    by_cases hk : k = key
    · subst hk
      rw [Assoc.put, Assoc.get?_alter_self] at ht
      cases ht
      exact hs
    · rw [Assoc.put, Assoc.get?_alter_of_ne hk] at ht
      exact (h.known ht).mono hn
  complete {k t} ht hk := by
    obtain ⟨hne, ho⟩ := hopened k hk
    rw [Assoc.put, Assoc.get?_alter_of_ne hne] at ht
    exact h.complete ht ho
  room := hroom

/-- A definition that has been read is not half-read any more. -/
theorem Inv.close (h : Inv raw (key :: opened) levels p) (hs : Assoc.get? key p.table = some s)
    (hcomplete : Complete raw key s) : Inv raw opened (levels + 1) p where
  nodup := h.nodup
  defined := h.defined
  known := h.known
  complete {k t} ht hk := by
    by_cases hkey : k = key
    · subst hkey
      cases hs.symm.trans ht
      exact hcomplete
    · exact h.complete ht (by simp [hkey, hk])
  room := by
    have := h.room
    omega

/-- There is a level left for every definition that has not been entered. -/
theorem Inv.levels_pos (h : Inv raw opened levels p) (hkey : isDefined raw key = true)
    (hnew : key ∉ p.table.map (·.1)) : 0 < levels := by
  have hdefined {k : String} (hk : isDefined raw k = true) : k ∈ keysOf raw := by
    obtain ⟨value, hl⟩ := Option.isSome_iff_exists.1 hk
    exact mem_keysOf (Value.mem_of_lookup hl)
  exact Assoc.left_pos h.nodup (fun k hk => hdefined (h.defined k hk)) (hdefined hkey) hnew (by simpa [keysOf] using h.room)

/-- The states in which a half-read definition can be put into the table. -/
def Opens (raw : List (Value × Value)) (opened : List String) (levels : Nat) (key : String) (q : Progress) : Prop :=
  ∀ s, Known raw q.count key s → Inv raw (key :: opened) levels { q with table := Assoc.put key s q.table }

theorem Inv.opens (h : Inv raw (key :: opened) levels p) (hkey : isDefined raw key = true) :
    Opens raw opened levels key p := by
  refine fun s hs => h.put hkey hs (Nat.le_refl _) (fun k hk => ⟨fun e => hk (e ▸ List.mem_cons_self), hk⟩) ?_
  have hlength := Assoc.length_le_put key s p.table
  have hroom := h.room
  omega

/-- A definition is entered with nothing known of it, and then what is known is put in its place. -/
theorem Inv.enter (h : Inv raw opened (levels + 1) p) (hkey : isDefined raw key = true)
    (hnew : key ∉ p.table.map (·.1)) :
    Opens raw opened levels key { table := Assoc.put key {} p.table, count := p.count + 1 } := by
  intro s hs
  rw [Assoc.put_put]
  refine h.put hkey hs (Nat.le_succ _) (fun k hk => ⟨fun e => hk (e ▸ List.mem_cons_self), fun hm =>
    hk (List.mem_cons_of_mem _ hm)⟩) ?_
  have hroom := h.room
  rw [Assoc.put_of_not_mem hnew, List.length_append, List.length_singleton]
  omega

/-- The parts of a definition are handed on through the table. -/
theorem publishes_definition {fields : List (Value × Value)} (hl : Value.lookup key raw = some (.map fields)) :
    Publishes raw key fields (Inv raw (key :: opened) levels) (Opens raw opened levels key) (enter key)
      (fun s p => Assoc.get? key p.table = some s) where
  ready q hq := hq.opens (by rw [isDefined, hl]; rfl)
  publish s q hq hs hnumber := by
    refine Ends.enter ⟨hq s (hs.known hl hnumber), rfl, ?_⟩
    rw [Assoc.put, Assoc.get?_alter_self]

/-- **Resolving a definition gives what is known of it**, and all of it unless it is half-read; if it fails, something is
wrong with a definition of the dump. -/
theorem ends_resolveWithin (hraw : Value.entriesAreJson raw = true) : ∀ (levels : Nat) {opened : List String}
    {key : String} {p : Progress}, isDefined raw key = true → Inv raw opened levels p →
      Ends (resolveWithin raw levels key) p (fun s p' => Inv raw opened levels p' ∧ p.count ≤ p'.count ∧
        Known raw p'.count key s ∧ (key ∉ opened → Complete raw key s)) (¬ AllGood raw)
  | 0, opened, key, p, hkey, h => by
    rw [resolveWithin]
    refine .bind_known? (fun s hs => .pure ⟨h, Nat.le_refl _, h.known hs, h.complete hs⟩) fun hnone => ?_
    exact absurd (h.levels_pos hkey (Assoc.get?_eq_none_iff.1 hnone)) (Nat.lt_irrefl 0)
  | levels + 1, opened, key, p, hkey, h => by
    rw [resolveWithin]
    refine .bind_known? (fun s hs => .pure ⟨h, Nat.le_refl _, h.known hs, h.complete hs⟩) fun hnone => ?_
    obtain ⟨value, hl⟩ := Option.isSome_iff_exists.1 hkey
    have hjson := Value.isJson_of_lookup hraw hl
    rw [hl, Option.map_some, Value.unmarked_of_isJson hjson]
    cases value with
    | map fields =>
      have hdefinitions : Resolves raw (Inv raw (key :: opened) levels)
          { isDefined := fun name => (Value.lookup name raw).isSome, resolve := resolveWithin raw levels } :=
        ⟨rfl, fun name q hname hq => (ends_resolveWithin hraw levels hname hq).mono
          (fun _ _ h => ⟨h.1, h.2.1, h.2.2.1⟩) id⟩
      have hbelow := fun (value : Value) (_ : sizeOf value < sizeOf (Value.map fields)) hvalue =>
        follows_node hdefinitions (fun q hq => hq.count_le (Nat.le_succ _)) value hvalue
      have hread := ends_readFields (p := { p with table := Assoc.put key {} p.table }) hjson hbelow
        (publishes_definition hl) (h.enter hkey (Assoc.get?_eq_none_iff.1 hnone))
      refine .bind_enter (hread.mono (fun s p' hends => ?_) fun hfails hgood => ?_)
      · obtain ⟨hp', hs, o, ho, hagrees, houtline⟩ := hends
        have hcomplete : Complete raw key s := by
          refine ⟨fields, o, hl, ho, houtline, fun hproblem => ?_⟩
          obtain ⟨seen', hvisit⟩ := Schema.problem?_eq_none.1 hproblem
          exact hagrees.checked (by simp) hvisit
        exact ⟨hp'.close hs hcomplete, hagrees.le, hp'.known hs, fun _ => hcomplete⟩
      · obtain ⟨fields', o, he, ho, -⟩ := hgood key _ hl
        cases he
        rcases hfails with hfails | hfails
        · exact hfails hgood
        · exact hfails o ho
    | _ =>
      refine Ends.throw fun hgood => ?_
      obtain ⟨fields, _, he, -⟩ := hgood key _ hl
      cases he

end Definitions

end SchemaDocs.Dump
