import SchemaDocs.Proofs.Forms
import SchemaDocs.Proofs.Written

/-!
# Courses of readings

The nodes of a dump are read in one reading, in which written-out nodes, references and definitions call each other. To
follow it, it is enough to say what is known at each point (the worlds of a `Course`), which worlds come later than
others, what holds between a raw node and the schema read from it, and which errors may come up. Then whatever is read
of a node has been read from its parts, and every error is one that may come up (`Course.readFields`,
`Course.readMapping`, `Course.reads`). How definitions are resolved is left open (`Course.Resolves`), since that is
where the worlds differ most.
-/

namespace SchemaDocs

/-- The schema as it is after so many steps of its reading, with the parts that are read later left out. -/
def Schema.upTo (step : Nat) (s : Schema) : Schema := { s with
  properties := if 1 ≤ step then s.properties else []
  required := if 1 ≤ step then s.required else []
  items := if 2 ≤ step then s.items else none
  additional := if 3 ≤ step then s.additional else none
  enum := if 3 ≤ step then s.enum else none
  keyType := if 4 ≤ step then s.keyType else none
  members := if 5 ≤ step then s.members else []
  decorators := if 5 ≤ step then s.decorators else []
  examples := if 5 ≤ step then s.examples else [] }

/-- The second schema is the first one after one more step of its reading. -/
structure Schema.Advances (step : Nat) (s t : Schema) : Prop where
  before : t.upTo step = s
  after : t.upTo (step + 1) = t

namespace Schema.Advances

variable {s : Schema}

theorem properties (h : s.upTo 0 = s) (properties : List (String × Schema)) (required : List String) :
    Advances 0 s { s with properties := properties, required := required } := by
  rw [← h]
  exact ⟨rfl, rfl⟩

theorem items (h : s.upTo 1 = s) (items : Option Schema) : Advances 1 s { s with items := items } := by
  rw [← h]
  exact ⟨rfl, rfl⟩

theorem additional (h : s.upTo 2 = s) (additional : Option Schema) (enum : Option (List Value)) :
    Advances 2 s { s with additional := additional, enum := enum } := by
  rw [← h]
  exact ⟨rfl, rfl⟩

theorem keyType (h : s.upTo 3 = s) (keyType : Option Schema) : Advances 3 s { s with keyType := keyType } := by
  rw [← h]
  exact ⟨rfl, rfl⟩

theorem members (h : s.upTo 4 = s) (members : List Schema) (decorators : List Decorator) (examples : List Example) :
    Advances 4 s { s with members := members, decorators := decorators, examples := examples } := by
  rw [← h]
  exact ⟨rfl, rfl⟩

end Schema.Advances

namespace Dump

/-- A node that refers to a schema, with a number and with what stands next to the reference. -/
def asReference (s : Schema) (number : Nat) (description : String) (default : Option Value) (readOnly : Bool)
    (decorators : List Decorator) : Schema :=
  { s with
    number := some number
    description := description
    default := default
    readOnly := readOnly
    decorators := decorators
    examples := [] }

/-- The raw node refers to the definition with the name. -/
def RefersTo (name : String) (fields : List (Value × Value)) : Prop :=
  field "$ref" fields = .str (referenceStart ++ name)

theorem RefersTo.ne_null {name : String} {fields : List (Value × Value)} (h : RefersTo name fields) :
    field "$ref" fields ≠ .null := by
  rw [h]
  simp

theorem RefersTo.unique {name name' : String} {fields : List (Value × Value)} (h : RefersTo name fields)
    (h' : RefersTo name' fields) : name = name' := by
  rw [RefersTo, h, Value.str.injEq] at h'
  exact (String.append_right_inj referenceStart).1 h'

/-- The raw nodes that are read as parts of a node in a step of its reading. -/
def nodesAt (fields : List (Value × Value)) : Nat → List Value
  | 0 => (field "properties" fields).entriesOf.map (·.2)
  | 1 => writtenIn "items" fields
  | 2 => writtenAdditional fields
  | 3 => writtenIn "x-kcl-dict-key-type" fields
  | 4 => writtenMembers fields
  | _ => []

theorem lt_of_mem_nodesAt {fields : List (Value × Value)} {value : Value} :
    ∀ {step : Nat}, value ∈ nodesAt fields step → step < 5
  | 0, _ | 1, _ | 2, _ | 3, _ | 4, _ => by decide
  | step + 5, h => by simp [nodesAt] at h

/-- What a schema states about itself is what is written in the fields of its node. -/
structure Own (fields : List (Value × Value)) (s : Schema) : Prop where
  modelType : ∃ location, modelTypeField location fields = .ok s.modelType
  type : ∃ location, textField "type" location fields = .ok s.type
  description : ∃ location text, textField "description" location fields = .ok text ∧
    s.description = Text.trimBlanks text
  readOnly : s.readOnly = (field "readOnly" fields).isTruthy
  default : s.default = Value.lookup "default" fields
  enum : ∃ location, enumerated location fields = .ok s.enum
  decorators : ∃ location, readDecorators location fields = .ok s.decorators
  examples : ∃ location, readExamples location fields = .ok s.examples

theorem own_of_readHead {location : String} {fields : List (Value × Value)} {head : Schema}
    (h : readHead location fields = .ok head) :
    modelTypeField location fields = .ok head.modelType ∧ textField "type" location fields = .ok head.type ∧
      (∃ text, textField "description" location fields = .ok text ∧ head.description = Text.trimBlanks text) ∧
      head.readOnly = (field "readOnly" fields).isTruthy ∧ head.default = Value.lookup "default" fields := by
  simp only [readHead, except_bind_ok] at h
  obtain ⟨modelType, hmodel, type, htype, description, hdescription, ⟨⟩⟩ := h
  exact ⟨hmodel, htype, ⟨description, hdescription, rfl⟩, rfl, rfl⟩

/-- What stands next to a reference is what is written there. -/
structure Beside (fields : List (Value × Value)) (description : String) (default : Option Value) (readOnly : Bool)
    (decorators : List Decorator) : Prop where
  description : ∃ location text, textField "description" location fields = .ok text ∧ description = Text.trimBlanks text
  default : default = Value.lookup "default" fields
  readOnly : readOnly = (field "readOnly" fields).isTruthy
  decorators : ∃ location, readDecorators location fields = .ok decorators

/-! ## Courses -/

/-- What is known at each point of a reading (the worlds), and what is said of the schemas and errors that come of
it. -/
structure Course where
  World : Type
  /-- The world is what is known in the state of a reading. -/
  Stands : World → Progress → Prop
  /-- The second world comes later while parts of a node are read. -/
  Later : World → World → Prop
  /-- The second world is the first one, but for a node that has now been read in full. -/
  Closes : World → World → Prop
  /-- What is said of schemas in the first world holds in the second one. -/
  Grows : World → World → Prop
  /-- The schema is a node that has been read in full. -/
  Has : World → Schema → Prop
  /-- The schema has been read from the raw node. -/
  Node : World → Value → Schema → Prop
  /-- The schema is what is known of the definition with the name. -/
  Part : World → String → Schema → Prop
  /-- The raw value is read as a node, below the nodes with the first marks; its parts lie below those with the second
  ones. -/
  Scope : World → List (Nat × Nat) → List (Nat × Nat) → Value → Prop
  /-- The error may come up. -/
  Fault : Error → Prop

namespace Course

/-- A way to go on from world to world in which nodes are begun and closed. -/
structure Path (C : Course) (L : C.World → C.World → Prop) : Prop where
  refl : ∀ w, L w w
  trans : ∀ {u v w}, L u v → L v w → L u w
  of_later : ∀ {v w}, C.Later v w → L v w
  grows : ∀ {v w}, L v w → C.Grows v w
  begins : ∀ {w p}, C.Stands w p → ∃ v, C.Later w v ∧ C.Stands v { p with count := p.count + 1 } ∧
    ∀ {u p' s}, L v u → C.Stands u p' → s.number = some p.count →
      ∃ u', L w u' ∧ C.Closes u u' ∧ C.Stands u' p' ∧ C.Has u' s

/-- What is said in a course follows from the parts. -/
structure Lawful (C : Course) : Prop where
  path : C.Path C.Later
  closes_grows : ∀ {v w}, C.Closes v w → C.Grows v w
  node_grows : ∀ {v w value s}, C.Grows v w → C.Node v value s → C.Node w value s
  part_grows : ∀ {v w name s}, C.Grows v w → C.Part v name s → C.Part w name s
  node_knot : ∀ {w mark value s}, C.Node w value s → C.Node w (.knot mark value) s
  node_written : ∀ {w fields s}, field "$ref" fields = .null → C.Has w s → Own fields s → ReadFrom (C.Node w) fields s →
    C.Node w (.map fields) s
  node_reference : ∀ {w fields name s} {number description default readOnly decorators}, RefersTo name fields →
    C.Part w name s → Beside fields description default readOnly decorators →
      C.Has w (asReference s number description default readOnly decorators) →
        C.Node w (.map fields) (asReference s number description default readOnly decorators)
  scope_later : ∀ {v w around below value}, C.Later v w → C.Scope v around below value → C.Scope w around below value
  scope_knot : ∀ {w around below mark value}, C.Scope w around below (.knot mark value) →
    C.Scope w around (mark :: below) value
  scope_part : ∀ {w around below fields step value}, C.Scope w around below (.map fields) →
    field "$ref" fields = .null → value ∈ nodesAt fields step → C.Scope w below below value
  fault_node : ∀ location fault, C.Fault (.node location fault)
  fault_unordered : ∀ {w around below fields}, C.Scope w around below (.map fields) → field "$ref" fields = .null →
    UnorderedExamples fields → C.Fault .unorderedExamples
  fault_endless : ∀ {w around below mark value}, C.Scope w around below (.knot mark value) → mark ∈ around →
    C.Fault .endless

variable {C : Course} {L : C.World → C.World → Prop} {v w : C.World}

variable (C) in
/-- In the world, the reading ends in a world that `L` leads to, with a result that has `R` there, or with an error that
may come up. -/
def Keeps {α : Type} (L : C.World → C.World → Prop) (w : C.World) (x : Reading α) (R : C.World → α → Prop) : Prop :=
  ∀ p, C.Stands w p → match x p with
    | .ok (a, p') => ∃ v, L w v ∧ C.Stands v p' ∧ R v a
    | .error e => C.Fault e

namespace Keeps

variable {α β : Type} {x : Reading α} {R : C.World → α → Prop} {S : C.World → β → Prop}

theorem pure (hL : C.Path L) {a : α} (h : R w a) : C.Keeps L w (Pure.pure a) R := fun _ hp => ⟨w, hL.refl w, hp, h⟩

theorem throw {e : Error} (h : C.Fault e) : C.Keeps L w (throw e : Reading α) R := fun _ _ => h

theorem weaken {R' : C.World → α → Prop} (hx : C.Keeps L w x R) (h : ∀ v a, R v a → R' v a) : C.Keeps L w x R' := by
  intro p hp
  have := hx p hp
  revert this
  cases x p with
  | error e => exact id
  | ok r => exact fun ⟨v, hv, hp', hr⟩ => ⟨v, hv, hp', h v _ hr⟩

theorem bind_of {K : C.World → C.World → Prop} (hK : ∀ {u v}, K w v → L v u → L w u) {f : α → Reading β}
    (hx : C.Keeps K w x R) (hf : ∀ v a, K w v → R v a → C.Keeps L v (f a) S) : C.Keeps L w (x >>= f) S := by
  intro p hp
  have := hx p hp
  revert this
  simp only [Bind.bind, StateT.bind, Except.bind]
  cases x p with
  | error e => exact id
  | ok r =>
    rintro ⟨v, hv, hp', hr⟩
    have := hf v r.1 hv hr r.2 hp'
    revert this
    dsimp only
    cases f r.1 r.2 with
    | error e => exact id
    | ok r' => exact fun ⟨u, hu, hp'', hs⟩ => ⟨u, hK hv hu, hp'', hs⟩

theorem bind (hL : C.Path L) {f : α → Reading β} (hx : C.Keeps L w x R)
    (hf : ∀ v a, L w v → R v a → C.Keeps L v (f a) S) : C.Keeps L w (x >>= f) S :=
  bind_of (L := L) (K := L) hL.trans hx hf

/-- A part is read, and then what follows it. -/
theorem bind_part (hL : C.Path L) {f : α → Reading β} (hx : C.Keeps C.Later w x R)
    (hf : ∀ v a, C.Later w v → R v a → C.Keeps L v (f a) S) : C.Keeps L w (x >>= f) S :=
  bind_of (L := L) (K := C.Later) (fun hv => hL.trans (hL.of_later hv)) hx hf

theorem map (hL : C.Path L) {f : α → β} (hx : C.Keeps L w x R) (h : ∀ v a, R v a → S v (f a)) :
    C.Keeps L w (f <$> x) S := hx.bind hL fun v a _ hr => .pure hL (h v a hr)

/-- A step that needs no state. -/
theorem bind_lift {y : Except Error α} {f : α → Reading β} (hfault : ∀ e, y = .error e → C.Fault e)
    (h : ∀ a, y = .ok a → C.Keeps L w (f a) S) : C.Keeps L w (liftM y >>= f) S := by
  cases y with
  | error e => exact fun _ _ => hfault e rfl
  | ok a => exact h a rfl

/-- What gets a new number and is a node in the end. -/
theorem newNode (hL : C.Path L) {f : Nat → Reading Schema} {S : C.World → Schema → Prop}
    (hS : ∀ {v w s}, C.Closes v w → S v s → S w s)
    (h : ∀ v number, C.Later w v → C.Keeps L v (f number) fun u s => s.number = some number ∧ S u s) :
    C.Keeps L w (newNumber >>= f) fun u s => C.Has u s ∧ S u s := by
  intro p hp
  obtain ⟨v, hv, hp', hclose⟩ := hL.begins hp
  have hrun : (newNumber >>= f) p = f p.count { p with count := p.count + 1 } := rfl
  have := h v p.count hv _ hp'
  revert this
  rw [hrun]
  cases f p.count { p with count := p.count + 1 } with
  | error e => exact id
  | ok r =>
    rintro ⟨u, hu, hq, hnumber, hs⟩
    obtain ⟨u', hu', hcloses, hq', hhas⟩ := hclose hu hq hnumber
    exact ⟨u', hu', hq', hhas, hS hcloses hs⟩

end Keeps

/-! ## The parts of a node -/

variable (C) in
/-- Reading the value as a node gives a schema with `Node`, wherever it is in scope. -/
def Reads (around below : List (Nat × Nat)) (value : Value) (read : String → Reading Schema) : Prop :=
  ∀ w location, C.Scope w around below value → C.Keeps C.Later w (read location) fun v s => C.Node v value s

variable (C) in
/-- Reading the value as a node, or what lies in it, gives schemas with `Node`. -/
structure ReadsNode (around below : List (Nat × Nat)) (value : Value) (n : RawNode Reading) : Prop where
  value_eq : n.value = value
  read : C.Reads around below value n.read
  entries : List.Forall₂ (fun e read => read.1 = e.1 ∧ C.Reads around around e.2 read.2) value.entriesOf (n.entries ())
  items : List.Forall₂ (C.Reads around around) value.itemsOf (n.items ())

variable (C) in
/-- Reading the fields as nodes gives schemas with `Node`. -/
def ReadsFields (around : List (Nat × Nat)) (entries : List (Value × Value)) (fields : RawFields Reading) : Prop :=
  List.Forall₂ (fun e f => f.1 = e.1 ∧ C.ReadsNode around around e.2 f.2) entries fields

namespace ReadsFields

variable {around : List (Nat × Nat)} {entries : List (Value × Value)} {fields : RawFields Reading} {location : String}

theorem values_eq (h : C.ReadsFields around entries fields) : fields.values = entries := by
  induction h with
  | nil => rfl
  | @cons e f _ _ hef _ ih =>
    rw [RawFields.values] at ih ⊢
    rw [List.map_cons, ih, hef.1, hef.2.value_eq]

theorem find? (h : C.ReadsFields around entries fields) (name : String) :
    Value.lookup name entries = none ∧ fields.find? name = none ∨ ∃ value n, Value.lookup name entries = some value ∧
      fields.find? name = some n ∧ C.ReadsNode around around value n := by
  induction h with
  | nil => exact Or.inl ⟨rfl, rfl⟩
  | @cons e f _ _ hef _ ih =>
    obtain ⟨key, value⟩ := e
    obtain ⟨key', n⟩ := f
    obtain ⟨rfl, hn⟩ := hef
    cases key' with
    | str k =>
      rw [Value.lookup, RawFields.find?]
      by_cases hk : k = name
      · simp only [hk, ↓reduceIte]
        exact Or.inr ⟨value, n, rfl, rfl, hn⟩
      · simpa only [hk, ↓reduceIte] using ih
    | _ => exact ih

variable (hC : C.Lawful)
include hC

theorem node? (h : C.ReadsFields around entries fields) {name : String}
    (hscope : ∀ node ∈ writtenIn name entries, C.Scope w around around node) :
    C.Keeps C.Later w (fields.node? name location) fun v o =>
      List.Forall₂ (C.Node v) (writtenIn name entries) o.toList := by
  unfold RawFields.node?
  unfold writtenIn at hscope ⊢
  rcases h.find? name with ⟨hl, hf⟩ | ⟨value, n, hl, hf, hn⟩
  · rw [hl, hf]
    exact .pure hC.path .nil
  · rw [hl, hf]
    exact (hn.read w location (hscope value (by simp [hl]))).map hC.path fun _ _ hs => .cons hs .nil

theorem readAttributes {attributes : List (Value × Value)} {readers : List (Value × (String → Reading Schema))}
    (hreads : List.Forall₂ (fun e read => read.1 = e.1 ∧ C.Reads around around e.2 read.2) attributes readers)
    (hscope : ∀ e ∈ attributes, C.Scope w around around e.2) :
    C.Keeps C.Later w (RawFields.readAttributes location readers) fun v ss =>
      List.Forall₂ (Assoc.Paired (C.Node v)) (attributes.map fun e => (e.1.plain, e.2)) ss := by
  induction hreads generalizing w with
  | nil => exact .pure hC.path .nil
  | @cons e reader attributes readers hread _ ih =>
    obtain ⟨name, read⟩ := reader
    obtain ⟨hname, hread⟩ := hread
    rw [RawFields.readAttributes]
    refine (hread w _ (hscope e List.mem_cons_self)).bind hC.path fun v s hv hs => ?_
    refine (ih fun e he => hC.scope_later hv (hscope e (List.mem_cons_of_mem _ he))).bind hC.path ?_
    refine fun v' ss hv' hss => .pure hC.path (.cons ⟨congrArg Value.plain hname.symm, ?_⟩ hss)
    exact hC.node_grows (hC.path.grows hv') hs

theorem properties (h : C.ReadsFields around entries fields)
    (hscope : ∀ e ∈ (field "properties" entries).entriesOf, C.Scope w around around e.2) :
    C.Keeps C.Later w (fields.properties location) fun v ss =>
      List.Forall₂ (Assoc.Paired (C.Node v)) (writtenAttributes entries) ss := by
  unfold RawFields.properties
  unfold writtenAttributes
  unfold field at hscope ⊢
  rcases h.find? "properties" with ⟨hl, hf⟩ | ⟨value, n, hl, hf, hn⟩
  · rw [hl, hf]
    exact .pure hC.path .nil
  · simp only [hl, hf, hn.value_eq, Option.getD_some] at hscope ⊢
    cases htruthy : value.isTruthy with
    | false =>
      rw [Value.entriesOf_of_not_isTruthy htruthy]
      exact .pure hC.path .nil
    | true =>
      simp only [Bool.not_true, Bool.false_eq_true, ↓reduceIte]
      split
      · exact (readAttributes hC hn.entries hscope).map hC.path fun _ _ hss => Assoc.forall₂_ofList hss
      · exact .throw (hC.fault_node ..)

theorem additional (h : C.ReadsFields around entries fields)
    (hscope : ∀ node ∈ writtenAdditional entries, C.Scope w around around node) :
    C.Keeps C.Later w (fields.additional location) fun v o =>
      List.Forall₂ (C.Node v) (writtenAdditional entries) o.toList := by
  unfold RawFields.additional
  unfold writtenAdditional writtenIn at hscope ⊢
  rcases h.find? "additionalProperties" with ⟨hl, hf⟩ | ⟨value, n, hl, hf, hn⟩
  · rw [hl, hf]
    exact .pure hC.path .nil
  · simp only [hl, hf, hn.value_eq, Option.toList_some, List.filter_singleton] at hscope ⊢
    cases hv : value.unmarked with
    | map _ =>
      simp only [hv] at hscope
      exact (hn.read w _ (hscope value (by simp))).map hC.path fun _ _ hs => .cons hs .nil
    | _ => exact .pure hC.path .nil

theorem readMembers : ∀ {items : List Value} {readers : List (String → Reading Schema)} {index : Nat} {w : C.World},
    List.Forall₂ (C.Reads around around) items readers → (∀ node ∈ items, C.Scope w around around node) →
    C.Keeps C.Later w (RawFields.readMembers location index readers) fun v ss => List.Forall₂ (C.Node v) items ss
  | _, _, _, _, .nil, _ => .pure hC.path .nil
  | node :: _, read :: _, index, w, .cons hread hrest, hscope => by
    rw [RawFields.readMembers]
    refine (hread w _ (hscope node List.mem_cons_self)).bind hC.path fun v s hv hs => ?_
    refine (readMembers hrest fun n hn => hC.scope_later hv (hscope n (List.mem_cons_of_mem _ hn))).bind hC.path ?_
    exact fun v' ss hv' hss => .pure hC.path (.cons (hC.node_grows (hC.path.grows hv') hs) hss)

theorem members (h : C.ReadsFields around entries fields)
    (hscope : ∀ node ∈ writtenMembers entries, C.Scope w around around node) :
    C.Keeps C.Later w (fields.members location) fun v ss => List.Forall₂ (C.Node v) (writtenMembers entries) ss := by
  unfold RawFields.members
  unfold writtenMembers field at hscope ⊢
  rcases h.find? "x-kcl-union-types" with ⟨hl, hf⟩ | ⟨value, n, hl, hf, hn⟩
  · rw [hl, hf]
    exact .pure hC.path .nil
  · simp only [hl, hf, hn.value_eq, Option.getD_some] at hscope ⊢
    cases htruthy : value.isTruthy with
    | false =>
      rw [Value.itemsOf_of_not_isTruthy htruthy]
      exact .pure hC.path .nil
    | true =>
      simp only [Bool.not_true, Bool.false_eq_true, ↓reduceIte]
      split
      · exact readMembers hC hn.items hscope
      · exact .throw (hC.fault_node ..)

end ReadsFields

/-! ## Nodes -/

variable (C) in
/-- What has been read of a node after each step can be handed on: from `Shows step` in a world it is known there that
the schema is what has been handed on after so many steps, and that the parts that are read next are in scope. -/
structure Publishes (L : C.World → C.World → Prop) (w : C.World) (around : List (Nat × Nat))
    (entries : List (Value × Value)) (publish : Schema → Reading Unit) (Shows : Nat → C.World → Schema → Prop) :
    Prop where
  later : ∀ {step u v s}, C.Later u v → Shows step u s → Shows step v s
  closes : ∀ {u v s}, C.Closes u v → Shows 5 u s → Shows 5 v s
  first : ∀ {v s}, C.Later w v → s.upTo 0 = s → ReadTo 0 (C.Node v) entries s →
    C.Keeps L v (publish s) fun u _ => Shows 0 u s
  next : ∀ {step v s t}, Shows step v s → s.Advances step t → ReadTo (step + 1) (C.Node v) entries t →
    C.Keeps L v (publish t) fun u _ => Shows (step + 1) u t
  scope : ∀ {step v s node}, Shows step v s → node ∈ nodesAt entries step → C.Scope v around around node
  unordered : UnorderedExamples entries → C.Fault .unorderedExamples

section Lawful

variable (hC : C.Lawful)
include hC

theorem fault_of_blames {α : Type} {location : String} {y : Except Error α} (hy : Blames location y) :
    ∀ e, y = .error e → C.Fault e := by
  intro e he
  obtain ⟨fault, rfl⟩ := hy.node e he
  exact hC.fault_node location fault

theorem fault_of_readExamples {location : String} {fields : List (Value × Value)}
    (h : UnorderedExamples fields → C.Fault .unorderedExamples) :
    ∀ e, readExamples location fields = .error e → C.Fault e := by
  intro e he
  by_cases hunordered : UnorderedExamples fields
  · obtain ⟨entries, hf, hnone⟩ := hunordered
    rw [readExamples, hf] at he
    simp only [hnone] at he
    cases he
    exact h ⟨entries, hf, hnone⟩
  · exact fault_of_blames hC (blames_readExamples location hunordered) e he

/-- **Reading the fields of a node gives a schema that has been read from them**, and it is a node that has been read in
full then. -/
theorem ReadsFields.readFields (hL : C.Path L) {around : List (Nat × Nat)} {entries : List (Value × Value)}
    {fields : RawFields Reading} {publish : Schema → Reading Unit} {Shows : Nat → C.World → Schema → Prop}
    (h : C.ReadsFields around entries fields) (hp : C.Publishes L w around entries publish Shows) (location : String) :
    C.Keeps L w (readFields publish location fields) fun v s =>
      C.Has v s ∧ Own entries s ∧ ReadFrom (C.Node v) entries s ∧ Shows 5 v s := by
  unfold Dump.readFields
  refine .newNode hL
    (fun hv hs => ⟨hs.1, hs.2.1.mono fun _ _ => hC.node_grows (hC.closes_grows hv), hp.closes hv hs.2.2⟩)
    fun w number hw => ?_
  rw [h.values_eq]
  refine .bind_lift (fault_of_blames hC (blames_readHead location entries)) fun head hhead => ?_
  have hgrows {u v : C.World} (l : C.Later u v) : ∀ value s, C.Node u value s → C.Node v value s :=
    fun _ _ => hC.node_grows (hC.path.grows l)
  have hgrowsL {u v : C.World} (l : L u v) : ∀ value s, C.Node u value s → C.Node v value s :=
    fun _ _ => hC.node_grows (hL.grows l)
  -- after every step the part that has been read is handed on
  have read0 : ReadTo 0 (C.Node w) entries { head with number := some number } := .start hhead _
  have stage0 : ({ head with number := some number } : Schema).upTo 0 = { head with number := some number } := by
    obtain ⟨_, _, _, _, _, rfl⟩ := readHead_eq hhead
    rfl
  generalize hs0 : ({ head with number := some number } : Schema) = s0 at read0 stage0
  refine (hp.first hw stage0 read0).bind hL fun w _ l shows0 => ?_
  replace read0 := read0.mono (hgrowsL l)
  refine (h.properties hC fun e he => hp.scope shows0 (List.mem_map_of_mem he)).bind_part hL
    fun w properties l hproperties => .bind_lift (fault_of_blames hC (blames_required location entries))
    fun required hrequired => ?_
  have read1 := (read0.mono (hgrows l)).withProperties hproperties hrequired
  have stage1 := Schema.Advances.properties stage0 properties required
  refine (hp.next (hp.later l shows0) stage1 read1).bind hL fun w _ l shows1 => ?_
  replace read1 := read1.mono (hgrowsL l)
  refine (h.node? hC fun node hm => hp.scope shows1 hm).bind_part hL fun w item l hitem => ?_
  have read2 := (read1.mono (hgrows l)).withItems hitem
  have stage2 := Schema.Advances.items stage1.after item
  refine (hp.next (hp.later l shows1) stage2 read2).bind hL fun w _ l shows2 => ?_
  replace read2 := read2.mono (hgrowsL l)
  refine (h.additional hC fun node hm => hp.scope shows2 hm).bind_part hL fun w more l hmore =>
    .bind_lift (fault_of_blames hC (blames_enumerated location entries)) fun enum henum => ?_
  have read3 := (read2.mono (hgrows l)).withAdditional hmore enum
  have stage3 := Schema.Advances.additional stage2.after more enum
  refine (hp.next (hp.later l shows2) stage3 read3).bind hL fun w _ l shows3 => ?_
  replace read3 := read3.mono (hgrowsL l)
  refine (h.node? hC fun node hm => hp.scope shows3 hm).bind_part hL fun w keyType l hkeyType => ?_
  have read4 := (read3.mono (hgrows l)).withKeyType hkeyType
  have stage4 := Schema.Advances.keyType stage3.after keyType
  refine (hp.next (hp.later l shows3) stage4 read4).bind hL fun w _ l shows4 => ?_
  replace read4 := read4.mono (hgrowsL l)
  refine (h.members hC fun node hm => hp.scope shows4 hm).bind_part hL fun w members l hmembers =>
    .bind_lift (fault_of_blames hC (blames_readDecorators location entries)) fun decorators hdecorators =>
    .bind_lift (fault_of_readExamples hC hp.unordered) fun examples hexamples => ?_
  have read5 := (read4.mono (hgrows l)).withMembers hmembers decorators examples
  have stage5 := Schema.Advances.members stage4.after members decorators examples
  refine (hp.next (hp.later l shows4) stage5 read5).bind hL fun w _ l shows5 => .pure hL ⟨?_, ?_, ?_, shows5⟩
  · rw [← hs0]
  · subst hs0
    obtain ⟨hmodel, htype, ⟨text, htext⟩, hreadOnly, hdefault⟩ := own_of_readHead hhead
    exact ⟨⟨_, hmodel⟩, ⟨_, htype⟩, ⟨_, _, htext⟩, hreadOnly, hdefault, ⟨_, henum⟩, ⟨_, hdecorators⟩, ⟨_, hexamples⟩⟩
  · exact read5.mono (hgrowsL l)

end Lawful

variable (C) in
/-- The definitions that are referred to resolve to what is known of them. -/
def Resolves (definitions : Definitions) : Prop :=
  ∀ {w around below fields name}, C.Scope w around below (.map fields) → RefersTo name fields →
    definitions.isDefined name = true → C.Keeps C.Later w (definitions.resolve name) fun v s => C.Part v name s

variable {definitions : Definitions}

section Resolves

variable (hC : C.Lawful) (hdefinitions : C.Resolves definitions)
include hC hdefinitions

theorem readReference {around below : List (Nat × Nat)} {entries : List (Value × Value)}
    (hscope : C.Scope w around below (.map entries)) (location : String) :
    C.Keeps C.Later w (readReference definitions location (field "$ref" entries) entries) fun v s =>
      C.Node v (.map entries) s := by
  unfold Dump.readReference
  refine .bind_lift (fault_of_blames hC (blames_referenceName ..)) fun name hname => ?_
  obtain ⟨hrefers, hdefined⟩ := referenceName_ok.1 hname
  refine (hdefinitions hscope hrefers hdefined).bind hC.path fun v s _ hs => ?_
  refine .bind_lift (fault_of_blames hC (blames_textField ..)) fun description hdescription => ?_
  refine .bind_lift (fault_of_blames hC (blames_readDecorators ..)) fun decorators hdecorators => ?_
  have hnew (copy : Nat → Schema) (hcopy : ∀ number, (copy number).number = some number) :
      C.Keeps C.Later v (newNumber >>= fun number => Pure.pure (copy number)) fun u t =>
        C.Has u t ∧ C.Part u name s ∧ ∃ number, t = copy number :=
    .newNode hC.path (fun hu => And.imp_left (hC.part_grows (hC.closes_grows hu))) fun u number hu =>
      .pure hC.path ⟨hcopy _, hC.part_grows (hC.path.grows hu) hs, number, rfl⟩
  refine (hnew (asReference s · _ _ _ _) fun _ => rfl).weaken ?_
  rintro u t ⟨hhas, hpart, number, rfl⟩
  exact hC.node_reference hrefers hpart ⟨⟨_, _, hdescription, rfl⟩, rfl, rfl, _, hdecorators⟩ hhas

/-- **A mapping is read** as a node that is written out or as one that refers to a definition. -/
theorem readMapping {around below : List (Nat × Nat)} {entries : List (Value × Value)} {fields : RawFields Reading}
    (h : C.ReadsFields below entries fields) (hscope : C.Scope w around below (.map entries)) (location : String) :
    C.Keeps C.Later w (readNode definitions fields location) fun v s => C.Node v (.map entries) s := by
  unfold Dump.readNode
  rw [h.values_eq]
  split
  · rename_i href
    -- nothing is handed on of a node that no reference can lead to
    have hp : C.Publishes C.Later w below entries (fun _ => Pure.pure ()) fun step v _ => step < 5 → C.Later w v := {
      later := fun hu hs hstep => hC.path.trans (hs hstep) hu
      closes := fun _ _ hstep => absurd hstep (Nat.lt_irrefl 5)
      first := fun hv _ _ => .pure hC.path fun _ => hv
      next := fun hv _ _ => .pure hC.path fun hstep => hv (Nat.lt_of_succ_lt hstep)
      scope := fun hv hm => hC.scope_part (hC.scope_later (hv (lt_of_mem_nodesAt hm)) hscope) href hm
      unordered := hC.fault_unordered hscope href }
    exact (h.readFields hC hC.path hp location).weaken fun _ _ hs => hC.node_written href hs.1 hs.2.1 hs.2.2.1
  · exact readReference hC hdefinitions hscope location

end Resolves

mutual

/-- **A raw value may hold any nodes**, and reading any of them gives a schema with `Node`. -/
theorem reads (hC : C.Lawful) (hdefinitions : C.Resolves definitions) (around below : List (Nat × Nat)) :
    ∀ value : Value, C.ReadsNode around below value (rawNodeWithin (Dump.readNode definitions) around below value)
  | .map entries => by
    refine ⟨rfl, fun w location hscope => ?_, ?_, .nil⟩
    · exact readMapping hC hdefinitions (readsFields hC hdefinitions below entries) hscope location
    · refine List.forall₂_map_right_iff.2 ((readsFields hC hdefinitions around entries).imp fun e f hef => ?_)
      exact ⟨hef.1, hef.2.read⟩
  | .list items => by
    refine ⟨rfl, fun w location _ => .throw (hC.fault_node ..), .nil, ?_⟩
    exact List.forall₂_map_right_iff.2 ((readsItems hC hdefinitions around items).imp fun _ _ h => h.read)
  | .knot mark inner => by
    have hinner := reads hC hdefinitions around (mark :: below) inner
    refine ⟨rfl, fun w location hscope => ?_, hinner.entries, hinner.items⟩
    simp only [Dump.rawNodeWithin]
    split
    · rename_i hmark
      exact .throw (hC.fault_endless hscope (by simpa using hmark))
    · exact (hinner.read w location (hC.scope_knot hscope)).weaken fun _ _ hs => hC.node_knot hs
  | .null | .bool _ | .int _ | .float _ | .str _ | .date _ | .timestamp _ | .bytes _ | .set _ | .pair _ _ =>
    ⟨rfl, fun _ _ _ => .throw (hC.fault_node ..), .nil, .nil⟩

theorem readsFields (hC : C.Lawful) (hdefinitions : C.Resolves definitions) (around : List (Nat × Nat)) :
    ∀ entries : List (Value × Value),
      C.ReadsFields around entries (rawFields (Dump.readNode definitions) around entries)
  | [] => .nil
  | (_, value) :: rest => by
    rw [Dump.rawFields]
    exact .cons ⟨rfl, reads hC hdefinitions around around value⟩ (readsFields hC hdefinitions around rest)

theorem readsItems (hC : C.Lawful) (hdefinitions : C.Resolves definitions) (around : List (Nat × Nat)) :
    ∀ items : List Value,
      List.Forall₂ (C.ReadsNode around around) items (rawItems (Dump.readNode definitions) around items)
  | [] => .nil
  | value :: rest => by
    rw [Dump.rawItems]
    exact .cons (reads hC hdefinitions around around value) (readsItems hC hdefinitions around rest)

end

end Course

end Dump

end SchemaDocs
