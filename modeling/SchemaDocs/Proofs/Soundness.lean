import SchemaDocs.Schema.Check
import SchemaDocs.Proofs.Attributes
import SchemaDocs.Proofs.Outcomes

/-!
# Sound schemas

The check passes over nodes that it has visited, and it names the location of a problem. Whether there is a problem
is a matter of the tree alone: every node that is looked at requires only names of its own attributes (`Sound`). Of the
location it only matters whether it is empty, for there a named schema is looked into. A sound tree has no problem
whatever has been visited (`visit_of_sound`), and the numbers that a visit adds are those of the tree (`Below.adds`).
-/

namespace SchemaDocs

namespace Schema

variable {s t : Schema} {location : String} {seen seen' : Visited} {top : Bool}

/-! ## The visit in terms of the parts -/

def names (s : Schema) : List String := s.properties.map (·.1)

theorem visit_eq (location : String) (seen : Visited) (s : Schema) : s.visit location seen =
    if seen.has s.number then .ok seen
    else match undeclared? s.required s.names with
      | some name => .error (.undeclared name location)
      | none =>
        if s.modelType.isSome && !location.isEmpty then .ok (seen.mark s.number)
        else (do
          let seen ← visitProperties location (seen.mark s.number) s.properties
          let seen ← visitElement (Location.element location "items") seen s.items
          let seen ← visitElement (Location.element location "additionalProperties") seen s.additional
          visitMembers location 0 seen s.members) := by
  obtain ⟨facts, properties, items, additional, keyType, members, number⟩ := s
  rfl

theorem problem?_eq_none {s : Schema} : s.problem? = none ↔ ∃ seen, s.visit "" [] = .ok seen := by
  rw [problem?]
  cases s.visit "" [] <;> simp

theorem undeclared?_eq_none_iff {required declared : List String} :
    undeclared? required declared = none ↔ ∀ name ∈ required, name ∈ declared := by
  simp [undeclared?]

theorem isEmpty_property (location name : String) :
    (Location.property location name).isEmpty = (location.isEmpty && name.isEmpty) := by
  unfold Location.property
  cases h : location.isEmpty with
  | true => rfl
  | false =>
    rw [if_neg (by simp), Bool.false_and, Bool.eq_false_iff, Ne, String.isEmpty_iff]
    intro e
    have := congrArg (fun s : String => s.toList.length) e
    simp [String.toList_append] at this

theorem isEmpty_element (location : String) {label : String} (h : label.isEmpty = false) :
    (Location.element location label).isEmpty = false := by
  unfold Location.element
  split
  · exact h
  · rw [Bool.eq_false_iff, Ne, String.isEmpty_iff]
    intro e
    have := congrArg (fun s : String => s.toList.length) e
    simp [String.toList_append] at this

theorem isEmpty_member (location : String) (index : Nat) : (Location.member location index).isEmpty = false := by
  rw [Bool.eq_false_iff, Ne, String.isEmpty_iff]
  intro e
  have := congrArg (fun s : String => s.toList.length) e
  simp [Location.member, String.toList_append] at this

/-! ## Sound trees -/

/-- The nodes that are looked at require only names of their own attributes. Below a named schema nothing is looked
at, except at the top. -/
inductive Sound : Bool → Schema → Prop
  | reference {s : Schema} (required : ∀ name ∈ s.required, name ∈ s.names) (named : s.modelType.isSome = true) :
    Sound false s
  | node {top : Bool} {s : Schema} (required : ∀ name ∈ s.required, name ∈ s.names)
    (properties : ∀ e ∈ s.properties, Sound (top && e.1.isEmpty) e.2) (items : ∀ t ∈ s.items, Sound false t)
    (additional : ∀ t ∈ s.additional, Sound false t) (members : ∀ t ∈ s.members, Sound false t) : Sound top s

theorem Sound.required (h : Sound top s) : ∀ name ∈ s.required, name ∈ s.names := by
  cases h with
  | reference required _ => exact required
  | node required _ _ _ _ => exact required

/-- A sound tree is also sound where nothing below named schemas is looked at. -/
theorem Sound.below_top (h : Sound top s) : Sound false s := by
  induction h with
  | reference required named => exact .reference required named
  | node required _ _ _ _ ihProperties ihItems ihAdditional ihMembers =>
    exact .node required ihProperties ihItems ihAdditional ihMembers

theorem Sound.of_true (h : Sound true s) : ∀ top, Sound top s
  | true => h
  | false => h.below_top

/-- Whatever is required or lies below the schema `s` does so in `o`, and what lies below is sound if it is there. -/
structure Covers (s o : Schema) : Prop where
  modelType : s.modelType = o.modelType
  required : s.required = [] ∨ s.required = o.required ∧ ∀ name ∈ o.names, name ∈ s.names
  properties : ∀ e ∈ s.properties, ∃ t, (e.1, t) ∈ o.properties ∧ ∀ top, Sound top t → Sound top e.2
  items : ∀ t ∈ s.items, ∃ u ∈ o.items, ∀ top, Sound top u → Sound top t
  additional : ∀ t ∈ s.additional, ∃ u ∈ o.additional, ∀ top, Sound top u → Sound top t
  members : ∀ t ∈ s.members, ∃ u ∈ o.members, ∀ top, Sound top u → Sound top t

/-- A part of a sound schema is sound. -/
theorem Covers.sound {o : Schema} (h : Covers s o) (ho : Sound top o) : Sound top s := by
  have hrequired : ∀ name ∈ s.required, name ∈ s.names := by
    intro name hname
    rcases h.required with hnil | ⟨heq, hnames⟩
    · simp [hnil] at hname
    · exact hnames name (ho.required name (heq ▸ hname))
  cases ho with
  | reference _ named => exact .reference hrequired (h.modelType ▸ named)
  | node _ properties items additional members =>
    refine .node hrequired (fun e he => ?_) (fun t ht => ?_) (fun t ht => ?_) fun t ht => ?_
    · obtain ⟨u, hu, hsound⟩ := h.properties e he
      exact hsound _ (properties _ hu)
    · obtain ⟨u, hu, hsound⟩ := h.items t ht
      exact hsound _ (items _ hu)
    · obtain ⟨u, hu, hsound⟩ := h.additional t ht
      exact hsound _ (additional _ hu)
    · obtain ⟨u, hu, hsound⟩ := h.members t ht
      exact hsound _ (members _ hu)

theorem visitProperties_ok {properties : List (String × Schema)} (h : ∀ e ∈ properties, ∀ seen, ∃ seen',
    e.2.visit (Location.property location e.1) seen = .ok seen') (seen : Visited) :
    ∃ seen', visitProperties location seen properties = .ok seen' := by
  induction properties generalizing seen with
  | nil => exact ⟨seen, rfl⟩
  | cons e rest ih =>
    obtain ⟨seen1, h1⟩ := h e List.mem_cons_self seen
    obtain ⟨seen2, h2⟩ := ih (fun e he => h e (List.mem_cons_of_mem _ he)) seen1
    refine ⟨seen2, ?_⟩
    obtain ⟨name, t⟩ := e
    rw [visitProperties, h1]
    exact h2

theorem visitElement_ok {element : Option Schema} (h : ∀ t ∈ element, ∀ seen, ∃ seen', t.visit location seen = .ok seen')
    (seen : Visited) : ∃ seen', visitElement location seen element = .ok seen' := by
  cases element with
  | none => exact ⟨seen, rfl⟩
  | some t => exact h t rfl seen

theorem visitMembers_ok {members : List Schema} (h : ∀ t ∈ members, ∀ index seen, ∃ seen',
    t.visit (Location.member location index) seen = .ok seen') (index : Nat) (seen : Visited) :
    ∃ seen', visitMembers location index seen members = .ok seen' := by
  induction members generalizing seen index with
  | nil => exact ⟨seen, rfl⟩
  | cons t rest ih =>
    obtain ⟨seen1, h1⟩ := h t List.mem_cons_self index seen
    obtain ⟨seen2, h2⟩ := ih (fun t ht => h t (List.mem_cons_of_mem _ ht)) (index + 1) seen1
    refine ⟨seen2, ?_⟩
    rw [visitMembers, h1]
    exact h2

/-- **The check finds no problem in a sound tree**, whatever has been visited before. -/
theorem visit_of_sound (h : Sound top s) : ∀ {location : String}, location.isEmpty = top → ∀ seen,
    ∃ seen', s.visit location seen = .ok seen' := by
  induction h with
  | @reference s required named =>
    intro location hl seen
    rw [visit_eq]
    split
    · exact ⟨seen, rfl⟩
    · rw [undeclared?_eq_none_iff.2 required]
      exact ⟨_, if_pos (by simp [named, hl])⟩
  | @node top s required _ _ _ _ ihProperties ihItems ihAdditional ihMembers =>
    intro location hl seen
    rw [visit_eq]
    split
    · exact ⟨seen, rfl⟩
    · rw [undeclared?_eq_none_iff.2 required]
      dsimp only
      split
      · exact ⟨_, rfl⟩
      · obtain ⟨seen1, h1⟩ := visitProperties_ok
          (fun e he => ihProperties e he (by rw [isEmpty_property, hl])) (seen.mark s.number)
        have hitems := @isEmpty_element location "items" (by decide)
        have hadditional := @isEmpty_element location "additionalProperties" (by decide)
        obtain ⟨seen2, h2⟩ := visitElement_ok (fun t ht => ihItems t ht hitems) seen1
        obtain ⟨seen3, h3⟩ := visitElement_ok (fun t ht => ihAdditional t ht hadditional) seen2
        obtain ⟨seen4, h4⟩ := visitMembers_ok
          (fun t ht index => ihMembers t ht (isEmpty_member location index)) 0 seen3
        refine ⟨seen4, ?_⟩
        simp only [bind, Except.bind, h1, h2, h3, h4]

/-! ## Numbers -/

/-- The numbers of the nodes that are looked at are below a bound. -/
inductive Below (n : Nat) : Schema → Prop
  | intro {s : Schema} (number : ∀ m ∈ s.number, m < n) (properties : ∀ e ∈ s.properties, Below n e.2)
    (items : ∀ t ∈ s.items, Below n t) (additional : ∀ t ∈ s.additional, Below n t)
    (members : ∀ t ∈ s.members, Below n t) : Below n s

theorem Below.mono {m n : Nat} (h : Below m s) (hmn : m ≤ n) : Below n s := by
  induction h with
  | intro number _ _ _ _ ihProperties ihItems ihAdditional ihMembers =>
    exact .intro (fun k hk => Nat.lt_of_lt_of_le (number k hk) hmn) ihProperties ihItems ihAdditional ihMembers

/-- A visit has added numbers below a bound only. -/
def Adds (n : Nat) (seen seen' : Visited) : Prop := ∀ m ∈ seen', m ∈ seen ∨ m < n

theorem Adds.refl (n : Nat) (seen : Visited) : Adds n seen seen := fun _ h => Or.inl h

theorem Adds.trans {n : Nat} {seen1 seen2 seen3 : Visited} (h : Adds n seen1 seen2) (h' : Adds n seen2 seen3) :
    Adds n seen1 seen3 := fun m hm => (h' m hm).elim (h m) Or.inr

theorem Adds.lt {n : Nat} (h : Adds n seen seen') (hs : ∀ m ∈ seen, m < n) : ∀ m ∈ seen', m < n :=
  fun m hm => (h m hm).elim (hs m) id

theorem adds_mark {n : Nat} {number : Option Nat} (h : ∀ m ∈ number, m < n) : Adds n seen (seen.mark number) := by
  cases number with
  | none => exact Adds.refl n seen
  | some k =>
    intro m hm
    rcases List.mem_cons.1 hm with rfl | hm
    · exact Or.inr (h m rfl)
    · exact Or.inl hm

/-- Visiting the schema adds numbers below a bound only. -/
def AddsBelow (n : Nat) (t : Schema) : Prop :=
  ∀ {location seen seen'}, t.visit location seen = .ok seen' → Adds n seen seen'

theorem adds_visitProperties {n : Nat} : ∀ {properties : List (String × Schema)} {seen : Visited},
    (∀ e ∈ properties, AddsBelow n e.2) → visitProperties location seen properties = .ok seen' → Adds n seen seen'
  | [], _, _, h => by
    cases h
    exact Adds.refl n _
  | (name, t) :: rest, seen, hrest, h => by
    rw [visitProperties, except_bind_ok] at h
    obtain ⟨seen1, ht, h⟩ := h
    exact (hrest _ List.mem_cons_self ht).trans
      (adds_visitProperties (fun e he => hrest e (List.mem_cons_of_mem _ he)) h)

theorem adds_visitElement {n : Nat} {element : Option Schema} (he : ∀ t ∈ element, AddsBelow n t)
    (h : visitElement location seen element = .ok seen') : Adds n seen seen' := by
  cases element with
  | none =>
    cases h
    exact Adds.refl n _
  | some t => exact he t rfl h

theorem adds_visitMembers {n : Nat} : ∀ {members : List Schema} {index : Nat} {seen : Visited},
    (∀ t ∈ members, AddsBelow n t) → visitMembers location index seen members = .ok seen' → Adds n seen seen'
  | [], _, _, _, h => by
    cases h
    exact Adds.refl n _
  | t :: rest, index, seen, hrest, h => by
    rw [visitMembers, except_bind_ok] at h
    obtain ⟨seen1, ht, h⟩ := h
    exact (hrest _ List.mem_cons_self ht).trans
      (adds_visitMembers (fun e he => hrest e (List.mem_cons_of_mem _ he)) h)

/-- What a visit that finds no problem has looked at: the node itself, and its parts one after another. -/
theorem visit_ok (h : s.visit location seen = .ok seen') (hnew : seen.has s.number = false) :
    (∀ name ∈ s.required, name ∈ s.names) ∧
    (s.modelType.isSome = true ∧ location.isEmpty = false ∧ seen' = seen.mark s.number ∨
      ∃ seen1 seen2 seen3, visitProperties location (seen.mark s.number) s.properties = .ok seen1 ∧
        visitElement (Location.element location "items") seen1 s.items = .ok seen2 ∧
        visitElement (Location.element location "additionalProperties") seen2 s.additional = .ok seen3 ∧
        visitMembers location 0 seen3 s.members = .ok seen') := by
  rw [visit_eq, hnew] at h
  simp only [Bool.false_eq_true, ↓reduceIte] at h
  cases hu : undeclared? s.required s.names with
  | some name => simp [hu] at h
  | none =>
    simp only [hu] at h
    refine ⟨undeclared?_eq_none_iff.1 hu, ?_⟩
    split at h
    · rename_i hm
      simp only [Bool.and_eq_true, Bool.not_eq_true'] at hm
      exact Or.inl ⟨hm.1, hm.2, (Except.ok.inj h).symm⟩
    · simp only [except_bind_ok] at h
      obtain ⟨seen1, h1, seen2, h2, seen3, h3, h4⟩ := h
      exact Or.inr ⟨seen1, seen2, seen3, h1, h2, h3, h4⟩

/-- **A visit adds numbers of the tree only.** -/
theorem Below.adds {n : Nat} (hb : Below n s) : AddsBelow n s := by
  induction hb with
  | @intro s number _ _ _ _ ihProperties ihItems ihAdditional ihMembers =>
    intro location seen seen' h
    cases hnew : seen.has s.number with
    | true =>
      rw [visit_eq, hnew] at h
      cases h
      exact Adds.refl n _
    | false =>
      rcases (visit_ok h hnew).2 with ⟨-, -, rfl⟩ | ⟨seen1, seen2, seen3, h1, h2, h3, h4⟩
      · exact adds_mark number
      · exact (adds_mark number).trans ((adds_visitProperties ihProperties h1).trans
          ((adds_visitElement ihItems h2).trans
            ((adds_visitElement ihAdditional h3).trans (adds_visitMembers ihMembers h4))))

end Schema

end SchemaDocs
