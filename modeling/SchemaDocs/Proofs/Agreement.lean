import SchemaDocs.Proofs.Describe
import SchemaDocs.Proofs.Outline

/-!
# Agreement of schemas with their descriptions

A node that is read gets numbers as it goes, and what it takes over from definitions depends on how far these have been
read. It agrees with its description all the same (`Agrees`): both tell the same, and the check of the one decides
whether the other is sound. For the check it matters that the numbers below a node are new when the node is read, and
that its parts are visited in the order in which they were read. A node agrees when its parts do (`PartsAgree.agrees`).
-/

namespace SchemaDocs.Dump

open Schema (Sound Visited Covers map_eq_of_toList visitProperties visitElement visitMembers)

/-! ## Chains of numbers -/

/-- The elements of two lists are related one by one, each pair in a stretch of numbers that begins where the stretch of
the pair before it ends. -/
inductive Chain {α β : Type} (R : Nat → α → β → Nat → Prop) : Nat → List α → List β → Nat → Prop
  | nil {n : Nat} : Chain R n [] [] n
  | cons {k m n : Nat} {a : α} {b : β} {as : List α} {bs : List β} (head : R k a b m) (tail : Chain R m as bs n) :
    Chain R k (a :: as) (b :: bs) n

namespace Chain

variable {α β γ : Type} {R : Nat → α → β → Nat → Prop} {k n : Nat} {as : List α} {bs : List β}

theorem le (h : Chain R k as bs n) (hR : ∀ {k a b n}, R k a b n → k ≤ n) : k ≤ n := by
  induction h with
  | nil => exact Nat.le_refl _
  | cons head _ ih => exact Nat.le_trans (hR head) ih

theorem mem (h : Chain R k as bs n) (hR : ∀ {k a b n}, R k a b n → k ≤ n) {a : α} (ha : a ∈ as) :
    ∃ b ∈ bs, ∃ k' n', n' ≤ n ∧ R k' a b n' := by
  induction h with
  | nil => simp at ha
  | cons head tail ih =>
    rcases List.mem_cons.1 ha with rfl | ha
    · exact ⟨_, List.mem_cons_self, _, _, tail.le hR, head⟩
    · obtain ⟨b, hb, hrest⟩ := ih ha
      exact ⟨b, List.mem_cons_of_mem _ hb, hrest⟩

theorem map_eq (h : Chain R k as bs n) {f : α → γ} {g : β → γ} (hfg : ∀ {k a b n}, R k a b n → f a = g b) :
    as.map f = bs.map g := by
  induction h with
  | nil => rfl
  | cons head _ ih => rw [List.map_cons, List.map_cons, hfg head, ih]

/-- A part that may be missing is a chain of at most one pair. -/
theorem option {a : Option α} {b : Option β} (h : Chain R k a.toList b.toList n) :
    a = none ∧ b = none ∧ k = n ∨ ∃ x y, a = some x ∧ b = some y ∧ R k x y n := by
  cases a with
  | none =>
    cases b with
    | none =>
      cases h
      exact Or.inl ⟨rfl, rfl, rfl⟩
    | some y => nomatch h
  | some x =>
    cases b with
    | none => nomatch h
    | some y =>
      obtain _ | ⟨head, tail⟩ := h
      cases tail
      exact Or.inr ⟨x, y, rfl, rfl, head⟩

end Chain

/-! ## Agreement -/

/-- The schema `s` was read with the numbers from `k` up to `n`, and it agrees with its description `o`. -/
structure Agrees (raw : List (Value × Value)) (k : Nat) (s o : Schema) (n : Nat) : Prop where
  le : k ≤ n
  below : s.Below n
  /-- Both tell the same. -/
  told : Typed raw → s.told = o.told
  /-- When the description is sound, nothing can be wrong with the schema in a good dump. -/
  sound : AllGood raw → ∀ top, Sound top o → Sound top s
  /-- When the check finds no problem, the description is sound. -/
  checked : ∀ {location : String} {seen seen' : Visited}, (∀ m ∈ seen, m < k) → s.visit location seen = .ok seen' →
    Sound location.isEmpty o

def AgreesAt (raw : List (Value × Value)) (k : Nat) (e f : String × Schema) (n : Nat) : Prop :=
  e.1 = f.1 ∧ Agrees raw k e.2 f.2 n

variable {raw : List (Value × Value)} {k n : Nat} {s o : Schema} {location : String} {seen seen' : Visited}

theorem AgreesAt.le {e f : String × Schema} (h : AgreesAt raw k e f n) : k ≤ n := h.2.le

/-! ## The check of the parts -/

theorem checked_properties {as bs : List (String × Schema)} (h : Chain (AgreesAt raw) k as bs n) :
    ∀ {seen : Visited}, (∀ m ∈ seen, m < k) → visitProperties location seen as = .ok seen' →
      (∀ e ∈ bs, Sound (location.isEmpty && e.1.isEmpty) e.2) ∧ ∀ m ∈ seen', m < n := by
  induction h with
  | nil =>
    intro seen hs hv
    cases hv
    exact ⟨by simp, hs⟩
  | @cons k m n e f as bs head tail ih =>
    intro seen hs hv
    obtain ⟨hname, hagrees⟩ := head
    rw [visitProperties, except_bind_ok] at hv
    obtain ⟨seen1, h1, h2⟩ := hv
    have hlt := (hagrees.below.adds h1).lt fun m hm => Nat.lt_of_lt_of_le (hs m hm) hagrees.le
    obtain ⟨hrest, hn⟩ := ih hlt h2
    refine ⟨fun f' hf => ?_, hn⟩
    rcases List.mem_cons.1 hf with rfl | hf
    · have hsound := hagrees.checked hs h1
      rwa [Schema.isEmpty_property, hname] at hsound
    · exact hrest f' hf

theorem checked_element {a b : Option Schema} (h : Chain (Agrees raw) k a.toList b.toList n)
    (hl : location.isEmpty = false) (hs : ∀ m ∈ seen, m < k) (hv : visitElement location seen a = .ok seen') :
    (∀ t ∈ b, Sound false t) ∧ ∀ m ∈ seen', m < n := by
  rcases h.option with ⟨rfl, rfl, rfl⟩ | ⟨s, o, rfl, rfl, hagrees⟩
  · cases hv
    exact ⟨by simp, hs⟩
  · rw [visitElement] at hv
    refine ⟨fun t ht => ?_, (hagrees.below.adds hv).lt fun m hm => Nat.lt_of_lt_of_le (hs m hm) hagrees.le⟩
    cases ht
    have hsound := hagrees.checked hs hv
    rwa [hl] at hsound

theorem checked_members {as bs : List Schema} (h : Chain (Agrees raw) k as bs n) : ∀ {index : Nat} {seen : Visited},
    (∀ m ∈ seen, m < k) → visitMembers location index seen as = .ok seen' → ∀ t ∈ bs, Sound false t := by
  induction h with
  | nil => simp
  | @cons k m n s o as bs head tail ih =>
    intro index seen hs hv
    rw [visitMembers, except_bind_ok] at hv
    obtain ⟨seen1, h1, h2⟩ := hv
    have hlt := (head.below.adds h1).lt fun m hm => Nat.lt_of_lt_of_le (hs m hm) head.le
    have hrest := ih hlt h2
    intro t ht
    rcases List.mem_cons.1 ht with rfl | ht
    · have hsound := head.checked hs h1
      rwa [Schema.isEmpty_member] at hsound
    · exact hrest t ht

/-! ## Nodes -/

/-- The parts of a node agree with those of its description one after another, with numbers after that of the node. -/
structure PartsAgree (raw : List (Value × Value)) (k : Nat) (s o : Schema) (listed : List (String × Schema))
    (n1 n2 n3 n4 n : Nat) : Prop where
  number : s.number = some k
  facts : s.toFacts = o.toFacts
  sorted : o.properties = Assoc.sortByName (·.1) listed
  properties : Chain (AgreesAt raw) (k + 1) s.properties listed n1
  items : Chain (Agrees raw) n1 s.items.toList o.items.toList n2
  additional : Chain (Agrees raw) n2 s.additional.toList o.additional.toList n3
  keyType : Chain (Agrees raw) n3 s.keyType.toList o.keyType.toList n4
  members : Chain (Agrees raw) n4 s.members o.members n

namespace PartsAgree

variable {listed : List (String × Schema)} {n1 n2 n3 n4 : Nat} (h : PartsAgree raw k s o listed n1 n2 n3 n4 n)
include h

theorem bounds : k + 1 ≤ n1 ∧ n1 ≤ n2 ∧ n2 ≤ n3 ∧ n3 ≤ n4 ∧ n4 ≤ n :=
  ⟨h.properties.le AgreesAt.le, h.items.le Agrees.le, h.additional.le Agrees.le, h.keyType.le Agrees.le,
    h.members.le Agrees.le⟩

/-- The node and its description have one outline: in the description the attributes are only put in order. -/
theorem outline_eq (hraw : Typed raw) : s.outline = o.outline := by
  have hproperties : (s.properties.map fun e => (e.1, e.2.told)) = listed.map fun e => (e.1, e.2.told) :=
    h.properties.map_eq fun hr => by rw [hr.1, hr.2.told hraw]
  have hsort : Assoc.sortByName (·.1) (o.properties.map fun e => (e.1, e.2.told)) =
      Assoc.sortByName (·.1) (listed.map fun e => (e.1, e.2.told)) := by
    rw [h.sorted, Assoc.sortByName_map, Assoc.sortByName_map]
    exact congrArg _ (Assoc.sortByName_of_sorted _ (Assoc.sortByName_sorted _ listed))
  have hitems := map_eq_of_toList (h.items.map_eq fun hr => hr.told hraw)
  have hadditional := map_eq_of_toList (h.additional.map_eq fun hr => hr.told hraw)
  have hkeyType := map_eq_of_toList (h.keyType.map_eq fun hr => hr.told hraw)
  have hmembers := h.members.map_eq fun hr => hr.told hraw
  rw [Schema.outline_eq, Schema.outline_eq, hsort, hproperties, hitems, hadditional, hkeyType, hmembers, h.facts]

theorem mem_names (name : String) : name ∈ s.names ↔ name ∈ o.names := by
  have hnames : s.names = listed.map (·.1) := h.properties.map_eq fun hr => hr.1
  rw [hnames, Schema.names, h.sorted]
  exact (((Assoc.sortByName_perm _ listed).map (·.1)).mem_iff).symm

/-- The number of the node is new, so the visit goes through all its parts, one after another. -/
theorem checked (hs : ∀ m ∈ seen, m < k) (hv : s.visit location seen = .ok seen') : Sound location.isEmpty o := by
  obtain ⟨h1, h2, h3, h4, h5⟩ := h.bounds
  have hnew : seen.has s.number = false := by
    rw [h.number, Visited.has, Bool.eq_false_iff, Ne, List.contains_iff_mem]
    exact fun hm => Nat.lt_irrefl _ (hs k hm)
  obtain ⟨hrequired, hparts⟩ := Schema.visit_ok hv hnew
  have hnames : ∀ name ∈ o.required, name ∈ o.names := fun name hname =>
    (h.mem_names name).1 (hrequired name (h.facts ▸ hname))
  rcases hparts with ⟨hm, hl, -⟩ | ⟨seen1, seen2, seen3, hp, hi, ha, hmem⟩
  · rw [hl]
    exact .reference hnames (h.facts ▸ hm)
  · have hmark : ∀ m ∈ seen.mark s.number, m < k + 1 := by
      rw [h.number]
      intro m hm
      rcases List.mem_cons.1 hm with rfl | hm
      · exact Nat.lt_succ_self _
      · exact Nat.lt_succ_of_lt (hs m hm)
    obtain ⟨hproperties, hlt1⟩ := checked_properties h.properties hmark hp
    obtain ⟨hitems, hlt2⟩ := checked_element h.items (Schema.isEmpty_element _ (by decide)) hlt1 hi
    obtain ⟨hadditional, hlt3⟩ := checked_element h.additional (Schema.isEmpty_element _ (by decide)) hlt2 ha
    have hmembers := checked_members h.members (fun m hm => Nat.lt_of_lt_of_le (hlt3 m hm) h4) hmem
    refine .node hnames (fun e he => ?_) hitems hadditional hmembers
    rw [h.sorted, Assoc.mem_sortByName] at he
    exact hproperties e he

/-- **A node agrees with its description when its parts do**, if its numbers are bounded and it covers no more than the
description. -/
theorem agrees (hbelow : s.Below n) (hcovers : AllGood raw → Covers s o) : Agrees raw k s o n where
  le := by
    have := h.bounds
    omega
  below := hbelow
  told hraw := by rw [Schema.told, Schema.told, h.outline_eq hraw]
  sound hraw _ ho := (hcovers hraw).sound ho
  checked hs hv := h.checked hs hv

end PartsAgree

/-! ## References -/

/-- What holds of a schema that is known of a definition, however far the definition has been read. -/
structure Known (raw : List (Value × Value)) (n : Nat) (key : String) (s : Schema) : Prop where
  modelType : s.modelType = modelTypeOf? raw key
  below : s.Below n
  sound : AllGood raw → Sound true s

theorem Known.mono {key : String} {m : Nat} (h : Known raw n key s) (hnm : n ≤ m) : Known raw m key s :=
  ⟨h.modelType, h.below.mono hnm, h.sound⟩

/-- **A reference agrees with the leaf that it describes**, however far the definition has been read. -/
theorem Known.agrees {key : String} (h : Known raw n key s) (hkey : isDefined raw key = true) (hk : k ≤ n)
    (description : String) (default : Option Value) (readOnly : Bool) (decorators : List Decorator) :
    Agrees raw k
      { s with
        number := some n
        description := description
        default := default
        readOnly := readOnly
        decorators := decorators
        examples := [] }
      { modelType := modelTypeOf? raw key
        description := description
        default := default
        readOnly := readOnly
        decorators := decorators } (n + 1) where
  le := Nat.le_succ_of_le hk
  below := by
    obtain ⟨-, hproperties, hitems, hadditional, hmembers⟩ := h.below.mono (Nat.le_succ n)
    refine .intro (fun m hm => ?_) hproperties hitems hadditional hmembers
    cases hm
    exact Nat.lt_succ_self n
  told hraw := by
    obtain ⟨m, hm⟩ := Option.isSome_iff_exists.1 (hraw key hkey)
    exact Schema.told_congr (h.modelType.trans hm) hm rfl rfl rfl rfl
  sound hraw top _ := by
    have hsound : Sound true s := h.sound hraw
    cases hsound with
    | node required properties items additional members =>
      refine Sound.of_true ?_ top
      exact .node required properties items additional members
  checked _ _ := .node (by simp) (by simp) (by simp) (by simp) (by simp)

/-- The schema is what a definition says in full: it has the outline of the description, and its check decides whether
that is sound. -/
def Complete (raw : List (Value × Value)) (key : String) (s : Schema) : Prop :=
  ∃ fields o, Value.lookup key raw = some (.map fields) ∧ describeDefinition raw key fields = .ok o ∧
    (Typed raw → s.outline = o.outline) ∧ (s.problem? = none → Sound true o)

end SchemaDocs.Dump
