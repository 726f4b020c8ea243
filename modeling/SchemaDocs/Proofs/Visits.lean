import SchemaDocs.Proofs.Soundness
import SchemaDocs.Proofs.Tracking

/-!
# What a visit finds

The check passes over a node whose number it has met. In a tree in which a number names one node only (`Numbered`) this
skips nothing: a node that is met again has been found sound, or it is still being looked at, and then it lies above the
present one, so it is a different node. So a visit that finds no problem finds a sound tree (`sound_of_visit`), and a
definition that has no problem has sound parts (`sound_of_problem?`).
-/

namespace SchemaDocs.Dump

open Schema (Sound Visited visitProperties visitElement visitMembers)

/-- The schema and the schemas below it that the check looks at are nodes in the register. -/
inductive Numbered (w : Register) : Schema → Prop
  | intro {s : Schema} (here : w.Has s) (parts : ∀ t ∈ s.checkedParts, Numbered w t) : Numbered w s

variable {v w : Register} {s : Schema} {location : String} {seen seen' seen'' : Visited} {bound : Nat}

theorem Numbered.grows (h : Numbered v s) (hw : v.Grows w) : Numbered w s := by
  induction h with
  | intro here _ ih => exact .intro (here.grows hw) ih

/-- Every node that has been met has been found sound, or it is not smaller than `bound`. -/
def Settled (w : Register) (bound : Nat) (seen : Visited) : Prop :=
  ∀ n ∈ seen, ∀ t, w.node n = some t → Sound false t ∨ bound ≤ sizeOf t

/-- The nodes that have been met since have been found sound. -/
def Finds (w : Register) (seen seen' : Visited) : Prop :=
  ∀ n ∈ seen', n ∈ seen ∨ ∀ t, w.node n = some t → Sound false t

theorem Finds.refl (w : Register) (seen : Visited) : Finds w seen seen := fun _ h => Or.inl h

theorem Finds.trans (h : Finds w seen seen') (h' : Finds w seen' seen'') : Finds w seen seen'' :=
  fun n hn => (h' n hn).elim (h n) Or.inr

theorem Settled.finds (h : Settled w bound seen) (hf : Finds w seen seen') : Settled w bound seen' :=
  fun n hn t ht => (hf n hn).elim (fun hm => h n hm t ht) fun hm => Or.inl (hm t ht)

/-- Whoever visits the schema among settled nodes and finds no problem has found it sound. -/
def FindsSound (w : Register) (bound : Nat) (t : Schema) : Prop :=
  ∀ {location seen seen'}, Settled w bound seen → t.visit location seen = .ok seen' → Sound false t ∧ Finds w seen seen'

/-! ## The parts of a node -/

theorem finds_properties : ∀ {properties : List (String × Schema)} {seen : Visited},
    (∀ e ∈ properties, FindsSound w bound e.2) → Settled w bound seen →
      visitProperties location seen properties = .ok seen' →
        (∀ e ∈ properties, Sound false e.2) ∧ Finds w seen seen'
  | [], _, _, _, hv => by
    cases hv
    exact ⟨by simp, .refl w _⟩
  | (name, t) :: rest, seen, h, hs, hv => by
    rw [visitProperties, except_bind_ok] at hv
    obtain ⟨seen1, h1, hv⟩ := hv
    obtain ⟨hsound, hf⟩ := h _ List.mem_cons_self hs h1
    obtain ⟨hrest, hf'⟩ := finds_properties (fun e he => h e (List.mem_cons_of_mem _ he)) (hs.finds hf) hv
    exact ⟨List.forall_mem_cons.2 ⟨hsound, hrest⟩, hf.trans hf'⟩

theorem finds_element {element : Option Schema} (h : ∀ t ∈ element, FindsSound w bound t) (hs : Settled w bound seen)
    (hv : visitElement location seen element = .ok seen') : (∀ t ∈ element, Sound false t) ∧ Finds w seen seen' := by
  cases element with
  | none =>
    cases hv
    exact ⟨by simp, .refl w seen⟩
  | some t =>
    obtain ⟨hsound, hf⟩ := h t rfl hs hv
    exact ⟨fun u hu => Option.some_inj.1 hu ▸ hsound, hf⟩

theorem finds_members : ∀ {members : List Schema} {index : Nat} {seen : Visited},
    (∀ t ∈ members, FindsSound w bound t) → Settled w bound seen →
      visitMembers location index seen members = .ok seen' → (∀ t ∈ members, Sound false t) ∧ Finds w seen seen'
  | [], _, _, _, _, hv => by
    cases hv
    exact ⟨by simp, .refl w _⟩
  | t :: rest, index, seen, h, hs, hv => by
    rw [visitMembers, except_bind_ok] at hv
    obtain ⟨seen1, h1, hv⟩ := hv
    obtain ⟨hsound, hf⟩ := h _ List.mem_cons_self hs h1
    obtain ⟨hrest, hf'⟩ := finds_members (fun e he => h e (List.mem_cons_of_mem _ he)) (hs.finds hf) hv
    exact ⟨List.forall_mem_cons.2 ⟨hsound, hrest⟩, hf.trans hf'⟩

/-- The parts of a node are visited one after another. -/
theorem finds_parts (h : ∀ t ∈ s.checkedParts, FindsSound w bound t) (hs : Settled w bound seen)
    (hv : ∃ seen1 seen2 seen3, visitProperties location seen s.properties = .ok seen1 ∧
      visitElement (Location.element location "items") seen1 s.items = .ok seen2 ∧
      visitElement (Location.element location "additionalProperties") seen2 s.additional = .ok seen3 ∧
      visitMembers location 0 seen3 s.members = .ok seen') :
    (∀ t ∈ s.checkedParts, Sound false t) ∧ Finds w seen seen' := by
  rw [Schema.forall_checkedParts] at h ⊢
  obtain ⟨hproperties, hitems, hadditional, hmembers⟩ := h
  obtain ⟨seen1, seen2, seen3, h1, h2, h3, h4⟩ := hv
  obtain ⟨hs1, hf1⟩ := finds_properties hproperties hs h1
  have hs := hs.finds hf1
  obtain ⟨hs2, hf2⟩ := finds_element hitems hs h2
  have hs := hs.finds hf2
  obtain ⟨hs3, hf3⟩ := finds_element hadditional hs h3
  obtain ⟨hs4, hf4⟩ := finds_members hmembers (hs.finds hf3) h4
  exact ⟨⟨hs1, hs2, hs3, hs4⟩, hf1.trans (hf2.trans (hf3.trans hf4))⟩

/-! ## Nodes -/

/-- A node that is being looked at is not smaller than itself, so its parts are settled by what settles it. -/
theorem Settled.mark (h : Settled w bound seen) (hb : sizeOf s ≤ bound) (hs : w.Has s) :
    Settled w (sizeOf s) (seen.mark s.number) := by
  obtain ⟨n, hn, hnode⟩ := hs
  rw [hn]
  intro m hm t ht
  rcases List.mem_cons.1 hm with rfl | hm
  · rw [hnode, Option.some_inj] at ht
    exact Or.inr (ht ▸ Nat.le_refl _)
  · exact (h m hm t ht).imp id (Nat.le_trans hb)

theorem finds_mark (hs : w.Has s) (hsound : Sound false s) : Finds w seen (seen.mark s.number) := by
  obtain ⟨n, hn, hnode⟩ := hs
  rw [hn]
  intro m hm
  rcases List.mem_cons.1 hm with rfl | hm
  · exact Or.inr fun t ht => Option.some_inj.1 (hnode.symm.trans ht) ▸ hsound
  · exact Or.inl hm

/-- **A visit that finds no problem has found the tree sound**, if every number names one node. -/
theorem sound_of_visit (h : Numbered w s) : ∀ {bound : Nat}, sizeOf s < bound → FindsSound w bound s := by
  induction h with
  | @intro s here _ ih =>
    intro bound hb location seen seen' hs hv
    obtain ⟨n, hn, hnode⟩ := here
    by_cases hmet : n ∈ seen
    · -- the node has been met: it cannot lie above itself, so it has been found sound
      rw [Schema.visit_eq, hn, if_pos (by simpa [Visited.has] using hmet)] at hv
      cases hv
      refine ⟨(hs n hmet s hnode).resolve_right (by omega), .refl w seen⟩
    · have hnew : seen.has s.number = false := by simpa [hn, Visited.has] using hmet
      have hhas : w.Has s := ⟨n, hn, hnode⟩
      obtain ⟨hrequired, ⟨hmodel, -, rfl⟩ | hparts⟩ := Schema.visit_ok hv hnew
      · have hsound : Sound false s := .reference hrequired hmodel
        exact ⟨hsound, finds_mark hhas hsound⟩
      · obtain ⟨hall, hf⟩ := finds_parts
          (fun t ht => ih t ht (Schema.sizeOf_lt_of_mem_parts (List.mem_append_left _ ht)))
          (hs.mark (Nat.le_of_lt hb) hhas) hparts
        obtain ⟨hproperties, hitems, hadditional, hmembers⟩ := Schema.forall_checkedParts.1 hall
        have hsound : Sound false s := .node hrequired hproperties hitems hadditional hmembers
        exact ⟨hsound, (finds_mark hhas hsound).trans hf⟩

/-- **The check of a definition goes through all its parts.** -/
theorem sound_of_problem? (h : Numbered w s) (hp : s.problem? = none) :
    (∀ name ∈ s.required, name ∈ s.names) ∧ ∀ t ∈ s.checkedParts, Sound false t := by
  obtain ⟨seen', hv⟩ := Schema.problem?_eq_none.1 hp
  have hnew : Visited.has [] s.number = false := by cases s.number <;> simp [Visited.has]
  obtain ⟨hrequired, ⟨-, hl, -⟩ | hparts⟩ := Schema.visit_ok hv hnew
  · simp at hl
  · cases h with
    | intro here parts =>
      have hs : Settled w (sizeOf s) [] := fun n hn => by simp at hn
      refine ⟨hrequired, (finds_parts (fun t ht => ?_) (hs.mark (Nat.le_refl _) here) hparts).1⟩
      exact sound_of_visit (parts t ht) (Schema.sizeOf_lt_of_mem_parts (List.mem_append_left _ ht))

end SchemaDocs.Dump
