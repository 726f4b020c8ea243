import SchemaDocs.Dump.Package
import SchemaDocs.Proofs.Outcomes
import SchemaDocs.Proofs.Table

/-!
# Rules of reading

How a reading ends, from a given state: with a result and a new state, or with an error. The rules take a reading
apart step by step, so that what a reader ends with follows from what its parts end with. What a node states without
its parts needs no state: its model type, if it has one, has a name (`named_of_modelTypeField`).
-/

namespace SchemaDocs.Dump

/-- The names of the definitions. -/
def keysOf (raw : List (Value × Value)) : List String := raw.map fun e => e.1.plain

theorem mem_keysOf {raw : List (Value × Value)} {key : String} {value : Value} (h : (.str key, value) ∈ raw) :
    key ∈ keysOf raw := List.mem_map_of_mem (f := fun e => e.1.plain) h

/-! ## How a reading ends -/

/-- From the state `p` the reading yields a result and a state, or it fails. -/
def Ends {α : Type} (x : Reading α) (p : Progress) (yields : α → Progress → Prop) (fails : Prop) : Prop :=
  match x p with
  | .ok (a, p') => yields a p'
  | .error _ => fails

namespace Ends

variable {α β : Type} {x : Reading α} {p p' : Progress} {Q : α → Progress → Prop} {R : β → Progress → Prop} {F : Prop}

theorem of_ok (h : Ends x p Q F) {a : α} (hx : x p = .ok (a, p')) : Q a p' := by
  rwa [Ends, hx] at h

theorem mono {Q' : α → Progress → Prop} {F' : Prop} (h : Ends x p Q F) (hq : ∀ a p', Q a p' → Q' a p') (hf : F → F') :
    Ends x p Q' F' := by
  unfold Ends at *
  cases hx : x p with
  | error e =>
    rw [hx] at h
    exact hf h
  | ok r =>
    rw [hx] at h
    exact hq _ _ h

theorem any (x : Reading α) (p : Progress) : Ends x p (fun _ _ => True) True := by
  unfold Ends
  cases x p <;> trivial

theorem bind {f : α → Reading β} (hx : Ends x p Q F) (hf : ∀ a p', Q a p' → Ends (f a) p' R F) :
    Ends (x >>= f) p R F := by
  unfold Ends at *
  simp only [Bind.bind, StateT.bind, Except.bind]
  cases h : x p with
  | error e =>
    rw [h] at hx
    exact hx
  | ok r =>
    rw [h] at hx
    exact hf _ _ hx

theorem pure {a : α} (h : Q a p) : Ends (Pure.pure a) p Q F := h

theorem throw {e : Error} (h : F) : Ends (throw e) p Q F := h

theorem map {f : α → β} (h : Ends x p (fun a p' => R (f a) p') F) : Ends (f <$> x) p R F :=
  bind h fun _ _ hr => pure hr

/-- A step that needs no state yields its result, or it fails. -/
theorem lift {y : Except Error α} (hq : ∀ a, y = .ok a → Q a p) (hf : ∀ e, y = .error e → F) :
    Ends (liftM y) p Q F := by
  cases y with
  | error e => exact hf e rfl
  | ok a => exact hq a rfl

theorem enter {Q : Unit → Progress → Prop} {key : String} {s : Schema}
    (h : Q () { p with table := Assoc.put key s p.table }) : Ends (enter key s) p Q F := h

theorem bind_newNumber {f : Nat → Reading β} (h : Ends (f p.count) { p with count := p.count + 1 } R F) :
    Ends (Dump.newNumber >>= f) p R F := h

theorem bind_enter {f : Unit → Reading β} {key : String} {s : Schema}
    (h : Ends (f ()) { p with table := Assoc.put key s p.table } R F) : Ends (Dump.enter key s >>= f) p R F := h

/-- What is known of a definition decides how the reading goes on. -/
theorem bind_known? {f : Option Schema → Reading β} {key : String}
    (hsome : ∀ s, Assoc.get? key p.table = some s → Ends (f (some s)) p R F)
    (hnone : Assoc.get? key p.table = none → Ends (f none) p R F) : Ends (known? key >>= f) p R F := by
  show Ends (f (Assoc.get? key p.table)) p R F
  cases h : Assoc.get? key p.table with
  | none => exact hnone h
  | some s => exact hsome s h

end Ends

/-! ## Names of model types -/

def Named (s : Schema) : Prop := ∀ m, s.modelType = some m → m.name ≠ ""

theorem readModelType_name {location : String} {value : Value} {m : ModelType}
    (h : readModelType location value = .ok m) : m.name ≠ "" := by
  unfold readModelType at h
  split at h
  · simp only [bind, Except.bind] at h
    split at h
    · rename_i name _
      by_cases hn : name.isEmpty = true
      · simp [hn] at h
      · have hname : name ≠ "" := by simpa [String.isEmpty_iff] using hn
        simp only [hn] at h
        repeat' split at h
        all_goals cases h
        all_goals exact hname
    · simp at h
  · simp at h

theorem readHead_ok {location : String} {values : List (Value × Value)} {s : Schema}
    (h : readHead location values = .ok s) : modelTypeField location values = .ok s.modelType := by
  unfold readHead at h
  simp only [bind, Except.bind, pure, Except.pure] at h
  repeat' split at h
  all_goals cases h
  assumption

theorem readHead_eq {location : String} {values : List (Value × Value)} {head : Schema}
    (h : readHead location values = .ok head) :
    ∃ type description readOnly default modelType, head = {
      type := type
      description := description
      readOnly := readOnly
      default := default
      modelType := modelType } := by
  simp only [readHead, except_bind_ok] at h
  obtain ⟨modelType, -, type, -, description, -, ⟨⟩⟩ := h
  exact ⟨_, _, _, _, _, rfl⟩

theorem isSome_of_modelTypeField {location : String} {fields : List (Value × Value)} {m : Option ModelType}
    (h : modelTypeField location fields = .ok m) : m.isSome = (Value.lookup "x-kcl-type" fields).isSome := by
  unfold modelTypeField at h
  split at h
  · rename_i hl
    rw [hl, ← Except.ok.inj h]
    rfl
  · rename_i hl
    obtain ⟨m, -, rfl⟩ := except_map_ok.1 h
    rw [hl]
    rfl

/-- A model type that has been read has a name. -/
theorem named_of_modelTypeField {location : String} {values : List (Value × Value)} {s : Schema}
    (h : modelTypeField location values = .ok s.modelType) : Named s := by
  intro m hm
  rw [hm, modelTypeField] at h
  split at h
  · simp at h
  · obtain ⟨m', hread, hm'⟩ := except_map_ok.1 h
    cases hm'
    exact readModelType_name hread

end SchemaDocs.Dump
