import Mathlib.Data.List.Sort
import SchemaDocs.Assoc

/-!
# Ordered tables and listings by name

What the operations on a table do to the value under each key and to its list of keys, and what sorting by
name guarantees: the listing is an insertion sort (`sortByName_eq`), it is strictly increasing when the names are
distinct, and then it does not depend on the order of the input (`sortByName_eq_of_perm`).
-/

namespace SchemaDocs.Assoc

variable {κ α β : Type}

/-! ## Tables -/

section Table

variable [DecidableEq κ]

theorem mem_of_get? {key : κ} {a : α} : ∀ {table : List (κ × α)}, get? key table = some a → (key, a) ∈ table
  | [], h => by simp [get?] at h
  | (k, b) :: rest, h => by
    simp only [get?] at h
    split at h
    · rename_i hk
      subst hk
      cases h
      exact List.mem_cons_self
    · exact List.mem_cons_of_mem _ (mem_of_get? h)

theorem get?_of_mem {key : κ} {a : α} : ∀ {table : List (κ × α)}, (table.map (·.1)).Nodup →
    (key, a) ∈ table → get? key table = some a
  | (k, b) :: rest, hd, h => by
    rw [List.map_cons, List.nodup_cons] at hd
    simp only [get?]
    rcases List.mem_cons.1 h with h | h
    · cases h
      simp
    · have hne : k ≠ key := fun e => hd.1 (e ▸ List.mem_map_of_mem (f := (·.1)) h)
      rw [if_neg hne]
      exact get?_of_mem hd.2 h

theorem get?_eq_some_iff {table : List (κ × α)} (hd : (table.map (·.1)).Nodup) {key : κ} {a : α} :
    get? key table = some a ↔ (key, a) ∈ table :=
  ⟨mem_of_get?, get?_of_mem hd⟩

theorem get?_eq_none_iff {key : κ} : ∀ {table : List (κ × α)}, get? key table = none ↔ key ∉ table.map (·.1)
  | [] => by simp [get?]
  | (k, b) :: rest => by
    simp only [get?, List.map_cons, List.mem_cons, not_or]
    split
    · rename_i h
      simp [h]
    · rename_i h
      rw [get?_eq_none_iff]
      exact ⟨fun hr => ⟨fun e => h e.symm, hr⟩, fun hr => hr.2⟩

theorem get?_isSome_iff {key : κ} {table : List (κ × α)} :
    (get? key table).isSome ↔ key ∈ table.map (·.1) := by
  rw [Option.isSome_iff_ne_none, Ne, get?_eq_none_iff, Decidable.not_not]

/-- A key that is there keeps its place, a new one comes last. -/
theorem map_fst_alter (key : κ) (f : Option α → α) (table : List (κ × α)) :
    (alter key f table).map (·.1) =
      if key ∈ table.map (·.1) then table.map (·.1) else table.map (·.1) ++ [key] := by
  induction table with
  | nil => simp [alter]
  | cons e rest ih =>
    obtain ⟨k, a⟩ := e
    simp only [alter]
    split
    · rename_i h
      simp [h]
    · rename_i h
      have hk : key ≠ k := fun e => h e.symm
      simp only [List.map_cons, List.mem_cons, hk, false_or, ih]
      split <;> rfl

theorem get?_alter_self (key : κ) (f : Option α → α) (table : List (κ × α)) :
    get? key (alter key f table) = some (f (get? key table)) := by
  induction table with
  | nil => simp [alter, get?]
  | cons e rest ih =>
    obtain ⟨k, a⟩ := e
    by_cases h : k = key
    · simp [alter, get?, h]
    · simp [alter, get?, h, ih]

theorem get?_alter_of_ne {k key : κ} (h : k ≠ key) (f : Option α → α) (table : List (κ × α)) :
    get? k (alter key f table) = get? k table := by
  induction table with
  | nil => simp [alter, get?, h.symm]
  | cons e rest ih =>
    obtain ⟨k', a⟩ := e
    by_cases hk : k' = key
    · simp [alter, get?, hk, h.symm]
    · simp only [alter, hk, if_false, get?, ih]

theorem nodup_alter {table : List (κ × α)} (hd : (table.map (·.1)).Nodup) (key : κ) (f : Option α → α) :
    ((alter key f table).map (·.1)).Nodup := by
  rw [map_fst_alter]
  split
  · exact hd
  · rename_i h
    exact List.nodup_append.2 ⟨hd, by simp, fun a ha b hb => by
      rw [List.mem_singleton] at hb
      exact fun e => h (hb ▸ e ▸ ha)⟩

theorem mem_keys_alter {table : List (κ × α)} {k key : κ} {f : Option α → α} :
    k ∈ (alter key f table).map (·.1) ↔ k = key ∨ k ∈ table.map (·.1) := by
  rw [map_fst_alter]
  split
  · rename_i h
    exact ⟨Or.inr, fun hk => hk.elim (fun e => e ▸ h) id⟩
  · simp [or_comm]

/-- Putting a new key in adds its entry at the end. -/
theorem put_of_not_mem {key : κ} {a : α} {table : List (κ × α)} (h : key ∉ table.map (·.1)) :
    put key a table = table ++ [(key, a)] := by
  induction table with
  | nil => rfl
  | cons e rest ih =>
    obtain ⟨k, b⟩ := e
    rw [List.map_cons, List.mem_cons, not_or] at h
    have hk : k ≠ key := fun e => h.1 e.symm
    simp only [put, alter, hk, if_false, List.cons_append] at ih ⊢
    rw [ih h.2]

theorem get?_put_self (key : κ) (a : α) (table : List (κ × α)) : get? key (put key a table) = some a :=
  get?_alter_self key _ table

theorem get?_put_of_ne {k key : κ} (h : k ≠ key) (a : α) (table : List (κ × α)) :
    get? k (put key a table) = get? k table :=
  get?_alter_of_ne h _ table

/-- To put in what is there already changes nothing. -/
theorem put_of_get? {key : κ} {a : α} : ∀ {table : List (κ × α)}, get? key table = some a → put key a table = table
  | (k, b) :: rest, h => by
    rw [get?] at h
    by_cases hk : k = key
    · rw [if_pos hk, Option.some_inj] at h
      simp [put, alter, hk, h]
    · rw [if_neg hk] at h
      have := put_of_get? h
      simp only [put] at this
      simp [put, alter, hk, this]

/-- Of two values put under one key the later one stays. -/
theorem put_put (key : κ) (a b : α) (table : List (κ × α)) : put key b (put key a table) = put key b table := by
  induction table with
  | nil => simp [put, alter]
  | cons e rest ih =>
    by_cases h : e.1 = key
    · simp [put, alter, h]
    · simpa [put, alter, h] using ih

theorem length_le_put (key : κ) (a : α) (table : List (κ × α)) : table.length ≤ (put key a table).length := by
  induction table with
  | nil => exact Nat.zero_le _
  | cons e rest ih =>
    by_cases h : e.1 = key
    · simp [put, alter, h]
    · simpa [put, alter, h] using ih

/-- Entries with distinct keys are a table as they stand. -/
theorem ofList_of_nodup {entries : List (κ × α)} (hd : (entries.map (·.1)).Nodup) :
    ofList entries = entries := by
  have key : ∀ (rest table : List (κ × α)), ((table ++ rest).map (·.1)).Nodup →
      rest.foldl (fun table entry => put entry.1 entry.2 table) table = table ++ rest := by
    intro rest
    induction rest with
    | nil => intro table _; simp
    | cons e rest ih =>
      intro table hd
      have hnew : e.1 ∉ table.map (·.1) := fun hm => by
        rw [List.map_append, List.nodup_append] at hd
        exact hd.2.2 e.1 hm e.1 (by simp) rfl
      rw [List.foldl_cons, put_of_not_mem hnew, ih _ (by simpa using hd)]
      simp
  exact key entries [] hd

end Table

/-- Something is left, as long as one of the keys has not been met. -/
theorem left_pos {all met : List κ} {a : κ} {left : Nat} (hmet : met.Nodup) (hsub : met ⊆ all) (ha : a ∈ all)
    (hnew : a ∉ met) (hleft : all.length ≤ left + met.length) : 0 < left := by
  have hlength : (a :: met).length ≤ all.length :=
    (List.nodup_cons.2 ⟨hnew, hmet⟩).length_le_of_subset (List.cons_subset.2 ⟨ha, hsub⟩)
  rw [List.length_cons] at hlength
  omega

theorem nodup_distinct [DecidableEq κ] : ∀ l : List κ, (distinct l).Nodup
  | [] => List.nodup_nil
  | _ :: rest => List.nodup_cons.2 ⟨fun h => of_decide_eq_true (List.mem_filter.1 h).2 rfl, (nodup_distinct rest).filter _⟩

theorem mem_distinct [DecidableEq κ] {a : κ} : ∀ {l : List κ}, a ∈ distinct l ↔ a ∈ l
  | [] => by simp [distinct]
  | b :: rest => by
    by_cases h : a = b
    · simp [distinct, h]
    · simp [distinct, h, mem_distinct]

/-! ## Ordered lists -/

/-- Two members of an ordered list are the same, or one of them stands before the other. -/
theorem eq_or_rel_of_pairwise {R : α → α → Prop} {a b : α} : ∀ {l : List α}, l.Pairwise R → a ∈ l → b ∈ l →
    a = b ∨ R a b ∨ R b a
  | c :: l, h, ha, hb => by
    rw [List.pairwise_cons] at h
    rcases List.mem_cons.1 ha with rfl | ha' <;> rcases List.mem_cons.1 hb with rfl | hb'
    · exact Or.inl rfl
    · exact Or.inr (Or.inl (h.1 b hb'))
    · exact Or.inr (Or.inr (h.1 a ha'))
    · exact eq_or_rel_of_pairwise h.2 ha' hb'

/-- A strictly ordered list is determined by its members. -/
theorem eq_of_pairwise_of_mem_iff {R : α → α → Prop} (hR : ∀ a b, R a b → ¬ R b a) {l r : List α}
    (hl : l.Pairwise R) (hr : r.Pairwise R) (h : ∀ a, a ∈ l ↔ a ∈ r) : l = r := by
  have hne : ∀ a b, R a b → a ≠ b := fun a b hab e => hR a b hab (e ▸ hab)
  have hperm := (List.perm_ext_iff_of_nodup (hl.imp fun {a b} => hne a b) (hr.imp fun {a b} => hne a b)).2 h
  exact hperm.eq_of_pairwise (fun a b _ _ hab hba => absurd hba (hR a b hab)) hl hr

/-! ## Listings by name -/

section Sorting

variable (name : α → String)

theorem insertByName_eq (a : α) : ∀ l : List α, insertByName name a l = l.orderedInsert (name · ≤ name ·) a
  | [] => rfl
  | b :: rest => by
    rw [insertByName, List.orderedInsert_cons, insertByName_eq a rest]
    by_cases h : name b < name a
    · rw [if_pos h, if_neg (String.not_le.2 h)]
    · rw [if_neg h, if_pos (String.not_lt.1 h)]

/-- Listing by name is the insertion sort of the library. -/
theorem sortByName_eq : ∀ l : List α, sortByName name l = l.insertionSort (name · ≤ name ·)
  | [] => rfl
  | a :: rest => by rw [sortByName, insertByName_eq, sortByName_eq rest, List.insertionSort_cons]

theorem sortByName_perm (l : List α) : (sortByName name l).Perm l := by
  rw [sortByName_eq]
  exact List.perm_insertionSort _ l

theorem mem_sortByName {a : α} {l : List α} : a ∈ sortByName name l ↔ a ∈ l :=
  (sortByName_perm name l).mem_iff

theorem sortByName_sorted (l : List α) : (sortByName name l).Pairwise (name · ≤ name ·) := by
  have htotal : Std.Total fun a b : α => name a ≤ name b := ⟨fun a b => String.le_total (name a) (name b)⟩
  have htrans : IsTrans α fun a b => name a ≤ name b := ⟨fun _ _ _ => String.le_trans⟩
  rw [sortByName_eq]
  exact List.pairwise_insertionSort _ l

theorem sortByName_of_sorted {l : List α} (h : l.Pairwise (name · ≤ name ·)) : sortByName name l = l := by
  rw [sortByName_eq, h.insertionSort_eq]

theorem sortByName_map (f : β → α) (l : List β) :
    sortByName name (l.map f) = (sortByName (name ∘ f) l).map f := by
  rw [sortByName_eq, sortByName_eq]
  exact (List.map_insertionSort _ _ f l fun _ _ _ _ => Iff.rfl).symm

/-- Elements with distinct names are listed in strictly increasing order of their names. -/
theorem sortByName_pairwise {l : List α} (hd : (l.map name).Nodup) :
    (sortByName name l).Pairwise (name · < name ·) := by
  have hne : (sortByName name l).Pairwise (name · ≠ name ·) :=
    List.pairwise_map.1 (((sortByName_perm name l).map name).nodup_iff.2 hd)
  exact (sortByName_sorted name l).imp₂ (fun a b hle hne => String.not_le.1 fun hge => hne (String.le_antisymm hle hge)) hne

/-- A strictly increasing list is determined by its elements. -/
theorem eq_of_perm_of_pairwise {l r : List α} (h : l.Perm r) (hl : l.Pairwise (name · < name ·))
    (hr : r.Pairwise (name · < name ·)) : l = r :=
  h.eq_of_pairwise (fun _ _ _ _ hab hba => absurd hba (String.lt_asymm hab)) hl hr

/-- **The listing of elements with distinct names does not depend on the order they come in.** -/
theorem sortByName_eq_of_perm {l r : List α} (h : l.Perm r) (hd : (l.map name).Nodup) :
    sortByName name l = sortByName name r :=
  eq_of_perm_of_pairwise name (((sortByName_perm name l).trans h).trans (sortByName_perm name r).symm)
    (sortByName_pairwise name hd) (sortByName_pairwise name ((h.map name).nodup_iff.1 hd))

theorem insertByName_of_le {a : α} {l : List α} (h : ∀ b ∈ l, name a ≤ name b) : insertByName name a l = a :: l := by
  cases l with
  | nil => rfl
  | cons b rest => rw [insertByName, if_neg (String.not_lt.2 (h b List.mem_cons_self))]

variable {name} {name' : β → String} {f : α → Option β} (hf : ∀ a b, f a = some b → name' b = name a)
include hf

theorem filterMap_insertByName (a : α) : ∀ {l : List α}, l.Pairwise (name · ≤ name ·) →
    (insertByName name a l).filterMap f =
      match f a with
      | none => l.filterMap f
      | some b => insertByName name' b (l.filterMap f)
  | [], _ => by
    cases h : f a <;> simp [insertByName, h]
  | c :: rest, hp => by
    have ih := filterMap_insertByName a (List.pairwise_cons.1 hp).2
    rw [insertByName]
    by_cases hlt : name c < name a
    · rw [if_pos hlt, List.filterMap_cons, ih, List.filterMap_cons]
      cases ha : f a with
      | none => rfl
      | some b =>
        cases hc : f c with
        | none => rfl
        | some d => simp only [insertByName, hf a b ha, hf c d hc, hlt, ↓reduceIte]
    · rw [if_neg hlt]
      cases ha : f a with
      | none => rw [List.filterMap_cons, ha]
      | some b =>
        rw [List.filterMap_cons, ha]
        -- everything that is kept comes after `a`, so `b` stays in front
        refine (insertByName_of_le name' fun d hd => ?_).symm
        obtain ⟨e, he, hed⟩ := List.mem_filterMap.1 hd
        rw [hf a b ha, hf e d hed]
        rcases List.mem_cons.1 he with rfl | he
        · exact String.not_lt.1 hlt
        · exact String.le_trans (String.not_lt.1 hlt) ((List.pairwise_cons.1 hp).1 e he)

/-- Listing by name commutes with leaving out and changing elements, as long as the names stay. -/
theorem filterMap_sortByName (l : List α) : (sortByName name l).filterMap f = sortByName name' (l.filterMap f) := by
  induction l with
  | nil => rfl
  | cons a rest ih =>
    rw [sortByName, filterMap_insertByName hf a (sortByName_sorted name rest), ih, List.filterMap_cons]
    cases f a <;> rfl

/-- It makes no difference to list the elements by name beforehand. -/
theorem sortByName_filterMap_sortByName (l : List α) :
    sortByName name' ((sortByName name l).filterMap f) = sortByName name' (l.filterMap f) := by
  rw [filterMap_sortByName hf, sortByName_of_sorted name' (sortByName_sorted name' _)]

end Sorting

end SchemaDocs.Assoc
