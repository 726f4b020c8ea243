import SchemaDocs.Proofs.StoredTrees
import SchemaDocs.Proofs.Tracking

/-!
# Filling nodes

While a dump is read in a store, some nodes are opened: they have been made, but their reading has not come to its end.
Until then nothing but this reading itself knows the address of such a node, and only it changes the node. So no opened
node is a part of another one, and every other node holds a schema (`Backs`). Making a node, changing it, and closing it
when it has been filled keep this up (`Backs.allocate`, `Backs.put`, `Backs.close`). So does a definition that is filled
while others refer to it, since what they get is not its address (`Underway`).
-/

namespace SchemaDocs

namespace Dump

variable {raw fields : List (Value × Value)} {levels : Nat} {opened : List Nat} {σ σ₀ σ' : Store} {p p' : Progress}
  {key : String} {s t : Schema} {n : Nat} {owner : Option String}

/-! ## Stores -/

namespace Store

/-- Nothing that was in the first store has changed in the second one. -/
structure Grows (σ σ' : Store) : Prop where
  length : σ.cells.length ≤ σ'.cells.length
  cells : ∀ n < σ.cells.length, σ'.cells[n]? = σ.cells[n]?
  definitions : ∀ n < σ.cells.length, ∀ key,
    Assoc.get? key σ'.definitions = some n ↔ Assoc.get? key σ.definitions = some n

namespace Grows

theorem refl (σ : Store) : σ.Grows σ := ⟨Nat.le_refl _, fun _ _ => rfl, fun _ _ _ => Iff.rfl⟩

theorem trans {σ'' : Store} (h : σ.Grows σ') (h' : σ'.Grows σ'') : σ.Grows σ'' where
  length := Nat.le_trans h.length h'.length
  cells n hn := (h'.cells n (Nat.lt_of_lt_of_le hn h.length)).trans (h.cells n hn)
  definitions n hn key := (h'.definitions n (Nat.lt_of_lt_of_le hn h.length) key).trans (h.definitions n hn key)

theorem holds (h : σ.Grows σ') (hs : σ.Holds opened s) : σ'.Holds opened s :=
  hs.transfer (fun _ _ => id) fun n hn _ => h.cells n hn

end Grows

/-- The node of the schema stands at its address, and what lies below it is held. -/
structure Stored (σ : Store) (opened : List Nat) (s : Schema) : Prop where
  cell : σ.cells[s.address]? = some s.cell
  parts : ∀ t ∈ s.parts, σ.Holds opened t

theorem Stored.lt (h : σ.Stored opened s) : s.address < σ.cells.length := (List.getElem?_eq_some_iff.1 h.cell).1

theorem Stored.grows (h : σ.Stored opened s) (hσ : σ.Grows σ') : σ'.Stored opened s where
  cell := (hσ.cells _ h.lt).trans h.cell
  parts t ht := hσ.holds (h.parts t ht)

theorem Stored.holds (h : σ.Stored opened s) (hclosed : s.address ∉ opened) : σ.Holds opened s :=
  .intro hclosed h.cell h.parts

/-- A node that is made is a part of nothing that has been there before. -/
theorem Holds.allocate (h : σ.Holds opened s) (cell : Cell) (definitions : List (String × Nat)) :
    Holds ⟨σ.cells ++ [cell], definitions⟩ (σ.cells.length :: opened) s :=
  h.transfer (fun n hn hclosed => by simp [hclosed, Nat.ne_of_lt hn]) fun n hn _ => List.getElem?_append_left hn

/-- Nor is a node that is opened. -/
theorem Holds.change (h : σ.Holds (n :: opened) s) (f : Cell → Cell) (definitions : List (String × Nat)) :
    Holds ⟨σ.cells.modify n f, definitions⟩ (n :: opened) s :=
  h.transfer (fun _ _ => id) fun m _ hm => by simp [(List.ne_of_not_mem_cons hm).symm]

theorem grows_allocate (σ : Store) (cell : Cell) : σ.Grows ⟨σ.cells ++ [cell], σ.definitions⟩ :=
  ⟨by simp, fun _ hn => List.getElem?_append_left hn, fun _ _ _ => Iff.rfl⟩

end Store

/-- The store is in the state that the schemas have been read to, but for the nodes that are opened. Enough levels are
left for the definitions that have not been entered. -/
structure Backs (raw : List (Value × Value)) (levels : Nat) (opened : List Nat) (σ : Store) (p : Progress) : Prop where
  count : σ.cells.length = p.count
  definitions : ∀ key, Assoc.get? key σ.definitions = (Assoc.get? key p.table).map Schema.address
  distinct : ∀ {key key' n}, Assoc.get? key σ.definitions = some n → Assoc.get? key' σ.definitions = some n → key = key'
  stored : ∀ {key s}, Assoc.get? key p.table = some s → σ.Stored opened s
  held : ∀ n < σ.cells.length, n ∉ opened → ∃ s, s.address = n ∧ σ.Holds opened s
  opened : ∀ n ∈ opened, n < σ.cells.length
  nodup : (p.table.map (·.1)).Nodup
  keys : p.table.map (·.1) ⊆ keysOf raw
  room : raw.length ≤ levels + p.table.length

/-! ## The table -/

section PutFor

variable {α : Type} {table : List (String × α)}

/-- A table with a value for the definition that is the owner, if there is one. -/
def putFor (owner : Option String) (a : α) (table : List (String × α)) : List (String × α) :=
  match owner with
  | none => table
  | some key => Assoc.put key a table

theorem get?_putFor (owner : Option String) (a : α) (table : List (String × α)) (key : String) :
    Assoc.get? key (putFor owner a table) = if owner = some key then some a else Assoc.get? key table := by
  cases owner with
  | none => simp [putFor]
  | some k =>
    rw [putFor]
    by_cases h : k = key
    · subst h
      rw [Assoc.get?_put_self, if_pos rfl]
    · rw [Assoc.get?_put_of_ne (Ne.symm h), if_neg (by simpa using h)]

theorem putFor_of_get? {a : α} (h : ∀ key, owner = some key → Assoc.get? key table = some a) :
    putFor owner a table = table := by
  cases owner with
  | none => rfl
  | some key => exact Assoc.put_of_get? (h key rfl)

theorem length_le_putFor (owner : Option String) (a : α) (table : List (String × α)) :
    table.length ≤ (putFor owner a table).length := by
  cases owner with
  | none => exact Nat.le_refl _
  | some key => exact Assoc.length_le_put key a table

theorem nodup_putFor (h : (table.map (·.1)).Nodup) (owner : Option String) (a : α) :
    ((putFor owner a table).map (·.1)).Nodup := by
  cases owner with
  | none => exact h
  | some key => exact Assoc.nodup_alter h _ _

theorem keys_putFor {keys : List String} (h : table.map (·.1) ⊆ keys) (a : α)
    (howner : ∀ key, owner = some key → key ∈ keys) : (putFor owner a table).map (·.1) ⊆ keys := by
  cases owner with
  | none => exact h
  | some key =>
    intro k hk
    rcases Assoc.mem_keys_alter.1 hk with rfl | hk
    · exact howner _ rfl
    · exact h hk

end PutFor

/-- What has been read of a definition is handed on to the table; what is no definition is not handed on. -/
def publishFor (owner : Option String) (s : Schema) : Reading Unit :=
  match owner with
  | none => return ()
  | some key => enter key s

theorem publishFor_apply (owner : Option String) (s : Schema) (p : Progress) :
    publishFor owner s p = .ok ((), { p with table := putFor owner s p.table }) := by
  cases owner <;> rfl

/-! ## Nodes that are opened -/

namespace Backs

/-- A node is made, and it is opened. -/
theorem allocate (h : Backs raw levels opened σ p) (cell : Cell) :
    Backs raw levels (σ.cells.length :: opened) ⟨σ.cells ++ [cell], σ.definitions⟩ { p with count := p.count + 1 } where
  count := by simp [h.count]
  definitions := h.definitions
  distinct := h.distinct
  stored hs :=
    ⟨((σ.grows_allocate cell).cells _ (h.stored hs).lt).trans (h.stored hs).cell, fun t ht =>
      ((h.stored hs).parts t ht).allocate cell _⟩
  held n hn hclosed := by
    have hlt : n < σ.cells.length := by
      simp only [List.length_append, List.length_singleton, List.mem_cons, not_or] at hn hclosed
      omega
    obtain ⟨s, hs, hheld⟩ := h.held n hlt fun hm => hclosed (List.mem_cons_of_mem _ hm)
    exact ⟨s, hs, hheld.allocate cell _⟩
  opened n hn := by
    have hopened := h.opened n
    simp only [List.mem_cons, List.length_append, List.length_singleton] at hn ⊢
    rcases hn with rfl | hn
    · exact Nat.lt_succ_self _
    · exact Nat.lt_succ_of_lt (hopened hn)
  nodup := h.nodup
  keys := h.keys
  room := h.room

/-- An opened node is changed, and what has been read of it by then is handed on. Its address is that of the owner. -/
theorem put {above : Nat} (h : Backs raw above (n :: opened) σ p) {f : Cell → Cell} (haddress : t.address = n)
    (hcell : (σ.cells.modify n f)[n]? = some t.cell) (hparts : ∀ u ∈ t.parts, σ.Holds (n :: opened) u)
    (howned : ∀ key, Assoc.get? key σ.definitions = some n → owner = some key)
    (howner : ∀ key, owner = some key → key ∈ keysOf raw)
    (hroom : raw.length ≤ levels + (putFor owner t p.table).length) :
    Backs raw levels (n :: opened) ⟨σ.cells.modify n f, putFor owner n σ.definitions⟩
      { p with table := putFor owner t p.table } := by
  have hstored : Store.Stored ⟨σ.cells.modify n f, putFor owner n σ.definitions⟩ (n :: opened) t :=
    ⟨haddress ▸ hcell, fun u hu => (hparts u hu).change f _⟩
  refine ⟨by simpa using h.count, fun key => ?_, fun {key key' m} hkey hkey' => ?_, fun {key u} hu => ?_,
    fun m hm hclosed => ?_, by simpa using h.opened, nodup_putFor h.nodup owner t, keys_putFor h.keys t howner, hroom⟩
  · rw [get?_putFor, get?_putFor]
    split
    · rw [Option.map_some, haddress]
    · exact h.definitions key
  · rw [get?_putFor] at hkey hkey'
    split at hkey <;> split at hkey'
    · rename_i hk hk'
      exact Option.some_inj.1 (hk.symm.trans hk')
    · rename_i hk hk'
      cases hkey
      exact absurd (howned key' hkey') hk'
    · rename_i hk hk'
      cases hkey'
      exact absurd (howned key hkey) hk
    · exact h.distinct hkey hkey'
  · rw [get?_putFor] at hu
    split at hu
    · cases hu
      exact hstored
    · rename_i hkey
      -- no other definition has this address
      have hne : n ≠ u.address := by
        rintro rfl
        refine hkey (howned key ?_)
        rw [h.definitions, hu, Option.map_some]
      refine ⟨?_, fun v hv => ((h.stored hu).parts v hv).change f _⟩
      simpa [hne] using (h.stored hu).cell
  · obtain ⟨u, hu, hheld⟩ := h.held m (by simpa using hm) hclosed
    exact ⟨u, hu, hheld.change f _⟩

/-- A node that has been filled is not opened any more, and the store holds its schema. -/
theorem close {above : Nat} (h : Backs raw levels (n :: opened) σ p) (hs : σ.Stored (n :: opened) s)
    (haddress : s.address = n) (hnew : n ∉ opened) (hroom : raw.length ≤ above + p.table.length) :
    Backs raw above opened σ p ∧ σ.Holds opened s := by
  have hclose {t : Schema} (ht : σ.Holds (n :: opened) t) : σ.Holds opened t :=
    ht.transfer (fun _ _ hclosed hm => hclosed (List.mem_cons_of_mem _ hm)) fun _ _ _ => rfl
  have hheld : σ.Holds opened s := .intro (haddress ▸ hnew) hs.cell fun t ht => hclose (hs.parts t ht)
  refine ⟨⟨h.count, h.definitions, h.distinct, fun ht => ?_, fun m hm hclosed => ?_, fun m hm => ?_, h.nodup, h.keys,
    hroom⟩, hheld⟩
  · exact ⟨(h.stored ht).cell, fun u hu => hclose ((h.stored ht).parts u hu)⟩
  · by_cases heq : m = n
    · exact ⟨s, haddress.trans heq.symm, hheld⟩
    · obtain ⟨t, ht, hheld⟩ := h.held m hm (by simp [heq, hclosed])
      exact ⟨t, ht, hclose hheld⟩
  · exact h.opened m (List.mem_cons_of_mem _ hm)

end Backs

/-- The node of the schema has been made in the store `σ₀` and is being filled. Its address is known for that of the
definition that owns it, if there is one, and nowhere else. -/
structure Underway (raw : List (Value × Value)) (levels : Nat) (opened : List Nat) (owner : Option String) (σ₀ σ : Store)
    (p : Progress) (s : Schema) : Prop where
  backs : Backs raw levels (σ₀.cells.length :: opened) σ p
  grows : σ₀.Grows σ
  address : s.address = σ₀.cells.length
  stored : σ.Stored (σ₀.cells.length :: opened) s
  owned : ∀ key, Assoc.get? key σ.definitions = some σ₀.cells.length ↔ owner = some key

namespace Underway

/-- Reading a part changes nothing about the node. -/
theorem grown (h : Underway raw levels opened owner σ₀ σ p s) (hσ : σ.Grows σ')
    (hbacks : Backs raw levels (σ₀.cells.length :: opened) σ' p') : Underway raw levels opened owner σ₀ σ' p' s where
  backs := hbacks
  grows := h.grows.trans hσ
  address := h.address
  stored := h.stored.grows hσ
  owned key := by
    rw [hσ.definitions _ (h.address ▸ h.stored.lt), h.owned]

/-- The node is made and filled for the first time, and what has been read of it by then is handed on. -/
theorem begin {above : Nat} (h : Backs raw above opened σ₀ p) {f : Cell → Cell} (haddress : s.address = σ₀.cells.length)
    (hcell : f {} = s.cell) (hparts : s.parts = [])
    (howner : ∀ key, owner = some key → key ∈ keysOf raw ∧ Assoc.get? key p.table = none)
    (hroom : raw.length ≤ levels + (putFor owner s p.table).length) :
    Underway raw levels opened owner σ₀
      ⟨(σ₀.cells ++ [({} : Cell)]).modify σ₀.cells.length f, putFor owner σ₀.cells.length σ₀.definitions⟩
      ⟨putFor owner s p.table, p.count + 1⟩ s := by
  have hnew (key : String) : Assoc.get? key σ₀.definitions ≠ some σ₀.cells.length := by
    rw [h.definitions]
    intro heq
    obtain ⟨u, hu, haddr⟩ := Option.map_eq_some_iff.1 heq
    have hlt := (h.stored hu).lt
    omega
  have hself : ((σ₀.cells ++ [({} : Cell)]).modify σ₀.cells.length f)[σ₀.cells.length]? = some s.cell := by simp [hcell]
  refine ⟨(h.allocate {}).put haddress hself (by simp [hparts]) (fun key hkey => absurd hkey (hnew key))
    (fun key hkey => (howner key hkey).1) hroom, ⟨by simp, fun n hn => ?_, fun n hn key => ?_⟩, haddress,
    ⟨haddress ▸ hself, by simp [hparts]⟩, fun key => ?_⟩
  · simp [Nat.ne_of_gt hn, List.getElem?_append_left hn]
  · rw [get?_putFor]
    split
    · rename_i hkey
      rw [h.definitions, (howner key hkey).2]
      simp [Nat.ne_of_gt hn]
    · rfl
  · rw [get?_putFor]
    split
    · rename_i hkey
      simp [hkey]
    · rename_i hkey
      simp [hkey, hnew key]

/-- The node is changed, and what has been read of it by then is handed on. -/
theorem put (h : Underway raw levels opened owner σ₀ σ p s) {f : Cell → Cell} (haddress : t.address = s.address)
    (hcell : f s.cell = t.cell) (hparts : ∀ u ∈ t.parts, σ.Holds (σ₀.cells.length :: opened) u) :
    Underway raw levels opened owner σ₀ { σ with cells := σ.cells.modify σ₀.cells.length f }
      { p with table := putFor owner t p.table } t := by
  have hn := haddress.trans h.address
  have hself : (σ.cells.modify σ₀.cells.length f)[σ₀.cells.length]? = some t.cell := by
    have hs := h.stored.cell
    rw [h.address] at hs
    simp [hs, hcell]
  have hput := h.backs.put hn hself hparts (fun key => (h.owned key).1) (fun key hkey => h.backs.keys ?_)
    (Nat.le_trans h.backs.room (Nat.add_le_add_left (length_le_putFor owner t p.table) _))
  · rw [putFor_of_get? fun key => (h.owned key).2] at hput
    refine ⟨hput, ⟨by simpa using h.grows.length, fun n hlt => ?_, h.grows.definitions⟩, hn,
      ⟨hn ▸ hself, fun u hu => (hparts u hu).change f _⟩, h.owned⟩
    simp [Nat.ne_of_gt hlt, h.grows.cells n hlt]
  · rw [← Assoc.get?_isSome_iff, ← Option.isSome_map (f := Schema.address), ← h.backs.definitions, (h.owned key).2 hkey]
    rfl

/-- The node has been filled. -/
theorem close {above : Nat} (h : Underway raw levels opened owner σ₀ σ p s) (hopened : ∀ n ∈ opened, n < σ₀.cells.length)
    (hlevels : levels ≤ above) : Backs raw above opened σ p ∧ σ.Holds opened s :=
  h.backs.close h.stored h.address (fun hm => Nat.lt_irrefl _ (hopened _ hm))
    (Nat.le_trans h.backs.room (Nat.add_le_add_right hlevels _))

end Underway

end Dump

end SchemaDocs
