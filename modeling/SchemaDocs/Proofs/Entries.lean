import SchemaDocs.Files.Entry
import SchemaDocs.Proofs.Table

/-!
# Places of directory trees

A tree is described by what stands at each of its places: a file with its bytes, a directory, or nothing (`nodeAt?`).
Putting an entry somewhere shows the entry there and below, and leaves every other place as it was
(`at?_put`, `nodeAt?_put`). Of what is put below a place nothing is left when that place is overwritten
(`put_put_append`).
-/

namespace SchemaDocs

namespace Assoc

variable {κ α : Type} [DecidableEq κ]

theorem get?_filter (key : κ) : ∀ table : List (κ × α), get? key (table.filter fun entry => entry.1 ≠ key) = none
  | [] => rfl
  | (k, a) :: rest => by
    have ih := get?_filter key rest
    by_cases hk : k = key <;> simpa [hk, get?] using ih

theorem get?_filter_of_ne {key other : κ} (h : other ≠ key) : ∀ table : List (κ × α),
    get? other (table.filter fun entry => entry.1 ≠ key) = get? other table
  | [] => rfl
  | (k, a) :: rest => by
    have ih := get?_filter_of_ne h rest
    by_cases hk : k = key
    · simpa [hk, get?, Ne.symm h] using ih
    · rw [List.filter_cons_of_pos (by simpa using hk), get?, get?, ih]

end Assoc

namespace Files

/-- What stands at a place: a file with its bytes, or a directory. -/
inductive Node where
  | file (data : List UInt8)
  | directory
deriving DecidableEq

/-- Whether it is a file or a directory. -/
def Node.kind : Node → Kind
  | file _ => .file
  | directory => .directory

def StrictlyBelow (place loc : Location) : Prop := ∃ name rest, loc = place ++ name :: rest

theorem strictlyBelow_append {place rest : Location} (h : rest ≠ []) : StrictlyBelow place (place ++ rest) := by
  obtain ⟨name, rest, rfl⟩ := List.exists_cons_of_ne_nil h
  exact ⟨name, rest, rfl⟩

theorem StrictlyBelow.isPrefix {place loc : Location} (h : StrictlyBelow place loc) : place <+: loc := by
  obtain ⟨name, rest, rfl⟩ := h
  exact List.prefix_append place _

theorem not_strictlyBelow_self (place : Location) : ¬ StrictlyBelow place place := by
  rintro ⟨name, rest, heq⟩
  simp at heq

/-- A place is at another one, below it, or elsewhere. -/
theorem eq_or_strictlyBelow {place loc : Location} (h : place <+: loc) : loc = place ∨ StrictlyBelow place loc := by
  obtain ⟨rest, rfl⟩ := h
  by_cases hr : rest = []
  · simp [hr]
  · exact .inr (strictlyBelow_append hr)

namespace Entry

variable {e new old : Entry} {place loc rest : Location} {name : String} {entries : List (String × Entry)}

def node : Entry → Node
  | file data => .file data
  | directory _ => .directory

theorem kind_node (e : Entry) : e.node.kind = e.kind := by cases e <;> rfl

/-- What stands at a place of a tree. -/
def nodeAt? (place : Location) (e : Entry) : Option Node := (e.at? place).map node

@[simp] theorem at?_nil (e : Entry) : e.at? [] = some e := by cases e <;> rfl

theorem at?_cons (name : String) (rest : Location) (entries : List (String × Entry)) :
    (directory entries).at? (name :: rest) = (Assoc.get? name entries).bind (at? rest) := by
  rw [at?]
  cases Assoc.get? name entries <;> rfl

theorem at?_append : ∀ (place rest : Location) (e : Entry), e.at? (place ++ rest) = (e.at? place).bind (at? rest)
  | [], rest, e => by simp
  | name :: place, rest, file data => rfl
  | name :: place, rest, directory entries => by
    rw [List.cons_append, at?_cons, at?_cons]
    cases Assoc.get? name entries with
    | none => rfl
    | some e => exact at?_append place rest e

/-- Only directories have places below them. -/
theorem nodeAt?_eq_directory (h : (e.nodeAt? (place ++ name :: rest)).isSome = true) :
    e.nodeAt? place = some .directory := by
  rw [nodeAt?, at?_append] at h
  rw [nodeAt?]
  cases hp : e.at? place with
  | none => simp [hp] at h
  | some old =>
    cases old with
    | file data => simp [hp, at?] at h
    | directory entries => rfl

def IsBare (e : Entry) : Prop := ∀ name rest, e.at? (name :: rest) = none

theorem isBare_file (data : List UInt8) : (file data).IsBare := fun _ _ => rfl

theorem isBare_directory : (directory []).IsBare := fun _ _ => rfl

/-! ## Putting -/

/-- An entry can be put at a place: at the root, or in a directory. -/
def Puttable (place : Location) (e : Entry) : Prop :=
  ∀ above name, place = above ++ [name] → e.nodeAt? above = some .directory

theorem puttable_of_nodeAt? (h : (e.nodeAt? place).isSome = true) : Puttable place e := by
  rintro above name rfl
  exact nodeAt?_eq_directory h

theorem puttable_of_at? (h : e.at? place = some old) : Puttable place e :=
  puttable_of_nodeAt? (by rw [nodeAt?, h]; rfl)

theorem puttable_append (h : e.nodeAt? place = some .directory) (name : String) : Puttable (place ++ [name]) e := by
  intro above name' heq
  rwa [← (List.append_inj' heq rfl).1]

theorem not_puttable_file {data : List UInt8} : ¬ Puttable (name :: rest) (file data) := by
  intro h
  rcases List.eq_nil_or_concat rest with rfl | ⟨above, last, rfl⟩
  · simpa [nodeAt?, node] using h [] name rfl
  · simpa [nodeAt?, at?] using h (name :: above) last (by simp)

theorem Puttable.below {next : String} (h : Puttable (name :: next :: rest) (directory entries)) :
    ∃ e, Assoc.get? name entries = some e ∧ Puttable (next :: rest) e := by
  have hlast : ∀ above last, next :: rest = above ++ [last] →
      ((directory entries).nodeAt? (name :: above)) = some .directory := fun above last heq =>
    h (name :: above) last (by rw [heq, List.cons_append])
  simp only [nodeAt?, at?_cons] at hlast
  cases hname : Assoc.get? name entries with
  | none =>
    obtain ⟨above, last, heq⟩ := (next :: rest).eq_nil_or_concat.resolve_left (by simp)
    simpa [hname] using hlast above last (by simpa using heq)
  | some e =>
    simp only [hname, Option.bind_some] at hlast
    exact ⟨e, rfl, hlast⟩

theorem put_cons {next : String} {e : Entry} (h : Assoc.get? name entries = some e) :
    put new (name :: next :: rest) (directory entries) =
      directory (Assoc.put name (put new (next :: rest) e) entries) := by
  rw [put, h]

/-- The entry that has been put at a place stands there. -/
theorem at?_put (new : Entry) : ∀ {place : Location} {e : Entry}, Puttable place e → ∀ rest,
    (put new place e).at? (place ++ rest) = new.at? rest
  | [], e, _, rest => by rw [put, List.nil_append]
  | name :: above, file data, h, _ => absurd h not_puttable_file
  | [name], directory entries, _, rest => by
    rw [put, List.singleton_append, at?_cons, Assoc.get?_put_self, Option.bind_some]
  | name :: next :: above, directory entries, h, rest => by
    obtain ⟨e, hname, hbelow⟩ := h.below
    rw [put_cons hname, List.cons_append, at?_cons, Assoc.get?_put_self, Option.bind_some]
    exact at?_put new hbelow rest

/-- Everywhere but there and below, the tree is as it was. -/
theorem nodeAt?_put : ∀ {place loc : Location} {e : Entry}, Puttable place e → ¬ place <+: loc →
    (put new place e).nodeAt? loc = e.nodeAt? loc
  | [], loc, _, _, hloc => absurd (List.nil_prefix) hloc
  | name :: above, _, file data, h, _ => absurd h not_puttable_file
  | [name], [], directory entries, _, _ => rfl
  | [name], other :: rest, directory entries, _, hloc => by
    have hne : other ≠ name := fun e => hloc (by rw [e]; exact ⟨rest, rfl⟩)
    rw [put, nodeAt?, nodeAt?, at?_cons, at?_cons, Assoc.get?_put_of_ne hne]
  | name :: next :: above, [], directory entries, h, _ => by
    obtain ⟨e, hname, -⟩ := h.below
    rw [put_cons hname]
    rfl
  | name :: next :: above, other :: rest, directory entries, h, hloc => by
    obtain ⟨e, hname, hbelow⟩ := h.below
    rw [put_cons hname, nodeAt?, nodeAt?, at?_cons, at?_cons]
    by_cases hne : other = name
    · subst hne
      rw [Assoc.get?_put_self, hname, Option.bind_some, Option.bind_some]
      exact nodeAt?_put hbelow fun hp => hloc (List.cons_prefix_cons.2 ⟨rfl, hp⟩)
    · rw [Assoc.get?_put_of_ne hne]

/-- To put what is there already changes nothing. -/
theorem put_of_at? : ∀ {place : Location} {e : Entry}, e.at? place = some old → put old place e = e
  | [], e, h => by
    rw [at?_nil, Option.some_inj] at h
    rw [put, h]
  | name :: above, file data, h => by simp [at?] at h
  | [name], directory entries, h => by
    rw [at?_cons] at h
    obtain ⟨e, hname, he⟩ := Option.bind_eq_some_iff.1 h
    rw [at?_nil, Option.some_inj] at he
    rw [put, Assoc.put_of_get? (he ▸ hname)]
  | name :: next :: above, directory entries, h => by
    rw [at?_cons] at h
    obtain ⟨e, hname, he⟩ := Option.bind_eq_some_iff.1 h
    rw [put_cons hname, put_of_at? he, Assoc.put_of_get? hname]

/-- What has been put below a place is gone when the place is overwritten. -/
theorem put_put_append {other : Entry} : ∀ {place : Location} {e : Entry}, Puttable place e → ∀ rest,
    put new place (put other (place ++ rest) e) = put new place e
  | [], e, _, rest => by rw [put, put]
  | name :: above, file data, h, _ => absurd h not_puttable_file
  | [name], directory entries, _, [] => by
    rw [List.append_nil, put, put, put, Assoc.put_put]
  | [name], directory entries, _, next :: rest => by
    cases hname : Assoc.get? name entries with
    | none =>
      have hsame : put other (name :: next :: rest) (directory entries) = directory entries := by rw [put, hname]
      rw [List.singleton_append, hsame]
    | some e => rw [List.singleton_append, put_cons hname, put, put, Assoc.put_put]
  | name :: next :: above, directory entries, h, rest => by
    obtain ⟨e, hname, hbelow⟩ := h.below
    rw [List.cons_append, List.cons_append, put_cons hname, put_cons (Assoc.get?_put_self ..), put_cons hname,
      Assoc.put_put, ← List.cons_append, put_put_append hbelow rest]

/-! ## Erasing -/

end Entry

end Files

end SchemaDocs
