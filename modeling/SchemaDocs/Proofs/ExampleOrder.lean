import SchemaDocs.Proofs.Json

/-!
# The order of examples

Examples are sorted by taking the first run of their names as it is and putting every other one into its place by
halving. For texts that differ from each other no comparison fails, and the outcome is the listing by name
(`sortExamples?_eq`): it does not depend on the order in which the examples stand in the dump.
-/

namespace SchemaDocs.Dump

def exampleName (entry : Value × Value) : String := entry.1.plain

/-- The entries have distinct texts as names. -/
structure Distinct (entries : List (Value × Value)) : Prop where
  isStr : ∀ e ∈ entries, e.1.isStr = true
  nodup : (entries.map exampleName).Nodup

variable {entries run others : List (Value × Value)} {a b : Value × Value}

theorem Distinct.perm (h : Distinct entries) (hp : entries.Perm others) : Distinct others :=
  ⟨fun e he => h.isStr e (hp.mem_iff.2 he), (hp.map _).nodup_iff.1 h.nodup⟩

theorem Distinct.ne (h : Distinct (a :: entries)) (hb : b ∈ entries) : exampleName a ≠ exampleName b := fun e =>
  (List.nodup_cons.1 h.nodup).1 (e ▸ List.mem_map_of_mem hb)

theorem Distinct.tail (h : Distinct (a :: entries)) : Distinct entries :=
  ⟨fun e he => h.isStr e (List.mem_cons_of_mem _ he), (List.nodup_cons.1 h.nodup).2⟩

theorem isBefore?_eq (ha : a.1.isStr = true) (hb : b.1.isStr = true) :
    isBefore? a b = some (decide (exampleName a < exampleName b)) := by
  obtain ⟨ka, va⟩ := a
  obtain ⟨kb, vb⟩ := b
  cases ka <;> simp [Value.isStr] at ha
  cases kb <;> simp [Value.isStr] at hb
  rfl

theorem lt_of_not_lt (h : ¬ exampleName a < exampleName b) (hne : exampleName a ≠ exampleName b) :
    exampleName b < exampleName a :=
  String.not_le.1 fun hle => hne (String.le_antisymm hle (String.not_lt.1 h))

/-! ## Runs -/

/-- The order from each entry of a run to the later ones. -/
def Runs (down : Bool) (a b : Value × Value) : Prop :=
  if down then exampleName b < exampleName a else exampleName a < exampleName b

theorem Runs.trans {down : Bool} {c : Value × Value} (h : Runs down a b) (h' : Runs down b c) : Runs down a c := by
  cases down with
  | true => exact String.lt_trans h' h
  | false => exact String.lt_trans h h'

/-- An entry in front of a run begins a longer one. -/
theorem Runs.pairwise {down : Bool} {run : List (Value × Value)} (h : Runs down a b)
    (hrun : (b :: run).Pairwise (Runs down)) : (a :: b :: run).Pairwise (Runs down) := by
  refine List.pairwise_cons.2 ⟨fun e he => ?_, hrun⟩
  rcases List.mem_cons.1 he with rfl | he
  · exact h
  · exact h.trans ((List.pairwise_cons.1 hrun).1 e he)

theorem runs_of_isBefore {down : Bool} (hne : exampleName a ≠ exampleName b)
    (h : decide (exampleName b < exampleName a) = down) : Runs down a b := by
  subst h
  by_cases hlt : exampleName b < exampleName a
  · simp [Runs, hlt]
  · simpa [Runs, hlt] using lt_of_not_lt hlt hne.symm

theorem runFrom?_eq {down : Bool} : ∀ {rest : List (Value × Value)} {last : Value × Value}, Distinct (last :: rest) →
    ∃ run others, runFrom? down last rest = some (run, others) ∧ rest = run ++ others ∧
      (last :: run).Pairwise (Runs down)
  | [], last, _ => ⟨[], [], rfl, rfl, List.pairwise_singleton _ _⟩
  | entry :: rest, last, h => by
    have hbefore := isBefore?_eq (h.isStr entry (by simp)) (h.isStr last (by simp))
    by_cases hrun : decide (exampleName entry < exampleName last) = down
    · obtain ⟨run, others, heq, rfl, hpairwise⟩ := @runFrom?_eq down rest entry h.tail
      refine ⟨entry :: run, others, ?_, rfl, (runs_of_isBefore (h.ne List.mem_cons_self) hrun).pairwise hpairwise⟩
      simp only [runFrom?, hbefore, Option.bind_eq_bind, Option.bind_some, hrun, beq_self_eq_true, ↓reduceIte, heq,
        Option.pure_def]
    · refine ⟨[], entry :: rest, ?_, rfl, List.pairwise_singleton _ _⟩
      simp only [runFrom?, hbefore, Option.bind_eq_bind, Option.bind_some, beq_iff_eq, hrun, ↓reduceIte, Option.pure_def]

/-- The first run is in order after it has been turned round if need be. -/
theorem firstRun?_eq (h : Distinct entries) : ∃ run others, firstRun? entries = some (run, others) ∧
    (run ++ others).Perm entries ∧ run.Pairwise (exampleName · < exampleName ·) := by
  match entries, h with
  | [], _ => exact ⟨[], [], rfl, .refl _, .nil⟩
  | [entry], _ => exact ⟨[entry], [], rfl, .refl _, List.pairwise_singleton _ _⟩
  | first :: second :: rest, h =>
    have hbefore := isBefore?_eq (h.isStr second (by simp)) (h.isStr first (by simp))
    generalize hdown : decide (exampleName second < exampleName first) = down at hbefore
    obtain ⟨run, others, heq, rfl, hpairwise⟩ := @runFrom?_eq down rest second h.tail
    have hall : (first :: second :: run).Pairwise (Runs down) :=
      (runs_of_isBefore (h.ne List.mem_cons_self) hdown).pairwise hpairwise
    refine ⟨if down then (first :: second :: run).reverse else first :: second :: run, others, ?_, ?_, ?_⟩
    · simp [firstRun?, hbefore, heq]
    · split
      · exact (List.reverse_perm _).append_right others
      · exact .refl _
    · cases down with
      | true => exact List.pairwise_reverse.2 hall
      | false => exact hall

/-! ## Places -/

/-- An element in the middle of a list that is not empty. -/
theorem exists_half {α : Type} {l : List α} (h : l ≠ []) :
    ∃ half a rest, l = half ++ a :: rest ∧ half.length = l.length / 2 := by
  have hlt : l.length / 2 < l.length := by
    have := List.length_pos_iff.2 h
    omega
  exact ⟨l.take (l.length / 2), l[l.length / 2], l.drop (l.length / 2 + 1), by simp, by simp; omega⟩

/-- One step of halving: the search goes on before or after the entry in the middle. -/
theorem rank?_succ {entry other : Value × Value} {sorted : Array (Value × Value)}
    {left half rest right : List (Value × Value)} (hl : sorted.toList = left ++ (half ++ other :: rest) ++ right) (hd : Distinct (entry :: sorted.toList))
    (hhalf : half.length = (half ++ other :: rest).length / 2) (fuel : Nat) :
    rank? entry sorted (fuel + 1) left.length (left.length + (half ++ other :: rest).length) =
      if exampleName entry < exampleName other then rank? entry sorted fuel left.length (left.length + half.length)
      else
        rank? entry sorted fuel (left.length + half.length + 1) (left.length + (half ++ other :: rest).length) := by
  have hindex : left.length + (left.length + (half ++ other :: rest).length - left.length) / 2 =
      left.length + half.length := by
    rw [hhalf]
    omega
  have hother : sorted[left.length + half.length]? = some other := by
    rw [← Array.getElem?_toList, hl]
    simp
  have hbefore := isBefore?_eq (hd.isStr entry (by simp)) (hd.isStr other (by simp [hl]))
  rw [rank?, if_pos (by rw [List.length_append, List.length_cons]; omega)]
  simp only [hindex, hother, hbefore, Option.bind_eq_bind, Option.bind_some, decide_eq_true_eq]

/-- Halving finds the place of an entry: everything before it is smaller, everything after it is greater. -/
theorem rank?_eq {entry : Value × Value} {sorted : Array (Value × Value)} : ∀ (fuel : Nat)
    (left middle right : List (Value × Value)), sorted.toList = left ++ middle ++ right → middle.length < fuel →
      Distinct (entry :: sorted.toList) → sorted.toList.Pairwise (exampleName · < exampleName ·) →
      (∀ e ∈ left, exampleName e < exampleName entry) → (∀ e ∈ right, exampleName entry < exampleName e) →
      ∃ before after, sorted.toList = before ++ after ∧
        rank? entry sorted fuel left.length (left.length + middle.length) = some before.length ∧
        (∀ e ∈ before, exampleName e < exampleName entry) ∧ ∀ e ∈ after, exampleName entry < exampleName e
  | 0, _, _, _, _, hfuel, _, _, _, _ => absurd hfuel (Nat.not_lt_zero _)
  | fuel + 1, left, middle, right, hl, hfuel, hd, hs, hleft, hright => by
    by_cases hempty : middle = []
    · subst hempty
      refine ⟨left, right, by simpa using hl, by simp [rank?], hleft, hright⟩
    · obtain ⟨half, other, rest, rfl, hhalf⟩ := exists_half hempty
      have hstep := rank?_succ hl hd hhalf fuel
      have hne : exampleName entry ≠ exampleName other := hd.ne (by simp [hl])
      have hl' : sorted.toList = left ++ half ++ other :: (rest ++ right) := by simp [hl]
      have hp := hs
      rw [hl', List.pairwise_append, List.pairwise_cons] at hp
      obtain ⟨-, ⟨hafter, -⟩, hbelow⟩ := hp
      rw [List.length_append, List.length_cons] at hfuel hstep
      rw [List.length_append, List.length_cons, hstep]
      by_cases hless : exampleName entry < exampleName other
      · rw [if_pos hless]
        refine rank?_eq fuel left half (other :: (rest ++ right)) hl' (by omega) hd hs hleft fun e he => ?_
        rcases List.mem_cons.1 he with rfl | he
        · exact hless
        · exact String.lt_trans hless (hafter e he)
      · rw [if_neg hless]
        have hgreater := lt_of_not_lt hless hne
        have hih := rank?_eq fuel (left ++ half ++ [other]) rest right (by simp [hl]) (by omega) hd hs
          (fun e he => ?_) hright
        · simp only [List.length_append, List.length_singleton] at hih
          have hend : left.length + half.length + 1 + rest.length = left.length + (half.length + (rest.length + 1)) := by
            omega
          rwa [hend] at hih
        · rcases List.mem_append.1 he with he | he
          · exact String.lt_trans (hbelow e he other List.mem_cons_self) hgreater
          · rwa [List.mem_singleton.1 he]

theorem insertIdx_length {α : Type} (a : α) : ∀ before after : List α,
    (before ++ after).insertIdx before.length a = before ++ a :: after
  | [], after => rfl
  | b :: before, after => by
    rw [List.cons_append, List.length_cons, List.insertIdx_succ_cons, insertIdx_length a before after]
    rfl

/-- The other entries are put into their places among the sorted ones. -/
theorem insertAll?_eq : ∀ {others : List (Value × Value)} {sorted : Array (Value × Value)},
    Distinct (sorted.toList ++ others) → sorted.toList.Pairwise (exampleName · < exampleName ·) →
      ∃ all, insertAll? sorted others = some all ∧ all.toList.Perm (sorted.toList ++ others) ∧
        all.toList.Pairwise (exampleName · < exampleName ·)
  | [], sorted, _, hs => ⟨sorted, rfl, by simp, hs⟩
  | entry :: rest, sorted, hd, hs => by
    have hperm : (sorted.toList ++ entry :: rest).Perm (entry :: sorted.toList ++ rest) := List.perm_middle
    have hentry : Distinct (entry :: sorted.toList) :=
      ⟨fun e he => (hd.perm hperm).isStr e (List.mem_append_left _ he),
        ((hd.perm hperm).nodup.sublist ((List.sublist_append_left _ _).map _))⟩
    obtain ⟨before, after, hl, hrank, hbelow, habove⟩ := rank?_eq (sorted.size + 1) [] sorted.toList []
      (by simp) (by simp) hentry hs (by simp) (by simp)
    have hsize : before.length ≤ sorted.size := by
      rw [← Array.length_toList, hl]
      simp
    have hinsert : (sorted.insertIdxIfInBounds before.length entry).toList = before ++ entry :: after := by
      rw [Array.insertIdxIfInBounds, dif_pos hsize, Array.toList_insertIdx, hl, insertIdx_length]
    have hsorted : (before ++ entry :: after).Pairwise (exampleName · < exampleName ·) := by
      rw [hl, List.pairwise_append] at hs
      refine List.pairwise_append.2 ⟨hs.1, List.pairwise_cons.2 ⟨habove, hs.2.1⟩, fun a ha b hb => ?_⟩
      rcases List.mem_cons.1 hb with rfl | hb
      · exact hbelow a ha
      · exact hs.2.2 a ha b hb
    have hmoved : (before ++ entry :: after ++ rest).Perm (sorted.toList ++ entry :: rest) := by
      rw [hl]
      exact (List.perm_middle.append_right rest).trans List.perm_middle.symm
    rw [← hinsert] at hsorted hmoved
    obtain ⟨all, hall, hp, hpairwise⟩ := insertAll?_eq (hd.perm hmoved.symm) hsorted
    refine ⟨all, ?_, hp.trans hmoved, hpairwise⟩
    simp only [List.length_nil, Nat.zero_add, Array.length_toList] at hrank
    simp only [insertAll?, hrank, Option.bind_eq_bind, Option.bind_some, hall]

/-- **Examples with distinct texts as names are listed by name.** -/
theorem sortExamples?_eq (h : Distinct entries) :
    sortExamples? entries = some (Assoc.sortByName exampleName entries) := by
  obtain ⟨run, others, hrun, hperm, hpairwise⟩ := firstRun?_eq h
  obtain ⟨all, hall, hp, hsorted⟩ := @insertAll?_eq others run.toArray (h.perm (by simpa using hperm.symm))
    (by simpa using hpairwise)
  have heq : all.toList = Assoc.sortByName exampleName entries :=
    Assoc.eq_of_perm_of_pairwise exampleName
      ((hp.trans (by simpa using hperm)).trans (Assoc.sortByName_perm exampleName entries).symm) hsorted
      (Assoc.sortByName_pairwise exampleName h.nodup)
  simp only [sortExamples?, hrun, Option.bind_eq_bind, Option.bind_some, hall, Option.pure_def, heq]

theorem distinct_of_isJson (h : Value.entriesAreJson entries = true) : Distinct entries where
  isStr e he := by
    obtain ⟨name, hname, -⟩ := Value.exists_name h he
    rw [hname]
    rfl
  nodup := Value.nodup_plain h

end SchemaDocs.Dump
