import SchemaDocs.Text.Basic

/-!
# Splitting and joining

Splitting at a separator and joining with it are inverse to each other as long as no piece holds the separator
(`split_join`). The pieces of a text hold only characters of the text, and what stands after its last separator
holds none (`not_mem_splitLast_snd`).
-/

namespace SchemaDocs.Text

/-! ## Lists of characters -/

theorem splitList_ne_nil (sep : Char) : ∀ cs : List Char, splitList sep cs ≠ []
  | [] => by simp [splitList]
  | c :: cs => by
    simp only [splitList]
    split
    · simp
    · split <;> simp

theorem splitList_cons_of_ne {sep c : Char} {cs piece : List Char} {pieces : List (List Char)} (hc : c ≠ sep)
    (h : splitList sep cs = piece :: pieces) : splitList sep (c :: cs) = (c :: piece) :: pieces := by
  simp only [splitList, hc, if_false, h]

/-- A piece without the separator is split off as a whole. -/
theorem splitList_append_cons {sep : Char} {piece : List Char} (h : sep ∉ piece) (cs : List Char) :
    splitList sep (piece ++ sep :: cs) = piece :: splitList sep cs := by
  induction piece with
  | nil => simp [splitList]
  | cons c rest ih =>
    rw [List.mem_cons, not_or] at h
    exact splitList_cons_of_ne (Ne.symm h.1) (ih h.2)

theorem splitList_of_not_mem {sep : Char} {cs : List Char} (h : sep ∉ cs) : splitList sep cs = [cs] := by
  induction cs with
  | nil => rfl
  | cons c rest ih =>
    rw [List.mem_cons, not_or] at h
    exact splitList_cons_of_ne (Ne.symm h.1) (ih h.2)

theorem splitList_joinList {sep : Char} : ∀ (pieces : List (List Char)), pieces ≠ [] →
    (∀ piece ∈ pieces, sep ∉ piece) → splitList sep (joinList [sep] pieces) = pieces
  | [piece], _, h => splitList_of_not_mem (h piece (by simp))
  | piece :: next :: pieces, _, h => by
    have ih := splitList_joinList (next :: pieces) (by simp)
      fun p hp => h p (List.mem_cons_of_mem _ hp)
    simp only [joinList, List.append_assoc, List.singleton_append]
    rw [splitList_append_cons (h piece (by simp)), ih]

theorem joinList_splitList (sep : Char) : ∀ cs : List Char, joinList [sep] (splitList sep cs) = cs
  | [] => rfl
  | c :: cs => by
    have ih := joinList_splitList sep cs
    obtain ⟨piece, pieces, h⟩ := List.exists_cons_of_ne_nil (splitList_ne_nil sep cs)
    rw [h] at ih
    by_cases hc : c = sep
    · subst hc
      simp only [splitList, if_true, h, joinList, List.nil_append, List.singleton_append, ih]
    · rw [splitList_cons_of_ne hc h]
      cases pieces with
      | nil => simpa [joinList] using ih
      | cons next pieces => simpa [joinList] using ih

theorem not_mem_of_mem_splitList {sep : Char} : ∀ {cs piece : List Char}, piece ∈ splitList sep cs → sep ∉ piece
  | [], piece, h => by simp_all [splitList]
  | c :: cs, piece, h => by
    by_cases hc : c = sep
    · simp only [splitList, hc, if_true, List.mem_cons] at h
      rcases h with rfl | h
      · simp
      · exact not_mem_of_mem_splitList h
    · obtain ⟨first, pieces, hs⟩ := List.exists_cons_of_ne_nil (splitList_ne_nil sep cs)
      rw [splitList_cons_of_ne hc hs, List.mem_cons] at h
      rcases h with rfl | h
      · rw [List.mem_cons, not_or]
        exact ⟨Ne.symm hc, not_mem_of_mem_splitList (hs ▸ List.mem_cons_self)⟩
      · exact not_mem_of_mem_splitList (hs ▸ List.mem_cons_of_mem _ h)

theorem sublist_of_mem_splitList {sep : Char} : ∀ {cs piece : List Char}, piece ∈ splitList sep cs → piece.Sublist cs
  | [], piece, h => by simp_all [splitList]
  | c :: cs, piece, h => by
    by_cases hc : c = sep
    · simp only [splitList, hc, if_true, List.mem_cons] at h
      rcases h with rfl | h
      · exact List.nil_sublist _
      · exact (sublist_of_mem_splitList h).cons c
    · obtain ⟨first, pieces, hs⟩ := List.exists_cons_of_ne_nil (splitList_ne_nil sep cs)
      rw [splitList_cons_of_ne hc hs, List.mem_cons] at h
      rcases h with rfl | h
      · exact (sublist_of_mem_splitList (hs ▸ List.mem_cons_self)).cons_cons c
      · exact (sublist_of_mem_splitList (hs ▸ List.mem_cons_of_mem _ h)).cons c

/-- Nothing but separators is lost when a list is split. -/
theorem exists_mem_splitList {sep x : Char} (hx : x ≠ sep) : ∀ {cs : List Char}, x ∈ cs →
    ∃ piece ∈ splitList sep cs, x ∈ piece
  | c :: cs, h => by
    by_cases hc : c = sep
    · obtain ⟨piece, hpiece, hm⟩ := exists_mem_splitList hx ((List.mem_cons.1 h).resolve_left fun e => hx (e.trans hc))
      exact ⟨piece, by simp [splitList, hc, hpiece], hm⟩
    · obtain ⟨first, pieces, hs⟩ := List.exists_cons_of_ne_nil (splitList_ne_nil sep cs)
      rw [splitList_cons_of_ne hc hs]
      rcases List.mem_cons.1 h with rfl | h
      · exact ⟨_, List.mem_cons_self, List.mem_cons_self⟩
      · obtain ⟨piece, hpiece, hm⟩ := exists_mem_splitList hx h
        rw [hs] at hpiece
        rcases List.mem_cons.1 hpiece with rfl | hpiece
        · exact ⟨_, List.mem_cons_self, List.mem_cons_of_mem _ hm⟩
        · exact ⟨piece, List.mem_cons_of_mem _ hpiece, hm⟩

/-- Pieces after the first one stand behind a separator each. -/
theorem joinList_cons (sep piece : List Char) (pieces : List (List Char)) :
    joinList sep (piece :: pieces) = piece ++ pieces.flatMap (sep ++ ·) := by
  induction pieces generalizing piece with
  | nil => simp [joinList]
  | cons next pieces ih => rw [joinList, ih, List.flatMap_cons, List.append_assoc, List.append_assoc]

/-! ## Texts -/

theorem toList_join (sep : String) : ∀ pieces : List String,
    (join sep pieces).toList = joinList sep.toList (pieces.map String.toList)
  | [] => rfl
  | [piece] => rfl
  | piece :: next :: pieces => by
    simp only [join, String.toList_append, toList_join sep (next :: pieces), List.map_cons, joinList]

theorem join_append (sep last : String) : ∀ {pieces : List String}, pieces ≠ [] →
    join sep (pieces ++ [last]) = join sep pieces ++ sep ++ last
  | [piece], _ => by simp [join]
  | piece :: next :: pieces, _ => by
    have ih := join_append sep last (List.cons_ne_nil next pieces)
    simp only [List.cons_append, join] at ih ⊢
    rw [ih]
    simp only [String.append_assoc]

/-- **Splitting undoes joining**, if no piece holds the separator. -/
theorem split_join {sep : Char} {pieces : List String} (hne : pieces ≠ []) (h : ∀ piece ∈ pieces, sep ∉ piece.toList) :
    split sep (join (String.singleton sep) pieces) = pieces := by
  have hl : splitList sep (joinList [sep] (pieces.map String.toList)) = pieces.map String.toList :=
    splitList_joinList _ (by simpa using hne) (by simpa using h)
  rw [split, toList_join, String.toList_singleton, hl, List.map_map]
  simp [Function.comp_def]

/-- **Joining undoes splitting.** -/
theorem join_split (sep : Char) (s : String) : join (String.singleton sep) (split sep s) = s := by
  apply String.toList_inj.1
  rw [toList_join, split, List.map_map, String.toList_singleton]
  simp [Function.comp_def, joinList_splitList]

theorem split_of_not_mem {sep : Char} {s : String} (h : sep ∉ s.toList) : split sep s = [s] := by
  simp [split, splitList_of_not_mem h]

theorem not_mem_of_mem_split {sep : Char} {s piece : String} (h : piece ∈ split sep s) : sep ∉ piece.toList := by
  obtain ⟨cs, hcs, rfl⟩ := List.mem_map.1 h
  simpa using not_mem_of_mem_splitList hcs

theorem sublist_of_mem_split {sep : Char} {s piece : String} (h : piece ∈ split sep s) :
    piece.toList.Sublist s.toList := by
  obtain ⟨cs, hcs, rfl⟩ := List.mem_map.1 h
  rw [String.toList_ofList]
  exact sublist_of_mem_splitList hcs

theorem exists_mem_split {sep x : Char} {s : String} (hx : x ≠ sep) (h : x ∈ s.toList) :
    ∃ piece ∈ split sep s, x ∈ piece.toList := by
  obtain ⟨cs, hcs, hm⟩ := exists_mem_splitList hx h
  exact ⟨_, List.mem_map_of_mem hcs, by rwa [String.toList_ofList]⟩

theorem mem_of_mem_split {sep x : Char} {s piece : String} (h : piece ∈ split sep s) (hx : x ∈ piece.toList) :
    x ∈ s.toList := (sublist_of_mem_split h).subset hx

/-! ## The last separator -/

theorem mem_of_mem_splitLast_fst {sep x : Char} {s : String} (h : x ∈ (splitLast sep s).1.toList) : x ∈ s.toList := by
  simp only [splitLast, splitLastList, String.toList_ofList, List.mem_reverse] at h
  exact List.mem_reverse.1 ((List.dropWhile_sublist _).subset (List.mem_of_mem_drop h))

theorem mem_of_mem_splitLast_snd {sep x : Char} {s : String} (h : x ∈ (splitLast sep s).2.toList) : x ∈ s.toList := by
  simp only [splitLast, splitLastList, String.toList_ofList, List.mem_reverse] at h
  exact List.mem_reverse.1 ((List.takeWhile_sublist _).subset h)

theorem not_mem_splitLast_snd (sep : Char) (s : String) : sep ∉ (splitLast sep s).2.toList := by
  simp only [splitLast, splitLastList, String.toList_ofList, List.mem_reverse]
  intro h
  simpa using List.all_eq_true.1 (List.all_takeWhile (p := (· != sep)) (l := s.toList.reverse)) sep h

theorem bne_of_mem_reverse {sep : Char} {cs : List Char} (h : sep ∉ cs) : ∀ c ∈ cs.reverse, (c != sep) = true :=
  fun c hc => by simpa using fun he : c = sep => h (he ▸ List.mem_reverse.1 hc)

theorem splitLastList_append {sep : Char} {after : List Char} (h : sep ∉ after) (before : List Char) :
    splitLastList sep (before ++ sep :: after) = (before, after) := by
  have hne := bne_of_mem_reverse h
  have hreverse : (before ++ sep :: after).reverse = after.reverse ++ sep :: before.reverse := by simp
  rw [splitLastList, hreverse, List.dropWhile_append_of_pos hne, List.takeWhile_append_of_pos hne]
  simp

theorem splitLastList_of_not_mem {sep : Char} {cs : List Char} (h : sep ∉ cs) : splitLastList sep cs = ([], cs) := by
  have hne := bne_of_mem_reverse h
  have hdrop : (cs.reverse ++ []).dropWhile (· != sep) = [] := List.dropWhile_append_of_pos hne
  have htake : (cs.reverse ++ []).takeWhile (· != sep) = cs.reverse ++ [] := List.takeWhile_append_of_pos hne
  rw [List.append_nil] at hdrop htake
  rw [splitLastList, hdrop, htake]
  simp

/-- Every text is put together again from what stands before and after the last separator, if there is one. -/
theorem splitLast_cases (sep : Char) (s : String) : sep ∉ s.toList ∧ splitLast sep s = ("", s) ∨
    s = (splitLast sep s).1 ++ String.singleton sep ++ (splitLast sep s).2 := by
  by_cases h : sep ∈ s.toList
  · right
    obtain ⟨after, before, hs, hafter⟩ := List.eq_append_cons_of_mem (List.mem_reverse.2 h)
    have hs : s.toList = before.reverse ++ sep :: after.reverse := by
      rw [← List.reverse_reverse s.toList, hs]
      simp
    have hsplit : splitLastList sep s.toList = (before.reverse, after.reverse) := by
      rw [hs, splitLastList_append (by simpa using hafter)]
    simp only [splitLast, hsplit]
    rw [← String.toList_inj, hs]
    simp
  · refine Or.inl ⟨h, ?_⟩
    simp [splitLast, splitLastList_of_not_mem h]

/-- A text that does not begin with the separator is told by what stands before and after the last one. -/
theorem splitLast_inj {sep : Char} {s t : String} (hs : s.toList.head? ≠ some sep) (ht : t.toList.head? ≠ some sep)
    (h : splitLast sep s = splitLast sep t) : s = t := by
  have hstart {u v : String} (hu : u.toList.head? ≠ some sep)
      (heq : u = (splitLast sep u).1 ++ String.singleton sep ++ v) : (splitLast sep u).1 ≠ "" := by
    intro hempty
    rw [heq, hempty] at hu
    simp at hu
  rcases splitLast_cases sep s with ⟨-, hs'⟩ | hs' <;> rcases splitLast_cases sep t with ⟨-, ht'⟩ | ht'
  · exact congrArg Prod.snd (hs'.symm.trans (h.trans ht'))
  · exact absurd (congrArg Prod.fst (h.symm.trans hs')) (hstart ht ht')
  · exact absurd (congrArg Prod.fst (h.trans ht')) (hstart hs hs')
  · rw [hs', ht', h]

end SchemaDocs.Text
