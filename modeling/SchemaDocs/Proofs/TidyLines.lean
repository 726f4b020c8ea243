import SchemaDocs.Proofs.Quoting

/-!
# Tidy texts

No line of a tidy text ends in two carriage returns. Such texts stay tidy when they are put together, unless the second
one begins with a carriage return (`IsTidy.append`); behind a fixed text it may begin with one (`isNeat_fixed_append`).
Escaping and quoting keep texts tidy (`IsTidy.escapeMarkup`, `isTidy_blockQuote`).
-/

namespace SchemaDocs

namespace Text

/-- No line of the text ends in two carriage returns. -/
def IsTidy (s : String) : Prop := ∀ line ∈ lines s, ¬ ['\r', '\r'] <:+ line

/-- The text is tidy and does not begin with a carriage return, so it is tidy behind every tidy text. -/
def IsNeat (s : String) : Prop := IsTidy s ∧ s.toList.head? ≠ some '\r'

/-- The text is not empty and holds no carriage return. -/
def IsFixed (s : String) : Prop := s.toList ≠ [] ∧ '\r' ∉ s.toList

instance (s : String) : Decidable (IsTidy s) := inferInstanceAs (Decidable (∀ line ∈ lines s, ¬ ['\r', '\r'] <:+ line))

instance (s : String) : Decidable (IsNeat s) := inferInstanceAs (Decidable (IsTidy s ∧ s.toList.head? ≠ some '\r'))

instance (s : String) : Decidable (IsFixed s) := inferInstanceAs (Decidable (s.toList ≠ [] ∧ '\r' ∉ s.toList))

/-! ## Putting together -/

/-- Two carriage returns at the end of a line that goes on are in one of its parts, or one is in either part. -/
theorem suffix_append {last first : List Char} (h : ['\r', '\r'] <:+ last ++ first) :
    ['\r', '\r'] <:+ last ∨ ['\r', '\r'] <:+ first ∨ last.getLast? = some '\r' ∧ first = ['\r'] := by
  obtain ⟨front, h⟩ := h
  rcases List.eq_nil_or_concat first with rfl | ⟨before, c, rfl⟩
  · exact Or.inl ⟨front, by simpa using h⟩
  · rw [List.concat_eq_append, ← List.append_assoc, List.append_cons] at h
    obtain ⟨h, hc⟩ := List.append_inj' h rfl
    rw [List.concat_eq_append, ← (List.cons.inj hc).1]
    rcases List.eq_nil_or_concat before with rfl | ⟨before, d, rfl⟩
    · refine Or.inr (Or.inr ⟨?_, rfl⟩)
      rw [List.append_nil] at h
      rw [← h, List.getLast?_concat]
    · rw [List.concat_eq_append, ← List.append_assoc] at h
      obtain ⟨-, hd⟩ := List.append_inj' h rfl
      rw [List.concat_eq_append, ← (List.cons.inj hd).1]
      exact Or.inr (Or.inl ⟨before, by simp⟩)

/-- **Tidy texts are tidy when they are put together**, unless carriage returns meet. -/
theorem isTidy_append {s t : String} (hs : IsTidy s) (ht : IsTidy t)
    (h : s.toList.getLast? ≠ some '\r' ∨ t.toList.head? ≠ some '\r') : IsTidy (s ++ t) := by
  obtain ⟨front, last, hlast⟩ := exists_last_line s
  obtain ⟨first, back, hfirst⟩ := List.exists_cons_of_ne_nil (lines_ne_nil t)
  have hlines : lines (s ++ t) = front ++ (last ++ first) :: back := by
    rw [lines, String.toList_append]
    exact splitList_append_of_eq hlast hfirst
  intro line hline
  rw [hlines, List.mem_append, List.mem_cons] at hline
  rcases hline with hline | rfl | hline
  · exact hs line (by simp [hlast, hline])
  · intro hends
    rcases suffix_append hends with hends | hends | ⟨hend, hstart⟩
    · exact hs last (by simp [hlast]) hends
    · exact ht first (by simp [hfirst]) hends
    · obtain ⟨before, hbefore⟩ := suffix_of_splitList hlast
      obtain ⟨after, hafter⟩ := prefix_of_splitList hfirst
      obtain ⟨middle, hmiddle⟩ := List.getLast?_eq_some_iff.1 hend
      rcases h with h | h
      · apply h
        rw [← hbefore, hmiddle, ← List.append_assoc, List.getLast?_concat]
      · apply h
        rw [← hafter, hstart]
        rfl
  · exact ht line (by simp [hfirst, hline])

theorem IsTidy.append {s t : String} (hs : IsTidy s) (ht : IsNeat t) : IsTidy (s ++ t) :=
  isTidy_append hs ht.1 (Or.inr ht.2)

theorem IsNeat.append {s t : String} (hs : IsNeat s) (ht : IsNeat t) : IsNeat (s ++ t) := by
  refine ⟨hs.1.append ht, ?_⟩
  rw [String.toList_append]
  cases hchars : s.toList with
  | nil => exact ht.2
  | cons c cs => simpa [hchars] using hs.2

theorem IsFixed.isNeat {s : String} (h : IsFixed s) : IsNeat s := by
  constructor
  · intro line hline hends
    exact h.2 ((sublist_of_mem_splitList hline).subset (hends.subset List.mem_cons_self))
  · exact fun hhead => h.2 (List.mem_of_head? hhead)

/-- **A tidy text is neat behind a fixed one.** -/
theorem isNeat_fixed_append {c s : String} (hc : IsFixed c) (hs : IsTidy s) : IsNeat (c ++ s) := by
  refine ⟨isTidy_append hc.isNeat.1 hs (Or.inl fun h => hc.2 (List.mem_of_getLast? h)), ?_⟩
  rw [String.toList_append, List.head?_append_of_ne_nil _ hc.1]
  exact hc.isNeat.2

/-- A tidy text behind a fixed one that follows a neat one. -/
theorem IsNeat.behind {s c t : String} (hs : IsNeat s) (hc : IsFixed c) (ht : IsTidy t) : IsNeat (s ++ c ++ t) := by
  rw [String.append_assoc]
  exact hs.append (isNeat_fixed_append hc ht)

theorem isNeat_empty : IsNeat "" := by decide

theorem isNeat_ite {b : Bool} {s t : String} (hs : IsNeat s) (ht : IsNeat t) : IsNeat (if b then s else t) := by
  split
  · exact hs
  · exact ht

theorem isNeat_join_parts : ∀ {parts : List String}, (∀ part ∈ parts, IsNeat part) → IsNeat (String.join parts)
  | [], _ => isNeat_empty
  | part :: parts, h => by
    have hrest : IsNeat (String.join parts) := isNeat_join_parts fun p hp => h p (List.mem_cons_of_mem _ hp)
    simpa [String.join_cons] using (h part List.mem_cons_self).append hrest

/-! ## Escaping and quoting -/

theorem IsTidy.escapeMarkup {s : String} (h : IsTidy s) : IsTidy (escapeMarkup s) := by
  intro line hline
  rw [lines_escapeMarkup] at hline
  obtain ⟨original, horiginal, rfl⟩ := List.mem_map.1 hline
  rintro ⟨front, hfront⟩
  rw [List.append_cons] at hfront
  obtain ⟨before, rfl, hbefore⟩ := eq_concat_of_escape hfront.symm
  obtain ⟨start, rfl, -⟩ := eq_concat_of_escape hbefore
  exact h _ horiginal ⟨start, by simp⟩

end Text

namespace Markdown

open Text (IsTidy IsNeat)

theorem isTidy_freeText {escape : Bool} {s : String} (h : IsTidy s) : IsTidy (freeText escape s) := by
  rw [freeText]
  split
  · exact h.escapeMarkup
  · exact h

/-- **A block quote of a tidy text is tidy.** -/
theorem isTidy_blockQuote {s : String} (h : IsTidy s) : IsTidy (blockQuote s) := by
  intro line hline
  rw [lines_blockQuote] at hline
  obtain ⟨original, horiginal, rfl⟩ := List.mem_map.1 hline
  cases original with
  | nil => decide
  | cons c rest =>
    intro hends
    have hmarks : quoteLine (c :: rest) = ['>', ' '] ++ c :: rest := rfl
    rw [hmarks] at hends
    rcases Text.suffix_append hends with hends | hends | ⟨hend, -⟩
    · exact absurd hends (by decide)
    · exact h _ horiginal hends
    · exact absurd hend (by decide)

theorem isTidy_joinBlocks : ∀ {blocks : List String}, (∀ block ∈ blocks, IsTidy block) → IsTidy (joinBlocks blocks)
  | [], _ => Text.isNeat_empty.1
  | [only], h => h only List.mem_cons_self
  | first :: next :: blocks, h => by
    have hrest := isTidy_joinBlocks fun block hblock => h block (List.mem_cons_of_mem first hblock)
    have hjoin : joinBlocks (first :: next :: blocks) = first ++ ("\n\n" ++ joinBlocks (next :: blocks)) :=
      String.append_assoc
    rw [hjoin]
    exact (h first List.mem_cons_self).append (Text.isNeat_fixed_append (by decide) hrest)

end Markdown

end SchemaDocs
