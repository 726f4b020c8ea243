import SchemaDocs.Proofs.LineEnds
import SchemaDocs.Proofs.RelativePaths

/-!
# Lines

The lines of a text are its pieces between line feeds. Where two texts meet, the last line of the one goes on with the
first line of the other, and all other lines stay as they are (`splitList_append_of_eq`). Escaping a text escapes its
lines one by one (`splitList_escape`), and a line that ends in a carriage return ends in one when it is escaped, and
only then (`eq_concat_of_escape`).
-/

namespace SchemaDocs

namespace Text

def lines (s : String) : List (List Char) := splitList '\n' s.toList

theorem lines_ne_nil (s : String) : lines s ≠ [] := splitList_ne_nil _ _

/-- There is a last piece, and so there is a last line. -/
theorem exists_last_piece (sep : Char) (cs : List Char) : ∃ front last, splitList sep cs = front ++ [last] :=
  ⟨_, _, (List.dropLast_concat_getLast (splitList_ne_nil sep cs)).symm⟩

theorem exists_last_line (s : String) : ∃ front last, lines s = front ++ [last] := exists_last_piece _ _

theorem joinList_lines (s : String) : String.ofList (joinList ['\n'] (lines s)) = s := by
  rw [lines, joinList_splitList, String.ofList_toList]

theorem joinList_append (sep last first : List Char) (front back : List (List Char)) :
    joinList sep (front ++ [last]) ++ joinList sep (first :: back) =
      joinList sep (front ++ (last ++ first) :: back) := by
  cases front with
  | nil => simp [joinList_cons]
  | cons piece front => simp [joinList_cons]

/-- **Where two texts meet, one line goes on.** -/
theorem splitList_append_of_eq {sep : Char} {cs ds last first : List Char} {front back : List (List Char)}
    (hcs : splitList sep cs = front ++ [last]) (hds : splitList sep ds = first :: back) :
    splitList sep (cs ++ ds) = front ++ (last ++ first) :: back := by
  have hpieces : ∀ piece ∈ front ++ (last ++ first) :: back, sep ∉ piece := by
    have hfront : ∀ piece ∈ front ++ [last], sep ∉ piece := fun piece h => not_mem_of_mem_splitList (hcs ▸ h)
    have hback : ∀ piece ∈ first :: back, sep ∉ piece := fun piece h => not_mem_of_mem_splitList (hds ▸ h)
    simp only [List.forall_mem_append, List.forall_mem_cons] at hfront hback ⊢
    exact ⟨hfront.1, by simp [hfront.2, hback.1], hback.2⟩
  rw [← joinList_splitList sep cs, ← joinList_splitList sep ds, hcs, hds, joinList_append,
    splitList_joinList _ (by simp) hpieces]

/-- The first line is at the start of a text. -/
theorem prefix_of_splitList {sep : Char} {cs first : List Char} {back : List (List Char)}
    (h : splitList sep cs = first :: back) : first <+: cs := by
  rw [← joinList_splitList sep cs, h, joinList_cons]
  exact List.prefix_append _ _

/-- The last line is at the end of a text. -/
theorem suffix_of_splitList {sep : Char} {cs last : List Char} {front : List (List Char)}
    (h : splitList sep cs = front ++ [last]) : last <:+ cs := by
  rw [← joinList_splitList sep cs, h]
  exact ⟨joinList [sep] (front ++ [[]]), joinList_append [sep] [] last front []⟩

/-- The lines around a blank line. -/
theorem lines_append_blank (s t : String) : lines (s ++ "\n\n" ++ t) = lines s ++ [] :: lines t := by
  have hbreak : (s ++ "\n\n" ++ t).toList = s.toList ++ '\n' :: ([] ++ '\n' :: t.toList) := by simp
  rw [lines, hbreak, splitList_append, splitList_append]
  rfl

/-! ## Escaped lines -/

theorem not_mem_escapeMarkupChar {c : Char} (h : c ≠ '\n') : '\n' ∉ escapeMarkupChar c := by
  rw [escapeMarkupChar]
  repeat' split
  all_goals simp [Ne.symm h]

/-- **A text is escaped line by line.** -/
theorem splitList_escape (cs : List Char) : splitList '\n' (cs.flatMap escapeMarkupChar) =
    (splitList '\n' cs).map (·.flatMap escapeMarkupChar) := by
  induction cs with
  | nil => rfl
  | cons c cs ih =>
    rw [List.flatMap_cons]
    by_cases hc : c = '\n'
    · subst hc
      have hfeed : escapeMarkupChar '\n' ++ cs.flatMap escapeMarkupChar = '\n' :: cs.flatMap escapeMarkupChar := rfl
      rw [hfeed, splitList, if_pos rfl, splitList, if_pos rfl, ih]
      rfl
    · obtain ⟨piece, pieces, hs⟩ := List.exists_cons_of_ne_nil (splitList_ne_nil '\n' cs)
      rw [hs, List.map_cons] at ih
      have hfront : splitList '\n' (escapeMarkupChar c) = [] ++ [escapeMarkupChar c] :=
        splitList_of_not_mem (not_mem_escapeMarkupChar hc)
      rw [splitList_append_of_eq hfront ih, splitList_cons_of_ne hc hs]
      rfl

theorem lines_escapeMarkup (s : String) :
    lines (escapeMarkup s) = (lines s).map (·.flatMap escapeMarkupChar) := by
  rw [lines, escapeMarkup, String.toList_ofList, splitList_escape, lines]

/-- Only a carriage return at the end of a line is one at the end of the escaped line. -/
theorem eq_concat_of_escape {cs front : List Char} (h : cs.flatMap escapeMarkupChar = front ++ ['\r']) :
    ∃ before, cs = before ++ ['\r'] ∧ before.flatMap escapeMarkupChar = front := by
  rcases List.eq_nil_or_concat cs with rfl | ⟨before, c, rfl⟩
  · simp at h
  · rw [List.concat_eq_append, List.flatMap_append, List.flatMap_singleton] at h
    by_cases hc : c = '\r'
    · subst hc
      exact ⟨before, List.concat_eq_append, (List.append_inj' h rfl).1⟩
    · obtain ⟨reference, d, hd⟩ := (List.eq_nil_or_concat (escapeMarkupChar c)).resolve_left (escapeMarkupChar_ne_nil c)
      rw [List.concat_eq_append] at hd
      rw [hd, ← List.append_assoc] at h
      have hlast := (List.cons.inj (List.append_inj' h rfl).2).1
      exact absurd (by simp [hd, hlast]) (return_not_mem_escapeMarkupChar hc)

end Text

end SchemaDocs
