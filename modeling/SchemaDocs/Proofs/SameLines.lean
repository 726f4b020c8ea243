import SchemaDocs.Document.Page
import SchemaDocs.Proofs.LineFeeds
import SchemaDocs.Proofs.TidyLines
import SchemaDocs.Proofs.UniformEnds

/-!
# Texts with the same lines

Two texts are alike if line by line they are the same but for a carriage return at the end of a line that is not the
last one. A line that is nothing but a carriage return is like a blank one, but is no longer so in a block quote: there
it is quoted as a text, and the blank one is not, which leaves a space more. So two numbers go with texts that are alike
(`SameLines`): how many lines are blank in one of them only, and how many have been quoted as such. Quoting adds the
first number to the second one (`sameLines_blockQuote`), and the line ends of the texts are settled to the same text
exactly if the second number is zero (`SameLines.unifyLineEnds_eq_iff`).
-/

namespace SchemaDocs

/-! ## Lists -/

/-- The elements of the lists are in a relation one by one, and the numbers are the sums of those in the relations. -/
inductive Tallied {α : Type} (R : Nat → Nat → α → α → Prop) : Nat → Nat → List α → List α → Prop
  | nil : Tallied R 0 0 [] []
  | cons {i j m n : Nat} {x y : α} {xs ys : List α} (head : R i j x y) (tail : Tallied R m n xs ys) :
    Tallied R (i + m) (j + n) (x :: xs) (y :: ys)

namespace Tallied

variable {α β : Type} {R : Nat → Nat → α → α → Prop} {i j m n : Nat} {xs ys xs' ys' : List α}

theorem append (h : Tallied R i j xs ys) (h' : Tallied R m n xs' ys') :
    Tallied R (i + m) (j + n) (xs ++ xs') (ys ++ ys') := by
  induction h with
  | nil => simpa using h'
  | cons head _ ih =>
    rw [Nat.add_assoc, Nat.add_assoc]
    exact .cons head ih

theorem same (h : ∀ x, R 0 0 x x) : ∀ xs, Tallied R 0 0 xs xs
  | [] => .nil
  | x :: xs => .cons (h x) (same h xs)

theorem one {x y : α} (h : R i j x y) : Tallied R i j [x] [y] := .cons h .nil

end Tallied

namespace Text

/-- How a line of a text is like a line of another one: whether one of them is blank and the other one nothing but a
carriage return, and whether that is what they quote. -/
inductive SameLine : Nat → Nat → List Char → List Char → Prop
  | same (line : List Char) : SameLine 0 0 line line
  | ended {line : List Char} (text : line ≠ []) (single : line.getLast? ≠ some '\r') :
    SameLine 0 0 (line ++ ['\r']) line
  | blank : SameLine 1 0 ['\r'] []
  | quoted (marks : List Char) : SameLine 0 1 (marks ++ ['>', ' ', '\r']) (marks ++ ['>'])

/-- The last lines of the texts are the same, and all other lines are alike. -/
def SameLines (blanks quoted : Nat) (s t : String) : Prop :=
  ∃ front front' last, lines s = front ++ [last] ∧ lines t = front' ++ [last] ∧
    Tallied SameLine blanks quoted front front'

/-- How many lines of a text are blank but for the carriage return in front of the line feed. -/
def returnLines (s : String) : Nat := (lines s).dropLast.count ['\r']

variable {blanks quoted : Nat} {s t : String}

theorem sameLines_refl (s : String) : SameLines 0 0 s s := by
  obtain ⟨front, last, hs⟩ := exists_last_line s
  exact ⟨front, front, last, hs, hs, .same .same front⟩

/-! ## Line ends -/

theorem joinList_ended (front : List (List Char)) (last : List Char) :
    joinList ['\n'] (front ++ [last]) = front.flatMap (· ++ ['\n']) ++ last := by
  induction front with
  | nil => rfl
  | cons line front ih =>
    have hjoin : joinList ['\n'] (line :: front ++ [last]) = line ++ ['\n'] ++ joinList ['\n'] (front ++ [last]) := by
      cases front <;> simp [joinList]
    rw [hjoin, ih, List.flatMap_cons, List.append_assoc (line ++ ['\n'])]

/-- **The ends of lines are settled one by one.** -/
theorem unifyLineEndsList_joinList (front : List (List Char)) (last : List Char) :
    unifyLineEndsList (joinList ['\n'] (front ++ [last])) =
      front.flatMap (fun line => unifyLineEndsList (line ++ ['\n'])) ++ unifyLineEndsList last := by
  rw [joinList_ended]
  induction front with
  | nil => rfl
  | cons line front ih =>
    rw [List.flatMap_cons, List.append_assoc, unifyLineEndsList_append (.inl (by simp)), ih, List.flatMap_cons,
      List.append_assoc]

def dropReturn (line : List Char) : List Char := if line.getLast? = some '\r' then line.dropLast else line

theorem dropReturn_of_ne {line : List Char} (h : line.getLast? ≠ some '\r') : dropReturn line = line := if_neg h

@[simp]
theorem dropReturn_concat (line : List Char) : dropReturn (line ++ ['\r']) = line := by
  rw [dropReturn, List.getLast?_concat, if_pos rfl, List.dropLast_concat]

theorem unifyLineEndsList_line {line : List Char} (h : ¬ ['\r', '\n'] <:+: line) :
    unifyLineEndsList (line ++ ['\n']) = dropReturn line ++ ['\n'] := by
  by_cases hlast : line.getLast? = some '\r'
  · obtain ⟨front, rfl⟩ := List.getLast?_eq_some_iff.1 hlast
    have hfront : unifyLineEndsList front = front :=
      unifyLineEndsList_eq_self.2 fun hpair => h (hpair.trans (List.prefix_append _ _).isInfix)
    rw [dropReturn_concat, List.append_assoc, List.singleton_append, unifyLineEndsList_append_pair, hfront]
  · rw [dropReturn_of_ne hlast, unifyLineEndsList_append (.inl hlast), unifyLineEndsList_eq_self.2 h,
      unifyLineEndsList_singleton]

/-- The ends of lines that are alike are settled to the same, unless the lines quote a blank one. -/
theorem SameLine.settled {i j : Nat} {line line' : List Char} (h : SameLine i j line line') :
    (unifyLineEndsList (line ++ ['\n'])).length = (unifyLineEndsList (line' ++ ['\n'])).length + j ∧
      (j = 0 → unifyLineEndsList (line ++ ['\n']) = unifyLineEndsList (line' ++ ['\n'])) := by
  cases h with
  | same => exact ⟨rfl, fun _ => rfl⟩
  | ended text single =>
    have hsettled : unifyLineEndsList (line' ++ ['\r'] ++ ['\n']) = unifyLineEndsList (line' ++ ['\n']) := by
      rw [List.append_assoc, List.singleton_append, unifyLineEndsList_append_pair,
        unifyLineEndsList_append (.inl single), unifyLineEndsList_singleton]
    rw [hsettled]
    exact ⟨rfl, fun _ => rfl⟩
  | blank => exact ⟨rfl, fun _ => rfl⟩
  | quoted marks =>
    have hmark (cs : List Char) :
        unifyLineEndsList (marks ++ ('>' :: cs)) = unifyLineEndsList marks ++ unifyLineEndsList ('>' :: cs) :=
      unifyLineEndsList_append (.inr (by simp))
    simp only [List.append_assoc, List.cons_append, List.nil_append, hmark]
    exact ⟨by simp [unifyLineEndsList], by simp⟩

/-- **Texts that are alike have the same line ends when these are settled**, unless blank lines have been quoted. -/
theorem SameLines.unifyLineEnds_eq_iff (h : SameLines blanks quoted s t) :
    unifyLineEnds s = unifyLineEnds t ↔ quoted = 0 := by
  obtain ⟨front, front', last, hs, ht, hfront⟩ := h
  have hlines : ∀ {i j : Nat} {ls ls' : List (List Char)}, Tallied SameLine i j ls ls' →
      (ls.flatMap fun line => unifyLineEndsList (line ++ ['\n'])).length =
          (ls'.flatMap fun line => unifyLineEndsList (line ++ ['\n'])).length + j ∧
        (j = 0 → (ls.flatMap fun line => unifyLineEndsList (line ++ ['\n'])) =
          ls'.flatMap fun line => unifyLineEndsList (line ++ ['\n'])) := by
    intro i j ls ls' h
    induction h with
    | nil => exact ⟨rfl, fun _ => rfl⟩
    | cons head _ ih =>
      obtain ⟨hlength, heq⟩ := head.settled
      simp only [List.flatMap_cons, List.length_append]
      refine ⟨by omega, fun hzero => ?_⟩
      rw [heq (by omega), ih.2 (by omega)]
  obtain ⟨hlength, heq⟩ := hlines hfront
  rw [← joinList_lines s, ← joinList_lines t, hs, ht, unifyLineEnds, unifyLineEnds, String.ofList_inj,
    String.toList_ofList, String.toList_ofList, unifyLineEndsList_joinList, unifyLineEndsList_joinList,
    List.append_cancel_right_eq]
  exact ⟨fun h => by rw [h] at hlength; omega, heq⟩

/-! ## A text with line feeds -/

/-- A line that does not end in two carriage returns is like the one without any. -/
theorem sameLine_dropReturn {line : List Char} (htidy : ¬ ['\r', '\r'] <:+ line) :
    SameLine (if line = ['\r'] then 1 else 0) 0 line (dropReturn line) := by
  by_cases hlast : line.getLast? = some '\r'
  · obtain ⟨front, rfl⟩ := List.getLast?_eq_some_iff.1 hlast
    rw [dropReturn_concat]
    rcases eq_or_ne front [] with rfl | hfront
    · exact .blank
    · have hline : front ++ ['\r'] ≠ ['\r'] := by simpa using hfront
      rw [if_neg hline]
      refine .ended hfront fun hfront => ?_
      obtain ⟨start, rfl⟩ := List.getLast?_eq_some_iff.1 hfront
      exact htidy ⟨start, by simp⟩
  · have hline : line ≠ ['\r'] := by
      rintro rfl
      exact hlast rfl
    rw [if_neg hline, dropReturn_of_ne hlast]
    exact .same line

/-- **A tidy text is like the one with line feeds for its line ends**, with as many blank lines as have a carriage
return in front of the line feed. -/
theorem sameLines_unifyLineEnds (h : IsTidy s) : SameLines (returnLines s) 0 s (unifyLineEnds s) := by
  obtain ⟨front, last, hs⟩ := exists_last_line s
  have hfeed : ∀ line ∈ front ++ [last], '\n' ∉ line := by
    rw [← hs]
    exact fun line hline => not_mem_of_mem_splitList hline
  rw [List.forall_mem_append, List.forall_mem_singleton] at hfeed
  have hpair {line : List Char} (hline : '\n' ∉ line) : ¬ ['\r', '\n'] <:+: line :=
    fun hpair => hline (hpair.subset (by simp))
  have hmap : front.flatMap (fun line => unifyLineEndsList (line ++ ['\n'])) =
      (front.map dropReturn).flatMap (· ++ ['\n']) := by
    rw [List.flatMap_map, List.flatMap_def, List.flatMap_def]
    exact congrArg List.flatten (List.map_congr_left fun line hline =>
      unifyLineEndsList_line (hpair (hfeed.1 line hline)))
  have hdropped : ∀ line ∈ front.map dropReturn ++ [last], '\n' ∉ line := by
    rw [List.forall_mem_append, List.forall_mem_map, List.forall_mem_singleton]
    refine ⟨fun line hline hm => hfeed.1 line hline ?_, hfeed.2⟩
    rw [dropReturn] at hm
    split at hm
    · exact (List.dropLast_sublist line).subset hm
    · exact hm
  refine ⟨front, front.map dropReturn, last, hs, ?_, ?_⟩
  · rw [lines, unifyLineEnds, String.toList_ofList, ← joinList_splitList '\n' s.toList, ← lines, hs,
      unifyLineEndsList_joinList, hmap, unifyLineEndsList_eq_self.2 (hpair hfeed.2), ← joinList_ended,
      splitList_joinList _ (by simp) hdropped]
  · have htidy : ∀ line ∈ front, ¬ ['\r', '\r'] <:+ line := fun line hline => h line (by simp [hs, hline])
    rw [returnLines, hs, List.dropLast_concat]
    clear hs hfeed hmap hdropped h
    induction front with
    | nil => exact .nil
    | cons line front ih =>
      rw [List.forall_mem_cons] at htidy
      have hline : SameLine _ 0 line (dropReturn line) := sameLine_dropReturn htidy.1
      have hcount : (line :: front).count ['\r'] = (if line = ['\r'] then 1 else 0) + front.count ['\r'] := by
        rw [List.count_cons, Nat.add_comm]
        simp
      rw [hcount]
      exact .cons hline (ih htidy.2)

end Text

/-! ## Quoting and putting together -/

namespace Markdown

open Text (SameLines SameLine lines)

variable {blanks quoted : Nat} {s t : String}

theorem sameLine_quoteLine {i j : Nat} {line line' : List Char} (h : SameLine i j line line') :
    SameLine 0 (i + j) (quoteLine line) (quoteLine line') := by
  have hquote {line : List Char} (hline : line ≠ []) : quoteLine line = '>' :: ' ' :: line := by
    simpa [quoteLine] using hline
  cases h with
  | same => exact .same _
  | ended text single =>
    rw [hquote text, hquote (by simp)]
    have hlast : ('>' :: ' ' :: line').getLast? ≠ some '\r' := by
      rwa [List.getLast?_cons_of_ne_nil (by simp), List.getLast?_cons_of_ne_nil text]
    exact .ended (by simp) hlast
  | blank => exact .quoted []
  | quoted marks =>
    rw [hquote (by simp), hquote (by simp)]
    exact .quoted ('>' :: ' ' :: marks)

/-- **In block quotes of texts that are alike all blank lines have been quoted.** -/
theorem sameLines_blockQuote (h : SameLines blanks quoted s t) :
    SameLines 0 (blanks + quoted) (blockQuote s) (blockQuote t) := by
  obtain ⟨front, front', last, hs, ht, hfront⟩ := h
  refine ⟨front.map quoteLine, front'.map quoteLine, quoteLine last, by simp [lines_blockQuote, hs],
    by simp [lines_blockQuote, ht], ?_⟩
  clear hs ht
  induction hfront with
  | nil => exact .nil
  | @cons i j m n line line' ls ls' head _ ih =>
    rw [Nat.add_add_add_comm]
    exact .cons (sameLine_quoteLine head) ih

/-- **Blocks that are alike make texts that are alike.** -/
theorem sameLines_joinBlocks {blocks blocks' : List String} (h : Tallied SameLines blanks quoted blocks blocks') :
    SameLines blanks quoted (joinBlocks blocks) (joinBlocks blocks') := by
  induction h with
  | nil => exact Text.sameLines_refl _
  | @cons i j m n block block' rest rest' head tail ih =>
    cases tail with
    | nil => exact head
    | @cons _ _ _ _ next next' rest rest' =>
      obtain ⟨front, front', last, hs, ht, hfront⟩ := head
      obtain ⟨back, back', last', hback, hback', hrest⟩ := ih
      have hjoin (block next : String) (rest : List String) : lines (joinBlocks (block :: next :: rest)) =
          lines block ++ [] :: lines (joinBlocks (next :: rest)) := Text.lines_append_blank block _
      refine ⟨front ++ [last, []] ++ back, front' ++ [last, []] ++ back', last', by simp [hjoin, hs, hback],
        by simp [hjoin, ht, hback'], ?_⟩
      exact (hfront.append (.same .same _)).append hrest

end Markdown

namespace Text

/-- Texts that are empty or end with a line feed, and all lines of which are alike. -/
def SameClosed (quoted : Nat) (s t : String) : Prop :=
  ∃ blanks front front', lines s = front ++ [[]] ∧ lines t = front' ++ [[]] ∧
    Tallied SameLine blanks quoted front front'

namespace SameClosed

variable {quoted quoted' : Nat} {s t s' t' : String}

theorem unifyLineEnds_eq_iff (h : SameClosed quoted s t) : unifyLineEnds s = unifyLineEnds t ↔ quoted = 0 := by
  obtain ⟨blanks, front, front', hs, ht, hfront⟩ := h
  exact SameLines.unifyLineEnds_eq_iff ⟨front, front', [], hs, ht, hfront⟩

theorem empty : SameClosed 0 "" "" := ⟨0, [], [], rfl, rfl, .nil⟩

/-- **Texts with a line feed at their ends are put together line by line.** -/
theorem append (h : SameClosed quoted s t) (h' : SameClosed quoted' s' t') :
    SameClosed (quoted + quoted') (s ++ s') (t ++ t') := by
  obtain ⟨blanks, front, front', hs, ht, hfront⟩ := h
  obtain ⟨blanks', back, back', hs', ht', hback⟩ := h'
  have hlines {s s' : String} {front back : List (List Char)} (hs : lines s = front ++ [[]])
      (hs' : lines s' = back ++ [[]]) : lines (s ++ s') = front ++ back ++ [[]] := by
    obtain ⟨first, rest, hrest⟩ := List.exists_cons_of_ne_nil (lines_ne_nil s')
    rw [lines, String.toList_append, splitList_append_of_eq hs hrest, List.nil_append, ← hrest, hs', List.append_assoc]
  exact ⟨_, front ++ back, front' ++ back', hlines hs hs', hlines ht ht', hfront.append hback⟩

end SameClosed

theorem lines_append_feed (s : String) : lines (s ++ "\n") = lines s ++ [[]] := by
  have hfeed : (s ++ "\n").toList = s.toList ++ '\n' :: [] := by simp
  rw [lines, hfeed, splitList_append]
  rfl

theorem sameClosed_line (s : String) : SameClosed 0 (s ++ "\n") (s ++ "\n") :=
  ⟨0, lines s, lines s, lines_append_feed s, lines_append_feed s, .same .same _⟩

end Text

namespace Markdown

open Text (SameLines SameClosed lines)

variable {blanks quoted : Nat}

theorem sameClosed_paragraph {s t : String} (h : SameLines blanks quoted s t) :
    SameClosed quoted (paragraph s) (paragraph t) := by
  obtain ⟨front, front', last, hs, ht, hfront⟩ := h
  have hlines {s : String} {front : List (List Char)} (hs : lines s = front ++ [last]) :
      lines (paragraph s) = [] :: (front ++ [last]) ++ [[]] := by
    rw [paragraph, Text.lines_append_feed, ← hs]
    simp [lines, Text.splitList]
  have hlast : Tallied Text.SameLine 0 0 [last] [last] := .same .same _
  have hparagraph : Tallied Text.SameLine (0 + blanks + 0) (0 + quoted + 0) _ _ :=
    .append (.cons (.same []) hfront) hlast
  rw [Nat.zero_add, Nat.zero_add, Nat.add_zero, Nat.add_zero] at hparagraph
  exact ⟨blanks, _, _, hlines hs, hlines ht, hparagraph⟩

/-- A section of paragraphs that are alike, if there are any. -/
theorem sameClosed_titled (title : String) {texts texts' : List String}
    (h : Tallied SameLines blanks quoted texts texts') :
    SameClosed quoted (titled title (texts.map paragraph)) (titled title (texts'.map paragraph)) := by
  have hjoin : SameClosed quoted (String.join (texts.map paragraph)) (String.join (texts'.map paragraph)) := by
    induction h with
    | nil => exact .empty
    | cons head _ ih =>
      rw [List.map_cons, List.map_cons, String.join_cons, String.join_cons]
      exact (sameClosed_paragraph head).append ih
  cases h with
  | nil => exact .empty
  | cons head tail =>
    have htitle := (sameClosed_paragraph (Text.sameLines_refl title)).append hjoin
    rwa [Nat.zero_add] at htitle

end Markdown

end SchemaDocs
