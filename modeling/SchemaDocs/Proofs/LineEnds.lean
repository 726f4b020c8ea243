import SchemaDocs.Platform
import SchemaDocs.Text.Escape

/-!
# Line ends

Line ends are settled on the finished text of a document. Its parts can be settled one by one nevertheless, as long as
no line end is cut in two: a carriage return at the end of one part and a line feed at the start of the next
(`lineEnds_append`). The references that stand for characters in markup hold no line ends, so it makes no difference
whether a text is escaped first or its line ends are settled first (`lineEnds_escape`).
-/

namespace SchemaDocs

namespace Text

/-- No line end lies across the seam of the two lists. -/
def Seamless (front back : List Char) : Prop := front.getLast? ≠ some '\r' ∨ back.head? ≠ some '\n'

theorem unifyLineEndsList_cons {c : Char} (h : c ≠ '\r') (cs : List Char) :
    unifyLineEndsList (c :: cs) = c :: unifyLineEndsList cs := by
  rw [unifyLineEndsList]
  rintro rest rfl
  exact absurd rfl h

theorem unifyLineEndsList_return {cs : List Char} (h : cs.head? ≠ some '\n') :
    unifyLineEndsList ('\r' :: cs) = '\r' :: unifyLineEndsList cs := by
  rw [unifyLineEndsList]
  rintro rest - rfl
  exact h rfl

theorem Seamless.of_cons {c : Char} {front back : List Char} (h : Seamless (c :: front) back) (hf : front ≠ []) :
    Seamless front back := by
  rwa [Seamless, List.getLast?_cons_of_ne_nil hf] at h

theorem unifyLineEndsList_append {front back : List Char} (h : Seamless front back) :
    unifyLineEndsList (front ++ back) = unifyLineEndsList front ++ unifyLineEndsList back := by
  induction front using unifyLineEndsList.induct with
  | case1 => rfl
  | case2 rest ih =>
    have hrest : Seamless rest back := by
      cases rest with
      | nil => exact .inl (by simp)
      | cons c rest => exact (h.of_cons (by simp)).of_cons (by simp)
    simp only [List.cons_append, unifyLineEndsList, ih hrest]
  | case3 c rest hpair ih =>
    have hrest : Seamless rest back := by
      cases rest with
      | nil => exact .inl (by simp)
      | cons d rest => exact h.of_cons (by simp)
    by_cases hc : c = '\r'
    · subst hc
      have hback : (rest ++ back).head? ≠ some '\n' := by
        cases rest with
        | nil => simpa [Seamless] using h
        | cons d rest =>
          rintro heq
          simp only [List.cons_append, List.head?_cons, Option.some.injEq] at heq
          exact hpair rest rfl (by rw [heq])
      rw [List.cons_append, unifyLineEndsList_return hback, ih hrest,
        unifyLineEndsList_return (fun heq => by
          obtain ⟨tail, rfl⟩ := List.head?_eq_some_iff.1 heq
          exact hpair tail rfl rfl), List.cons_append]
    · rw [List.cons_append, unifyLineEndsList_cons hc, unifyLineEndsList_cons hc, ih hrest, List.cons_append]

theorem unifyLineEndsList_of_not_mem {cs : List Char} (h : '\r' ∉ cs) : unifyLineEndsList cs = cs := by
  induction cs with
  | nil => rfl
  | cons c cs ih =>
    rw [List.mem_cons, not_or] at h
    rw [unifyLineEndsList_cons (Ne.symm h.1), ih h.2]

theorem pairLineEndsList_of_not_mem {cs : List Char} (h : '\n' ∉ cs) : pairLineEndsList cs = cs := by
  induction cs with
  | nil => rfl
  | cons c cs ih =>
    rw [List.mem_cons, not_or] at h
    rw [pairLineEndsList, List.flatMap_cons, if_neg (Ne.symm h.1)]
    exact congrArg (c :: ·) (ih h.2)

/-! ## References -/

/-- Only a carriage return is written with one. -/
theorem return_not_mem_escapeMarkupChar {c : Char} (h : c ≠ '\r') : '\r' ∉ escapeMarkupChar c := by
  rw [escapeMarkupChar]
  repeat' split
  all_goals simp [Ne.symm h]

/-- Only a line feed is written with one in front. -/
theorem head?_escapeMarkupChar {c : Char} (h : c ≠ '\n') : (escapeMarkupChar c).head? ≠ some '\n' := by
  rw [escapeMarkupChar]
  repeat' split
  all_goals simp [h]

theorem escapeMarkupChar_ne_nil (c : Char) : escapeMarkupChar c ≠ [] := by
  rw [escapeMarkupChar]
  repeat' split
  all_goals simp

theorem unifyLineEndsList_escape (cs : List Char) :
    unifyLineEndsList (cs.flatMap escapeMarkupChar) = (unifyLineEndsList cs).flatMap escapeMarkupChar := by
  induction cs using unifyLineEndsList.induct with
  | case1 => rfl
  | case2 rest ih => simpa [escapeMarkupChar, unifyLineEndsList] using ih
  | case3 c rest hpair ih =>
    rw [unifyLineEndsList]
    · by_cases hc : c = '\r'
      · subst hc
        have hhead : (rest.flatMap escapeMarkupChar).head? ≠ some '\n' := by
          cases rest with
          | nil => simp
          | cons d rest =>
            obtain ⟨e, es, he⟩ := List.exists_cons_of_ne_nil (escapeMarkupChar_ne_nil d)
            have hd := head?_escapeMarkupChar (c := d) fun hd => hpair rest rfl (by rw [hd])
            rw [he, List.head?_cons] at hd
            rwa [List.flatMap_cons, he, List.cons_append, List.head?_cons]
        simp only [List.flatMap_cons, ← ih]
        exact unifyLineEndsList_return hhead
      · have hlast : '\r' ∉ escapeMarkupChar c := return_not_mem_escapeMarkupChar hc
        rw [List.flatMap_cons, List.flatMap_cons,
          unifyLineEndsList_append (.inl fun h => hlast (List.mem_of_getLast? h)),
          unifyLineEndsList_of_not_mem hlast, ih]
    · exact hpair

theorem pairLineEndsList_escape (cs : List Char) :
    pairLineEndsList (cs.flatMap escapeMarkupChar) = (pairLineEndsList cs).flatMap escapeMarkupChar := by
  simp only [pairLineEndsList, List.flatMap_assoc]
  congr 1
  funext c
  simp only [escapeMarkupChar]
  repeat' split
  all_goals simp_all [escapeMarkupChar]

end Text

namespace Platform

open Text (Seamless escapeMarkupChar)

def lineEnds (p : Platform) (cs : List Char) : List Char :=
  match p with
  | .unix => Text.unifyLineEndsList cs
  | .windows => Text.pairLineEndsList (Text.unifyLineEndsList cs)

variable (p : Platform)

theorem toList_withLineEnds (s : String) : (p.withLineEnds s).toList = p.lineEnds s.toList := by
  cases p <;> simp [withLineEnds, lineEnds, Text.unifyLineEnds, Text.pairLineEnds]

@[simp]
theorem lineEnds_nil : p.lineEnds [] = [] := by cases p <;> rfl

/-- **The line ends of the parts of a text are settled one by one**, unless one lies across the seam. -/
theorem lineEnds_append {front back : List Char} (h : Seamless front back) :
    p.lineEnds (front ++ back) = p.lineEnds front ++ p.lineEnds back := by
  cases p <;> simp only [lineEnds, Text.unifyLineEndsList_append h, Text.pairLineEndsList, List.flatMap_append]

/-- A text that is escaped has the line ends that it has unescaped. -/
theorem lineEnds_escape (cs : List Char) :
    p.lineEnds (cs.flatMap escapeMarkupChar) = (p.lineEnds cs).flatMap escapeMarkupChar := by
  cases p <;> simp only [lineEnds, Text.unifyLineEndsList_escape, Text.pairLineEndsList_escape]

/-- A text without line ends is left as it is. -/
theorem lineEnds_of_not_mem {cs : List Char} (hr : '\r' ∉ cs) (hn : '\n' ∉ cs) : p.lineEnds cs = cs := by
  cases p <;> simp only [lineEnds, Text.unifyLineEndsList_of_not_mem hr, Text.pairLineEndsList_of_not_mem hn]

/-- A front without line ends is left as it is. -/
theorem lineEnds_plain {cs : List Char} (hr : '\r' ∉ cs) (hn : '\n' ∉ cs) (rest : List Char) :
    p.lineEnds (cs ++ rest) = cs ++ p.lineEnds rest := by
  rw [p.lineEnds_append (.inl fun h => hr (List.mem_of_getLast? h)), p.lineEnds_of_not_mem hr hn]

theorem withLineEnds_of_not_mem {s : String} (hr : '\r' ∉ s.toList) (hn : '\n' ∉ s.toList) :
    p.withLineEnds s = s := by
  rw [← String.toList_inj, toList_withLineEnds, lineEnds_of_not_mem p hr hn]

end Platform

end SchemaDocs
