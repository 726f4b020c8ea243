import SchemaDocs.Proofs.LineEnds
import SchemaDocs.Proofs.TidyPages

/-!
# Uniform line ends

Settling the line ends of a text makes them uniform, and settles nothing when it is done again, unless a carriage return
stands in front of a pair: the pair becomes a line feed, and on Unix the carriage return in front forms a new pair with
it (`isUniform_withLineEnds`, `withLineEnds_withLineEnds`). No document of a tidy page holds such a run, whatever other
line ends the texts of the page are made of.
-/

namespace SchemaDocs

namespace Text

/-- A carriage return stands in front of a pair. -/
def Overlong (cs : List Char) : Prop := ['\r', '\r', '\n'] <:+: cs

instance (cs : List Char) : Decidable (Overlong cs) := inferInstanceAs (Decidable (['\r', '\r', '\n'] <:+: cs))

/-! ## Pairs -/

theorem pair_infix_cons {c : Char} {cs : List Char} :
    ['\r', '\n'] <:+: c :: cs ↔ c = '\r' ∧ cs.head? = some '\n' ∨ ['\r', '\n'] <:+: cs := by
  rw [List.infix_cons_iff, List.cons_prefix_cons, List.singleton_prefix_iff_head?_eq_some, eq_comm (a := '\r')]

theorem overlong_cons {c : Char} {cs : List Char} :
    Overlong (c :: cs) ↔ c = '\r' ∧ ['\r', '\n'] <+: cs ∨ Overlong cs := by
  rw [Overlong, Overlong, List.infix_cons_iff, List.cons_prefix_cons, eq_comm (a := '\r')]

/-- What remains begins with a line feed if it began with a pair, or with a line feed. -/
theorem head?_unifyLineEndsList {cs : List Char} :
    (unifyLineEndsList cs).head? = some '\n' ↔ cs.head? = some '\n' ∨ ['\r', '\n'] <+: cs := by
  fun_cases unifyLineEndsList cs with
  | case1 => simp
  | case2 rest => simp
  | case3 c rest hpair =>
    simp only [List.head?_cons, List.cons_prefix_cons, List.singleton_prefix_iff_head?_eq_some, iff_self_or]
    rintro ⟨hc, hrest⟩
    obtain ⟨tail, rfl⟩ := List.head?_eq_some_iff.1 hrest
    exact absurd rfl (hpair tail hc.symm)

/-- **Pairs remain only where a carriage return stood in front of one.** -/
theorem pair_infix_unifyLineEndsList {cs : List Char} : ['\r', '\n'] <:+: unifyLineEndsList cs ↔ Overlong cs := by
  induction cs using unifyLineEndsList.induct with
  | case1 => decide
  | case2 rest ih =>
    rw [unifyLineEndsList, pair_infix_cons, ih, overlong_cons, overlong_cons]
    simp
  | case3 c rest hpair ih =>
    have hhead : c = '\r' → rest.head? ≠ some '\n' := by
      intro hc hrest
      obtain ⟨tail, rfl⟩ := List.head?_eq_some_iff.1 hrest
      exact hpair tail hc rfl
    rw [unifyLineEndsList, pair_infix_cons, ih, overlong_cons, head?_unifyLineEndsList]
    · exact or_congr_left (and_congr_right fun hc => or_iff_right (hhead hc))
    · exact hpair

/-- **Nothing is settled exactly where no pair is left.** -/
theorem unifyLineEndsList_eq_self {cs : List Char} : unifyLineEndsList cs = cs ↔ ¬ ['\r', '\n'] <:+: cs := by
  induction cs using unifyLineEndsList.induct with
  | case1 => decide
  | case2 rest ih =>
    rw [unifyLineEndsList, pair_infix_cons]
    simp
  | case3 c rest hpair ih =>
    have hhead : ¬ (c = '\r' ∧ rest.head? = some '\n') := by
      rintro ⟨hc, hrest⟩
      obtain ⟨tail, rfl⟩ := List.head?_eq_some_iff.1 hrest
      exact hpair tail hc rfl
    rw [unifyLineEndsList, List.cons_inj_right, ih, pair_infix_cons, or_iff_right hhead]
    exact hpair

/-! ## Paired line feeds -/

theorem pairLineEndsList_cons (c : Char) (cs : List Char) :
    pairLineEndsList (c :: cs) = (if c = '\n' then ['\r', '\n'] else [c]) ++ pairLineEndsList cs := rfl

/-- No paired list begins with a line feed. -/
theorem head?_pairLineEndsList (cs : List Char) : (pairLineEndsList cs).head? ≠ some '\n' := by
  cases cs with
  | nil => simp [pairLineEndsList]
  | cons c cs =>
    rw [pairLineEndsList_cons]
    split
    · simp
    · simpa using ‹¬ c = '\n'›

/-- **Every line feed of a paired list stands behind a carriage return.** -/
theorem return_before_feed {cs front back : List Char} (h : pairLineEndsList cs = front ++ '\n' :: back) :
    front.getLast? = some '\r' := by
  induction cs generalizing front with
  | nil => simp [pairLineEndsList] at h
  | cons c cs ih =>
    have hlonger (d : Char) {front : List Char} (hlast : front.getLast? = some '\r') :
        (d :: front).getLast? = some '\r' := by
      rwa [List.getLast?_cons_of_ne_nil]
      rintro rfl
      simp at hlast
    rw [pairLineEndsList_cons] at h
    by_cases hc : c = '\n'
    · rw [if_pos hc] at h
      rcases front with _ | ⟨d, _ | ⟨e, front⟩⟩
      · exact absurd (List.cons.inj h).1 (by decide)
      · rw [← (List.cons.inj h).1]
        rfl
      · exact hlonger d (hlonger e (ih (List.cons.inj (List.cons.inj h).2).2))
    · rw [if_neg hc] at h
      rcases front with _ | ⟨d, front⟩
      · exact absurd (List.cons.inj h).1 hc
      · exact hlonger d (ih (List.cons.inj h).2)

/-- Pairing what was paired and unified again changes nothing. -/
theorem unifyLineEndsList_pairLineEndsList (cs : List Char) : unifyLineEndsList (pairLineEndsList cs) = cs := by
  induction cs with
  | nil => rfl
  | cons c cs ih =>
    rw [pairLineEndsList_cons]
    by_cases hc : c = '\n'
    · subst hc
      rw [if_pos rfl, List.cons_append, List.cons_append, List.nil_append, unifyLineEndsList, ih]
    · rw [if_neg hc, List.singleton_append]
      by_cases hreturn : c = '\r'
      · subst hreturn
        rw [unifyLineEndsList_return (head?_pairLineEndsList cs), ih]
      · rw [unifyLineEndsList_cons hreturn, ih]

/-- A pair of a paired list begins where the list had a line feed. -/
theorem pair_prefix_pairLineEndsList {cs : List Char} :
    ['\r', '\n'] <+: pairLineEndsList cs ↔ cs.head? = some '\n' := by
  cases cs with
  | nil => decide
  | cons c cs =>
    rw [pairLineEndsList_cons]
    by_cases hc : c = '\n'
    · simp [hc]
    · have hhead := head?_pairLineEndsList cs
      simp [hc, hhead, List.cons_prefix_cons, List.singleton_prefix_iff_head?_eq_some]

/-- **A paired list has a carriage return in front of a pair where the list had a pair.** -/
theorem overlong_pairLineEndsList {cs : List Char} : Overlong (pairLineEndsList cs) ↔ ['\r', '\n'] <:+: cs := by
  induction cs with
  | nil => decide
  | cons c cs ih =>
    rw [pairLineEndsList_cons, pair_infix_cons, ← ih]
    by_cases hc : c = '\n'
    · subst hc
      simp [overlong_cons]
    · rw [if_neg hc, List.singleton_append, overlong_cons, pair_prefix_pairLineEndsList]

/-! ## Tidy texts -/

/-- A tidy text holds no carriage return in front of a pair. -/
theorem IsTidy.not_overlong {s : String} (h : IsTidy s) : ¬ Overlong s.toList := by
  rintro ⟨front, back, hs⟩
  obtain ⟨before, last, hlast⟩ := exists_last_piece '\n' front
  have hsplit : front ++ ['\r', '\r', '\n'] ++ back = (front ++ ['\r', '\r']) ++ '\n' :: back := by simp
  have hreturns : splitList '\n' ['\r', '\r'] = [['\r', '\r']] := by decide
  refine h (last ++ ['\r', '\r']) ?_ (List.suffix_append _ _)
  rw [lines, ← hs, hsplit, splitList_append, splitList_append_of_eq hlast hreturns]
  simp

end Text

namespace Platform

open Text (Overlong)

/-- All line ends of the text are those of the platform: on Unix no line feed stands behind a carriage return, and on
Windows every one does, but not behind two. -/
def IsUniform (p : Platform) (s : String) : Prop :=
  match p with
  | .unix => ¬ ['\r', '\n'] <:+: s.toList
  | .windows => (∀ front back, s.toList = front ++ '\n' :: back → front.getLast? = some '\r') ∧ ¬ Overlong s.toList

variable (p : Platform)

/-- **The line ends of a text become uniform**, unless a carriage return stands in front of a pair. -/
theorem isUniform_withLineEnds (s : String) : p.IsUniform (p.withLineEnds s) ↔ ¬ Overlong s.toList := by
  cases p with
  | unix =>
    rw [IsUniform, toList_withLineEnds, lineEnds, Text.pair_infix_unifyLineEndsList]
  | windows =>
    rw [IsUniform, toList_withLineEnds, lineEnds, Text.overlong_pairLineEndsList, Text.pair_infix_unifyLineEndsList]
    exact and_iff_right fun front back h => Text.return_before_feed h

/-- **Settling the line ends again changes nothing**, unless a carriage return stands in front of a pair; on Windows it
changes nothing in any case. -/
theorem withLineEnds_withLineEnds (s : String) :
    p.withLineEnds (p.withLineEnds s) = p.withLineEnds s ↔ p = .windows ∨ ¬ Overlong s.toList := by
  rw [← String.toList_inj, toList_withLineEnds, toList_withLineEnds]
  cases p with
  | unix => simp [lineEnds, Text.unifyLineEndsList_eq_self, Text.pair_infix_unifyLineEndsList]
  | windows => simp [lineEnds, Text.unifyLineEndsList_pairLineEndsList]

end Platform

/-- **Line ends are uniform**, and settled once and for all, in every text in which no carriage return stands in front
of a pair, and in no other; so they are in the documents of every page none of whose texts has a line that ends in two
carriage returns. On Windows every line feed stands behind a carriage return whatever the text is. -/
theorem Options.uniform_lineEnds (p : Platform) (s : String) :
    (p.IsUniform (p.withLineEnds s) ↔ ¬ Text.Overlong s.toList) ∧
    (p.withLineEnds (p.withLineEnds s) = p.withLineEnds s ↔ p = .windows ∨ ¬ Text.Overlong s.toList) ∧
    (∀ front back : List Char, (Platform.windows.withLineEnds s).toList = front ++ '\n' :: back →
      front.getLast? = some '\r') ∧
    ∀ (o : Options) (page : Page), page.IsTidy →
      o.platform.IsUniform (o.text page) ∧ o.platform.withLineEnds (o.text page) = o.text page := by
  refine ⟨p.isUniform_withLineEnds s, p.withLineEnds_withLineEnds s, fun front back h => ?_, fun o page h => ?_⟩
  · rw [Platform.toList_withLineEnds] at h
    exact Text.return_before_feed h
  · have hcontent := (Page.isTidy_content o h).not_overlong
    rw [o.text_eq]
    exact ⟨(o.platform.isUniform_withLineEnds _).2 hcontent,
      (o.platform.withLineEnds_withLineEnds _).2 (Or.inr hcontent)⟩

/-- A description with line ends of every kind. -/
theorem Options.uniform_lineEnds_of_mixed :
    let page : Page := .index ⟨"a\rb", "first\r\nsecond\n\rthird\r", [], []⟩
    page.IsTidy ∧ Platform.windows.IsUniform ({ platform := .windows : Options }.text page) := by
  intro page
  have htidy : page.IsTidy := by
    unfold Page.IsTidy
    decide
  exact ⟨htidy, ((uniform_lineEnds .windows "").2.2.2 { platform := .windows } page htidy).1⟩

/-- **A carriage return in front of a pair ends up in front of a line feed**, so the line ends are neither uniform nor
settled. -/
theorem Platform.not_uniform_of_overlong :
    ¬ unix.IsUniform (unix.withLineEnds "a\r\r\nb") ∧
      unix.withLineEnds (unix.withLineEnds "a\r\r\nb") ≠ unix.withLineEnds "a\r\r\nb" ∧
      ¬ windows.IsUniform (windows.withLineEnds "a\r\r\nb") := by
  have hoverlong : Text.Overlong "a\r\r\nb".toList := by decide
  refine ⟨fun h => (isUniform_withLineEnds unix _).1 h hoverlong, fun h => ?_,
    fun h => (isUniform_withLineEnds windows _).1 h hoverlong⟩
  rcases (withLineEnds_withLineEnds unix _).1 h with h | h
  · exact absurd h (by decide)
  · exact h hoverlong

end SchemaDocs
