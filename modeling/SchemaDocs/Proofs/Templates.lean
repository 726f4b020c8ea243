import SchemaDocs.Document.Markdown
import SchemaDocs.Proofs.Splitting

/-!
# Templates

A text that depends on the separator of links may depend on it at some places only, and hold the separator itself at
these: it is a template that is filled with the separator (`Templated`). Nothing that is done with texts when a
document is written takes this away: a separator is neither escaped (`Templated.escapeMarkup`) nor part of a line end
(`Templated.unifyLineEnds`) nor the end of a line of a block quote (`Templated.blockQuote`).
-/

namespace SchemaDocs

/-- A link with another separator in place of the slash. -/
def separatedBy (x : Char) (link : String) : String :=
  String.ofList (link.toList.map fun c => if c = '/' then x else c)

theorem isEmpty_separatedBy (x : Char) (link : String) : (separatedBy x link).isEmpty = link.isEmpty := by
  rw [Bool.eq_iff_iff, String.isEmpty_iff, String.isEmpty_iff, ← String.toList_eq_nil_iff, ← String.toList_eq_nil_iff,
    separatedBy, String.toList_ofList, List.map_eq_nil_iff]

/-- A text in which the separators of links are left open. -/
abbrev Template := List (Option Char)

/-- The text with the same separator in all places that are open. -/
def Template.fill (x : Char) (t : Template) : List Char := t.map (·.getD x)

/-- A character that can be a separator: it is written as it is in markup, and it is no line end. -/
structure IsSeparator (x : Char) : Prop where
  escape_eq : Text.escapeMarkupChar x = [x]
  ne_return : x ≠ '\r'
  ne_feed : x ≠ '\n'

theorem isSeparator_slash : IsSeparator '/' := ⟨by decide, by decide, by decide⟩

theorem isSeparator_backslash : IsSeparator '\\' := ⟨by decide, by decide, by decide⟩

/-- A text depends on the separator only as a template that is filled with it. -/
def Templated (text : Char → String) : Prop :=
  ∃ t : Template, ∀ x, IsSeparator x → (text x).toList = t.fill x

/-- Texts depend on the separator only as templates do. -/
def TemplatedAll (texts : Char → List String) : Prop :=
  ∃ ts : List Template, ∀ x, IsSeparator x → (texts x).map String.toList = ts.map (Template.fill x)

namespace Template

variable {x : Char}

@[simp]
theorem fill_nil : fill x [] = [] := rfl

@[simp]
theorem fill_cons (c : Option Char) (t : Template) : fill x (c :: t) = c.getD x :: fill x t := rfl

@[simp]
theorem fill_append (t u : Template) : fill x (t ++ u) = fill x t ++ fill x u := List.map_append

/-- A text in which nothing is left open. -/
@[simp]
theorem fill_map_some (cs : List Char) : fill x (cs.map some) = cs := by
  simp [fill, Function.comp_def]

theorem isEmpty_fill (t : Template) : (fill x t).isEmpty = t.isEmpty := List.isEmpty_map

/-- Writing the characters of a text one by one, those in open places being kept. -/
def flatMap (f : Char → List Char) (t : Template) : Template :=
  List.flatMap (fun c => c.elim [none] fun c => (f c).map some) t

theorem fill_flatMap {f : Char → List Char} (hf : f x = [x]) (t : Template) :
    fill x (t.flatMap f) = (fill x t).flatMap f := by
  induction t with
  | nil => rfl
  | cons c t ih =>
    simp only [flatMap, List.flatMap_cons, fill_append, fill_cons] at ih ⊢
    rw [ih]
    cases c with
    | none => simp [hf]
    | some c => simp

/-- Every carriage return and line feed pair becomes one line feed. -/
def unify : Template → Template
  | [] => []
  | some '\r' :: some '\n' :: rest => some '\n' :: unify rest
  | c :: rest => c :: unify rest

/-- No line end is made or broken in an open place. -/
theorem fill_unify (hx : IsSeparator x) (t : Template) : fill x t.unify = Text.unifyLineEndsList (fill x t) := by
  induction t using unify.induct with
  | case1 => rfl
  | case2 rest ih => simp [unify, Text.unifyLineEndsList, ih]
  | case3 c rest hpair ih =>
    rw [unify, fill_cons, fill_cons, Text.unifyLineEndsList, ih]
    · intro tail hc hrest
      cases c with
      | none => exact hx.ne_return hc
      | some c =>
        cases rest with
        | nil => cases hrest
        | cons d rest =>
          rw [fill_cons] at hrest
          cases d with
          | none => exact hx.ne_feed (List.cons.inj hrest).1
          | some d => exact hpair rest (congrArg some hc) (by rw [← (List.cons.inj hrest).1]; rfl)
    · exact hpair

/-- The pieces of a template between the line feeds that it has of itself. -/
def lines : Template → List Template
  | [] => [[]]
  | c :: rest =>
    if c = some '\n' then [] :: lines rest
    else match lines rest with
      | [] => [[c]]
      | piece :: pieces => (c :: piece) :: pieces

/-- A text is not parted in an open place. -/
theorem fill_lines (hx : IsSeparator x) (t : Template) : t.lines.map (fill x) = Text.splitList '\n' (fill x t) := by
  induction t with
  | nil => rfl
  | cons c rest ih =>
    have hc : c.getD x = '\n' ↔ c = some '\n' := by
      cases c with
      | none => simp [hx.ne_feed]
      | some c => simp
    rw [lines, fill_cons, Text.splitList]
    simp only [hc, ← ih]
    split
    · rfl
    · cases lines rest <;> rfl

def quoteLine (line : Template) : Template := if line.isEmpty then [some '>'] else some '>' :: some ' ' :: line

theorem fill_quoteLine (line : Template) : fill x line.quoteLine = Markdown.quoteLine (fill x line) := by
  rw [Markdown.quoteLine, isEmpty_fill, quoteLine]
  split <;> rfl

theorem fill_joinList (sep : List Char) : ∀ ts : List Template,
    fill x (Text.joinList (sep.map some) ts) = Text.joinList sep (ts.map (fill x))
  | [] => rfl
  | [t] => rfl
  | t :: u :: ts => by
    have ih := fill_joinList sep (u :: ts)
    simp only [Text.joinList, fill_append, fill_map_some, List.map_cons] at ih ⊢
    rw [ih]

end Template

namespace Templated

variable {text more : Char → String}

theorem congr (h : Templated text) (heq : ∀ x, IsSeparator x → more x = text x) : Templated more := by
  obtain ⟨t, ht⟩ := h
  exact ⟨t, fun x hx => by rw [heq x hx, ht x hx]⟩

theorem const (s : String) : Templated fun _ => s := ⟨s.toList.map some, fun _ _ => (Template.fill_map_some _).symm⟩

theorem append (h : Templated text) (hm : Templated more) : Templated fun x => text x ++ more x := by
  obtain ⟨t, ht⟩ := h
  obtain ⟨u, hu⟩ := hm
  exact ⟨t ++ u, fun x hx => by rw [String.toList_append, ht x hx, hu x hx, Template.fill_append]⟩

theorem ite (c : Bool) (h : Templated text) (hm : Templated more) :
    Templated fun x => if c then text x else more x := by
  cases c with
  | false => exact hm
  | true => exact h

/-- The places of a link at which it has a slash are open. -/
theorem separatedBy (link : String) : Templated fun x => separatedBy x link := by
  refine ⟨link.toList.map fun c => if c = '/' then none else some c, fun x _ => ?_⟩
  simp only [SchemaDocs.separatedBy, String.toList_ofList, Template.fill, List.map_map]
  refine List.map_congr_left fun c _ => ?_
  by_cases hc : c = '/' <;> simp [hc]

theorem escapeMarkup (h : Templated text) : Templated fun x => Text.escapeMarkup (text x) := by
  obtain ⟨t, ht⟩ := h
  refine ⟨t.flatMap Text.escapeMarkupChar, fun x hx => ?_⟩
  simp only [Text.escapeMarkup, String.toList_ofList, ht x hx, Template.fill_flatMap hx.escape_eq]

theorem unifyLineEnds (h : Templated text) : Templated fun x => Text.unifyLineEnds (text x) := by
  obtain ⟨t, ht⟩ := h
  exact ⟨t.unify, fun x hx => by simp only [Text.unifyLineEnds, String.toList_ofList, ht x hx, Template.fill_unify hx]⟩

theorem blockQuote (h : Templated text) : Templated fun x => Markdown.blockQuote (text x) := by
  obtain ⟨t, ht⟩ := h
  refine ⟨Text.joinList (['\n'].map some) (t.lines.map Template.quoteLine), fun x hx => ?_⟩
  have hlines : (t.lines.map Template.quoteLine).map (Template.fill x) =
      (t.lines.map (Template.fill x)).map Markdown.quoteLine := by
    simp only [List.map_map, Function.comp_def, Template.fill_quoteLine]
  simp only [Markdown.blockQuote, String.toList_ofList, Template.fill_joinList, hlines, Template.fill_lines hx, ht x hx]

end Templated

namespace TemplatedAll

variable {text : Char → String} {texts others : Char → List String}

theorem nil : TemplatedAll fun _ => [] := ⟨[], fun _ _ => rfl⟩

theorem cons (h : Templated text) (hs : TemplatedAll texts) : TemplatedAll fun x => text x :: texts x := by
  obtain ⟨t, ht⟩ := h
  obtain ⟨ts, hts⟩ := hs
  exact ⟨t :: ts, fun x hx => by rw [List.map_cons, List.map_cons, ht x hx, hts x hx]⟩

theorem append (h : TemplatedAll texts) (ho : TemplatedAll others) : TemplatedAll fun x => texts x ++ others x := by
  obtain ⟨ts, hts⟩ := h
  obtain ⟨us, hus⟩ := ho
  exact ⟨ts ++ us, fun x hx => by rw [List.map_append, List.map_append, hts x hx, hus x hx]⟩

theorem const (texts : List String) : TemplatedAll fun _ => texts :=
  ⟨texts.map fun s => s.toList.map some, fun x _ => by simp⟩

theorem ite (c : Bool) (h : TemplatedAll texts) (ho : TemplatedAll others) :
    TemplatedAll fun x => if c then texts x else others x := by
  cases c with
  | false => exact ho
  | true => exact h

/-- The texts of items, each of which is a template. -/
theorem map_of {α : Type} {write : Char → α → String} (h : ∀ a, Templated (write · a)) :
    ∀ items : List α, TemplatedAll fun x => items.map (write x)
  | [] => nil
  | a :: rest => cons (h a) (map_of h rest)

/-- The texts one after another with a separator between two neighbours. -/
theorem join (sep : String) (h : TemplatedAll texts) : Templated fun x => Text.join sep (texts x) := by
  obtain ⟨ts, hts⟩ := h
  refine ⟨Text.joinList (sep.toList.map some) ts, fun x hx => ?_⟩
  rw [Text.toList_join, Template.fill_joinList, ← hts x hx]

/-- The texts one after another. -/
theorem flatten (h : TemplatedAll texts) : Templated fun x => String.join (texts x) := by
  obtain ⟨ts, hts⟩ := h
  refine ⟨ts.flatten, fun x hx => ?_⟩
  rw [String.toList_join, List.flatMap_def, hts x hx, Template.fill, List.map_flatten]
  rfl

theorem map {f : String → String} (hf : ∀ {text}, Templated text → Templated fun x => f (text x))
    (h : TemplatedAll texts) : TemplatedAll fun x => (texts x).map f := by
  obtain ⟨ts, hts⟩ := h
  have hmap : ∀ ts : List Template, ∃ us : List Template, ∀ x, IsSeparator x →
      ts.map (fun t => (f (String.ofList (t.fill x))).toList) = us.map (Template.fill x) := by
    intro ts
    induction ts with
    | nil => exact ⟨[], fun _ _ => rfl⟩
    | cons t ts ih =>
      obtain ⟨us, hus⟩ := ih
      obtain ⟨u, hu⟩ := @hf (fun x => String.ofList (t.fill x)) ⟨t, fun _ _ => String.toList_ofList⟩
      exact ⟨u :: us, fun x hx => by rw [List.map_cons, List.map_cons, hu x hx, hus x hx]⟩
  obtain ⟨us, hus⟩ := hmap ts
  refine ⟨us, fun x hx => ?_⟩
  have htexts : texts x = ts.map fun t => String.ofList (t.fill x) := by
    have hlists := congrArg (List.map String.ofList) (hts x hx)
    simpa [List.map_map, Function.comp_def] using hlists
  simp only [htexts, ← hus x hx, List.map_map, Function.comp_def]

/-- Whether there are texts at all does not depend on the separator. -/
theorem exists_isEmpty (h : TemplatedAll texts) : ∃ c, ∀ x, IsSeparator x → (texts x).isEmpty = c := by
  obtain ⟨ts, hts⟩ := h
  exact ⟨ts.isEmpty, fun x hx => by rw [← List.isEmpty_map, hts x hx, List.isEmpty_map]⟩

end TemplatedAll

end SchemaDocs
