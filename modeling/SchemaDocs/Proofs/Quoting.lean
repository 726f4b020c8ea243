import Mathlib.Logic.Function.Iterate
import Mathlib.Data.List.Forall2
import SchemaDocs.Document.Markdown
import SchemaDocs.Proofs.Lines

/-!
# Block quotes

Quoting a text line by line can be undone (`unquote?_blockQuote`), whatever its lines are, so the fragment about an
attribute holds the fragments about the attributes below it, one level of quotation for each level of nesting: a
quotation of a quotation marks every line twice (`exists_marks`), and a fragment among others keeps its lines
(`lines_joinBlocks`), so the lines of an attribute at any depth are found among those of the outermost one
(`lines_below`).
-/

namespace SchemaDocs

/-- The attribute stands `depth` levels below another one, which stands no level below itself. -/
inductive Attribute.Below (a : Attribute) : Attribute → Nat → Prop
  | here : Below a a 0
  | child {depth : Nat} {b c : Attribute} (mem : c ∈ b.children) (deep : Below a c depth) : Below a b (depth + 1)

namespace Markdown

open Text (lines)

/-! ## Lines -/

/-- **A block among others keeps its lines.** -/
theorem lines_joinBlocks {block : String} : ∀ {blocks : List String}, block ∈ blocks →
    ∃ front back, lines (joinBlocks blocks) = front ++ lines block ++ back
  | [only], h => ⟨[], [], by simp [List.mem_singleton.1 h, joinBlocks, Text.join]⟩
  | first :: next :: blocks, h => by
    have hrest : lines (joinBlocks (first :: next :: blocks)) =
        lines first ++ [] :: lines (joinBlocks (next :: blocks)) := Text.lines_append_blank first _
    rw [hrest]
    rcases List.mem_cons.1 h with rfl | h
    · exact ⟨[], _, rfl⟩
    · obtain ⟨front, back, hlines⟩ := lines_joinBlocks h
      rw [hlines]
      exact ⟨lines first ++ [] :: front, back, by simp⟩

/-! ## Quoting -/

theorem not_mem_quoteLine {line : List Char} (h : '\n' ∉ line) : '\n' ∉ quoteLine line := by
  rw [quoteLine]
  split <;> simp [h]

/-- **A block quote quotes every line.** -/
theorem lines_blockQuote (s : String) : lines (blockQuote s) = (lines s).map quoteLine := by
  rw [lines, blockQuote, String.toList_ofList, Text.splitList_joinList]
  · rfl
  · simp [Text.splitList_ne_nil]
  · intro line hline
    obtain ⟨l, hl, rfl⟩ := List.mem_map.1 hline
    exact not_mem_quoteLine (Text.not_mem_of_mem_splitList hl)

theorem lines_blockQuote_iterate (depth : Nat) (s : String) :
    lines (blockQuote^[depth] s) = (lines s).map quoteLine^[depth] := by
  induction depth with
  | zero => simp
  | succ depth ih =>
    rw [Function.iterate_succ_apply', lines_blockQuote, ih, List.map_map, Function.iterate_succ']

def unquoteLine? : List Char → Option (List Char)
  | ['>'] => some []
  | '>' :: ' ' :: line => some line
  | _ => none

/-- The text that a block quote quotes; none for a text that is no block quote. -/
def unquote? (s : String) : Option String :=
  ((lines s).mapM unquoteLine?).map fun quoted => String.ofList (Text.joinList ['\n'] quoted)

theorem unquoteLine?_quoteLine (line : List Char) : unquoteLine? (quoteLine line) = some line := by
  cases line <;> rfl

/-- **Unquoting undoes quoting**, whatever the lines of the text are. -/
theorem unquote?_blockQuote (s : String) : unquote? (blockQuote s) = some s := by
  have hlines (ls : List (List Char)) : (ls.map quoteLine).mapM unquoteLine? = some ls := by
    induction ls with
    | nil => rfl
    | cons line ls ih => simp [List.mapM_cons, unquoteLine?_quoteLine, ih]
  rw [unquote?, lines_blockQuote, hlines, Option.map_some, Text.joinList_lines]

theorem unquote?_blockQuote_iterate (depth : Nat) (s : String) :
    (Option.bind · unquote?)^[depth] (some (blockQuote^[depth] s)) = some s := by
  induction depth with
  | zero => rfl
  | succ depth ih =>
    rw [Function.iterate_succ_apply, Function.iterate_succ_apply', Option.bind_some, unquote?_blockQuote, ih]

/-- **At every depth a line gets as many marks as the depth**, and nothing else but spaces. -/
theorem exists_marks (depth : Nat) (line : List Char) : ∃ marks, quoteLine^[depth] line = marks ++ line ∧
    marks.count '>' = depth ∧ ∀ c ∈ marks, c = '>' ∨ c = ' ' := by
  induction depth with
  | zero => exact ⟨[], rfl, rfl, by simp⟩
  | succ depth ih =>
    obtain ⟨marks, hline, hcount, hchars⟩ := ih
    rw [Function.iterate_succ_apply', hline, quoteLine]
    by_cases hempty : marks ++ line = []
    · -- a blank line is not marked yet, so this is the first mark
      obtain ⟨rfl, rfl⟩ := List.append_eq_nil_iff.1 hempty
      rw [List.count_nil] at hcount
      exact ⟨['>'], rfl, by rw [← hcount]; rfl, by simp⟩
    · refine ⟨'>' :: ' ' :: marks, ?_, ?_, ?_⟩
      · rw [if_neg (by simpa using hempty)]
        rfl
      · simp [hcount]
      · simpa using hchars

/-! ## Fragments -/

theorem attributeTexts_eq_map (escape : Bool) (attributes : List Attribute) :
    attributeTexts escape attributes = attributes.map (attributeText escape) := by
  induction attributes with
  | nil => rfl
  | cons a rest ih => rw [attributeTexts, ih, List.map_cons]

/-- The fragments about the children of an attribute, as the blocks of one fragment. -/
def childrenText (escape : Bool) (a : Attribute) : String := joinBlocks (a.children.map (attributeText escape))

/-- **The children of an attribute are told in a block quote behind its own blocks**, which are those it would have
without children. -/
theorem attributeText_eq (escape : Bool) {a : Attribute} (h : a.children ≠ []) :
    attributeText escape a =
      attributeText escape { a with children := [] } ++ "\n\n" ++ blockQuote (childrenText escape a) := by
  obtain ⟨name, token, required, readOnly, deprecated, description, default, link, children⟩ := a
  dsimp only at h
  have hchildren : children.isEmpty = false := by simpa using h
  simp only [attributeText, childrenText, hchildren, attributeTexts_eq_map, Bool.false_eq_true, ↓reduceIte,
    List.isEmpty_nil, List.append_nil]
  exact Text.join_append _ _ (by simp)

/-- **The lines of an attribute are among those of every attribute it stands below**, quoted as often as it stands
levels below it. -/
theorem lines_below (escape : Bool) {a b : Attribute} {depth : Nat} (h : a.Below b depth) :
    ∃ front back, lines (attributeText escape b) =
      front ++ lines (blockQuote^[depth] (attributeText escape a)) ++ back := by
  induction h with
  | here => exact ⟨[], [], by simp⟩
  | @child depth b c hc hbelow ih =>
    obtain ⟨front, back, hlines⟩ := ih
    have hmem : attributeText escape c ∈ b.children.map (attributeText escape) := List.mem_map_of_mem hc
    obtain ⟨before, after, hblocks⟩ := lines_joinBlocks hmem
    rw [attributeText_eq escape (List.ne_nil_of_mem hc), Text.lines_append_blank, lines_blockQuote, childrenText,
      hblocks, hlines, Function.iterate_succ_apply', lines_blockQuote]
    refine ⟨lines (attributeText escape { b with children := [] }) ++ [] :: (before.map quoteLine ++
      front.map quoteLine), back.map quoteLine ++ after.map quoteLine, ?_⟩
    simp

/-- **Nested attributes are told as block quotes, and the quotation can be undone.** The fragment about an attribute
with children is that of its own blocks, a blank line, and a part in which every line begins with a mark and that
unquotes to the fragments about the children, a blank line between two of them. An attribute at any depth below it is
told in lines of their own, each the line it has in the fragment about that attribute behind as many marks as the
depth, and unquoting them as often gives that fragment. -/
theorem nested_attributes_unquote (escape : Bool) (a : Attribute) :
    (a.children ≠ [] → ∃ quoted,
      attributeText escape a = attributeText escape { a with children := [] } ++ "\n\n" ++ quoted ∧
      (∀ line ∈ lines quoted, line.head? = some '>') ∧
      unquote? quoted = some (Text.join "\n\n" (a.children.map (attributeText escape)))) ∧
    ∀ (depth : Nat) (b : Attribute), b.Below a depth → ∃ front quoted back,
      lines (attributeText escape a) = front ++ lines quoted ++ back ∧
      (Option.bind · unquote?)^[depth] (some quoted) = some (attributeText escape b) ∧
      List.Forall₂ (fun line original => ∃ marks, line = marks ++ original ∧ marks.count '>' = depth ∧
        ∀ c ∈ marks, c = '>' ∨ c = ' ') (lines quoted) (lines (attributeText escape b)) := by
  constructor
  · intro hchildren
    refine ⟨_, attributeText_eq escape hchildren, ?_, unquote?_blockQuote _⟩
    intro line hline
    rw [lines_blockQuote] at hline
    obtain ⟨original, -, rfl⟩ := List.mem_map.1 hline
    cases original <;> rfl
  · intro depth b hbelow
    obtain ⟨front, back, hlines⟩ := lines_below escape hbelow
    refine ⟨front, _, back, hlines, unquote?_blockQuote_iterate depth _, ?_⟩
    rw [lines_blockQuote_iterate, List.forall₂_map_left_iff]
    exact List.forall₂_same.2 fun original _ => exists_marks depth original

theorem nested_attributes_unquote_of_child :
    let inner : Attribute := ⟨"port", "int", true, false, false, "first\n\n> last\n", none, none, []⟩
    let outer : Attribute := ⟨"server", "dict", false, false, false, "", none, none, [inner]⟩
    (outer.children ≠ [] ∧ ∃ quoted, unquote? quoted = some (attributeText false inner)) ∧
      inner.Below outer 1 ∧ ∃ front quoted back, lines (attributeText false outer) = front ++ lines quoted ++ back ∧
        (some quoted).bind unquote? = some (attributeText false inner) := by
  intro inner outer
  have hbelow : inner.Below outer 1 := .child List.mem_cons_self .here
  have hchildren : outer.children ≠ [] := List.cons_ne_nil _ _
  obtain ⟨quoted, -, -, hquoted⟩ := (nested_attributes_unquote false outer).1 hchildren
  obtain ⟨front, part, back, hlines, hunquoted, -⟩ := (nested_attributes_unquote false outer).2 1 inner hbelow
  exact ⟨⟨hchildren, quoted, hquoted⟩, hbelow, front, part, back, hlines, hunquoted⟩

end Markdown

end SchemaDocs
