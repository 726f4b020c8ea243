import SchemaDocs.Document.Markdown
import SchemaDocs.Proofs.Floats
import SchemaDocs.Proofs.Json
import SchemaDocs.Proofs.Quotation
import SchemaDocs.Proofs.Splitting
import SchemaDocs.Value.Literal

/-!
# Literals

The literal of a JSON value tells the value, whatever follows it (`literal_append_inj`). A quoted text is read back up
to its closing quotation mark (`Json.stringUnits?_quoted`), so brackets and commas in a text are none of a collection;
numbers and names are words, and what follows a word does not go on with it (`word_append_inj`); and the parts of a
collection are told one after another, since no part begins like the end of the collection
(`enclosedList_append_inj`). No literal holds a control character (`isPlain_literalList`), so none ends a line.
-/

namespace SchemaDocs

namespace Value

open Text (IsPlain isPlain_nil isPlain_cons)

/-! ## Words -/

def wordChars : List Char := numberChars ++ "NoneTrueFalse".toList

def Ended (cs : List Char) : Prop := ∀ c ∈ cs.head?, c ∉ wordChars

/-- A word is told from its characters, and so is what follows it. -/
theorem word_append_inj {cs cs' rest rest' : List Char} (hcs : cs ⊆ wordChars) (hcs' : cs' ⊆ wordChars)
    (hrest : Ended rest) (hrest' : Ended rest') (h : cs ++ rest = cs' ++ rest') : cs = cs' ∧ rest = rest' := by
  have htake {cs rest : List Char} (hcs : cs ⊆ wordChars) (hrest : Ended rest) :
      (cs ++ rest).takeWhile (· ∈ wordChars) = cs := by
    have hnone : rest.takeWhile (· ∈ wordChars) = [] := by
      cases rest with
      | nil => rfl
      | cons c rest => simpa using hrest c rfl
    rw [List.takeWhile_append_of_pos fun c hc => decide_eq_true (hcs hc), hnone, List.append_nil]
  have hsame : cs = cs' := by rw [← htake hcs hrest, h, htake hcs' hrest']
  subst hsame
  exact ⟨rfl, List.append_cancel_left h⟩

/-- The value is no text and no collection. -/
def isWord : Value → Bool
  | .null | .bool _ | .int _ | .float _ => true
  | _ => false

def literalList (v : Value) : List Char := (literal v).toList

theorem literalList_int (i : Int) : literalList (.int i) = Numeral.integer i := String.toList_ofList

theorem literalList_float (x : Binary64) : literalList (.float x) = floatLayout.text x := String.toList_ofList

theorem literalList_str (s : String) : literalList (.str s) = Text.quotedList s.toList := String.toList_ofList

/-- The literal of a word is not empty and has no other characters than words have. -/
theorem literal_word {v : Value} (h : v.isWord = true) :
    literalList v ≠ [] ∧ literalList v ⊆ wordChars := by
  have hnumber : numberChars ⊆ wordChars := List.subset_append_left _ _
  have hdigits : '-' :: "0123456789".toList ⊆ numberChars := by decide
  cases v with
  | null => exact ⟨by decide, by decide⟩
  | bool b => cases b <;> exact ⟨by decide, by decide⟩
  | int i =>
    rw [literalList_int]
    exact ⟨integer_ne_nil i, List.Subset.trans (integer_subset i) (List.Subset.trans hdigits hnumber)⟩
  | float x =>
    obtain ⟨hchars, c, hc, -⟩ := floatLayout_text_chars x
    rw [literalList_float]
    exact ⟨List.ne_nil_of_mem hc, List.Subset.trans hchars hnumber⟩
  | _ => exact absurd h (by simp [isWord])

/-- The literals of numbers hold no other characters than those of numbers. -/
theorem literal_ne_of_number {v w : Value} (hv : ∃ c ∈ literalList v, c ∉ numberChars)
    (hw : literalList w ⊆ numberChars) : literalList v ≠ literalList w := by
  intro heq
  obtain ⟨c, hc, hnot⟩ := hv
  rw [heq] at hc
  exact hnot (hw hc)

/-- **Words are told by their literals.** -/
theorem literal_word_inj {v w : Value} (hv : v.isWord = true) (hw : w.isWord = true)
    (h : literalList v = literalList w) : v = w := by
  have hdigits : '-' :: "0123456789".toList ⊆ numberChars := by decide
  have hint (i : Int) : literalList (.int i) ⊆ numberChars := by
    rw [literalList_int]
    exact List.Subset.trans (integer_subset i) hdigits
  have hfloat (x : Binary64) : literalList (.float x) ⊆ numberChars := by
    rw [literalList_float]
    exact (floatLayout_text_chars x).1
  have hmixed (i : Int) (x : Binary64) : literalList (.int i) ≠ literalList (.float x) := by
    intro heq
    obtain ⟨-, c, hc, hmark⟩ := floatLayout_text_chars x
    rw [← literalList_float, ← heq, literalList_int] at hc
    exact hmark (integer_subset i hc)
  have hnull : ∃ c ∈ literalList .null, c ∉ numberChars := ⟨'N', by decide, by decide⟩
  have hbool (b : Bool) : ∃ c ∈ literalList (.bool b), c ∉ numberChars := by
    cases b with
    | false => exact ⟨'F', by decide, by decide⟩
    | true => exact ⟨'T', by decide, by decide⟩
  cases v with
  | null =>
    cases w with
    | null => rfl
    | bool b => cases b <;> exact absurd h (by decide)
    | int i => exact absurd h (literal_ne_of_number hnull (hint i))
    | float x => exact absurd h (literal_ne_of_number hnull (hfloat x))
    | _ => simp [isWord] at hw
  | bool b =>
    cases w with
    | null => cases b <;> exact absurd h (by decide)
    | bool b' => cases b <;> cases b' <;> first | rfl | exact absurd h (by decide)
    | int i => exact absurd h (literal_ne_of_number (hbool b) (hint i))
    | float x => exact absurd h (literal_ne_of_number (hbool b) (hfloat x))
    | _ => simp [isWord] at hw
  | int i =>
    cases w with
    | null => exact absurd h.symm (literal_ne_of_number hnull (hint i))
    | bool b => exact absurd h.symm (literal_ne_of_number (hbool b) (hint i))
    | int j =>
      rw [literalList_int, literalList_int] at h
      rw [Numeral.integer_injective h]
    | float x => exact absurd h (hmixed i x)
    | _ => simp [isWord] at hw
  | float x =>
    cases w with
    | null => exact absurd h.symm (literal_ne_of_number hnull (hfloat x))
    | bool b => exact absurd h.symm (literal_ne_of_number (hbool b) (hfloat x))
    | int i => exact absurd h.symm (hmixed i x)
    | float y =>
      rw [literalList_float, literalList_float] at h
      rw [floatLayout_text_injective h]
    | _ => simp [isWord] at hw
  | _ => simp [isWord] at hv

/-! ## Collections -/

theorem literalItems_eq (around : List (Nat × Nat)) (items : List Value) :
    literalItems around items = items.map (literalWithin around) := by
  induction items with
  | nil => rfl
  | cons item items ih => rw [literalItems, ih, List.map_cons]

theorem literalEntries_eq (around : List (Nat × Nat)) (entries : List (Value × Value)) :
    literalEntries around entries =
      entries.map fun e => literalWithin around e.1 ++ ": " ++ literalWithin around e.2 := by
  induction entries with
  | nil => rfl
  | cons entry entries ih => rw [literalEntries, ih, List.map_cons]

/-- The characters of a collection between its brackets. -/
def enclosedList (opening closing : Char) (parts : List (List Char)) : List Char :=
  opening :: Text.joinList [',', ' '] parts ++ [closing]

def entryLiteral (entry : Value × Value) : List Char :=
  literalList entry.1 ++ ':' :: ' ' :: literalList entry.2

theorem literalList_list (items : List Value) :
    literalList (.list items) = enclosedList '[' ']' (items.map literalList) := by
  rw [literalList, literal, literalWithin, literalItems_eq, enclosed, String.toList_append, String.toList_append,
    Text.toList_join, List.map_map]
  rfl

theorem literalList_map (entries : List (Value × Value)) :
    literalList (.map entries) = enclosedList '{' '}' (entries.map entryLiteral) := by
  rw [literalList, literal, literalWithin, literalEntries_eq, enclosed, String.toList_append, String.toList_append,
    Text.toList_join, List.map_map]
  have hentry : (String.toList ∘ fun e => literalWithin [] e.1 ++ ": " ++ literalWithin [] e.2) = entryLiteral := by
    funext e
    simp [entryLiteral, literalList, literal]
  rw [hentry]
  rfl

section Enclosed

variable {α : Type} {f : α → List Char} {closing : Char}

/-- What a part is written as tells the part, and what follows it. -/
def TellsPart (f : α → List Char) (x : α) (y : α) : Prop :=
  ∀ rest rest' : List Char, Ended rest → Ended rest' → f x ++ rest = f y ++ rest' → x = y ∧ rest = rest'

/-- No word goes on behind a part of a collection. -/
theorem ended_parts (hclosing : closing ∉ wordChars) (xs : List α) (rest : List Char) :
    Ended ((xs.map f).flatMap ([',', ' '] ++ ·) ++ closing :: rest) := by
  intro c hc
  cases xs with
  | nil => rwa [← Option.some_inj.1 hc]
  | cons x xs =>
    rw [← Option.some_inj.1 hc]
    decide

/-- The parts of a collection behind the first one are told from what is written, and so is what follows the
collection. -/
theorem parts_append_inj (hclosing : closing ∉ wordChars) (hcomma : closing ≠ ',') : ∀ {xs ys : List α}
    {rest rest' : List Char}, (∀ x ∈ xs, ∀ y ∈ ys, TellsPart f x y) →
    (xs.map f).flatMap ([',', ' '] ++ ·) ++ closing :: rest =
      (ys.map f).flatMap ([',', ' '] ++ ·) ++ closing :: rest' → xs = ys ∧ rest = rest'
  | [], [], _, _, _, h => ⟨rfl, (List.cons.inj h).2⟩
  | [], _ :: _, _, _, _, h => absurd (List.cons.inj h).1 hcomma
  | _ :: _, [], _, _, _, h => absurd (List.cons.inj h).1.symm hcomma
  | x :: xs, y :: ys, rest, rest', hf, h => by
    rw [List.map_cons, List.map_cons, List.flatMap_cons, List.flatMap_cons, List.append_assoc, List.append_assoc,
      List.append_assoc, List.append_assoc] at h
    obtain ⟨rfl, htail⟩ := hf x List.mem_cons_self y List.mem_cons_self _ _ (ended_parts hclosing xs rest)
      (ended_parts hclosing ys rest') (List.append_cancel_left h)
    obtain ⟨rfl, hrest⟩ := parts_append_inj hclosing hcomma
      (fun x hx y hy => hf x (List.mem_cons_of_mem _ hx) y (List.mem_cons_of_mem _ hy)) htail
    exact ⟨rfl, hrest⟩

/-- **The parts of a collection are told from what is written**, if that is so of every part and no part begins like
the end of a collection. -/
theorem enclosedList_append_inj {opening : Char} (hclosing : closing ∉ wordChars) (hcomma : closing ≠ ',')
    {xs ys : List α} {rest rest' : List Char} (hf : ∀ x ∈ xs, ∀ y ∈ ys, TellsPart f x y)
    (hstart : ∀ x ∈ xs ++ ys, ∃ c cs, f x = c :: cs ∧ c ≠ closing)
    (h : enclosedList opening closing (xs.map f) ++ rest = enclosedList opening closing (ys.map f) ++ rest') :
    xs = ys ∧ rest = rest' := by
  have hends (zs : List α) (rest : List Char) : enclosedList opening closing (zs.map f) ++ rest =
      opening :: (Text.joinList [',', ' '] (zs.map f) ++ closing :: rest) := by
    simp [enclosedList]
  rw [hends, hends] at h
  replace h := (List.cons.inj h).2
  cases xs with
  | nil =>
    cases ys with
    | nil => exact ⟨rfl, (List.cons.inj h).2⟩
    | cons y ys =>
      obtain ⟨c, cs, hy, hne⟩ := hstart y (by simp)
      rw [List.map_cons, Text.joinList_cons, hy] at h
      exact absurd (List.cons.inj h).1.symm hne
  | cons x xs =>
    cases ys with
    | nil =>
      obtain ⟨c, cs, hx, hne⟩ := hstart x (by simp)
      rw [List.map_cons, Text.joinList_cons, hx] at h
      exact absurd (List.cons.inj h).1 hne
    | cons y ys =>
      rw [List.map_cons, List.map_cons, Text.joinList_cons, Text.joinList_cons, List.append_assoc,
        List.append_assoc] at h
      obtain ⟨rfl, htail⟩ := hf x List.mem_cons_self y List.mem_cons_self _ _ (ended_parts hclosing xs rest)
        (ended_parts hclosing ys rest') h
      obtain ⟨rfl, hrest⟩ := parts_append_inj hclosing hcomma
        (fun x hx y hy => hf x (List.mem_cons_of_mem _ hx) y (List.mem_cons_of_mem _ hy)) htail
      exact ⟨rfl, hrest⟩

end Enclosed

/-! ## Literals -/

/-- The character that a literal begins with, if the value is no word. -/
def opening : Value → Option Char
  | .str _ => some '"'
  | .list _ => some '['
  | .map _ => some '{'
  | _ => none

/-- The literal of a value begins with its opening character, or with that of a word. -/
theorem literal_start {v : Value} (h : v.isJson = true) : ∃ c cs, literalList v = c :: cs ∧
    (v.opening = some c ∨ v.opening = none ∧ v.isWord = true ∧ c ∈ wordChars) := by
  have hword {v : Value} (h : v.isWord = true) : ∃ c cs, literalList v = c :: cs ∧ c ∈ wordChars := by
    obtain ⟨hne, hchars⟩ := literal_word h
    obtain ⟨c, cs, hcs⟩ := List.exists_cons_of_ne_nil hne
    exact ⟨c, cs, hcs, hchars (hcs ▸ List.mem_cons_self)⟩
  cases v with
  | null =>
    obtain ⟨c, cs, hcs, hc⟩ := hword (v := .null) rfl
    exact ⟨c, cs, hcs, Or.inr ⟨rfl, rfl, hc⟩⟩
  | bool b =>
    obtain ⟨c, cs, hcs, hc⟩ := hword (v := .bool b) rfl
    exact ⟨c, cs, hcs, Or.inr ⟨rfl, rfl, hc⟩⟩
  | int i =>
    obtain ⟨c, cs, hcs, hc⟩ := hword (v := .int i) rfl
    exact ⟨c, cs, hcs, Or.inr ⟨rfl, rfl, hc⟩⟩
  | float x =>
    obtain ⟨c, cs, hcs, hc⟩ := hword (v := .float x) rfl
    exact ⟨c, cs, hcs, Or.inr ⟨rfl, rfl, hc⟩⟩
  | str s => exact ⟨'"', _, literalList_str s, Or.inl rfl⟩
  | list items => exact ⟨'[', _, literalList_list items, Or.inl rfl⟩
  | map entries => exact ⟨'{', _, literalList_map entries, Or.inl rfl⟩
  | _ => simp [isJson] at h

theorem opening_not_word : ∀ {v : Value} {c : Char}, v.opening = some c → c ∉ wordChars := by
  intro v c h
  cases v with
  | str s => rw [← Option.some_inj.1 h]; decide
  | list items => rw [← Option.some_inj.1 h]; decide
  | map entries => rw [← Option.some_inj.1 h]; decide
  | _ => simp [opening] at h

/-- Values that begin alike begin with the same opening character. -/
theorem opening_eq {v w : Value} (hv : v.isJson = true) (hw : w.isJson = true) {rest rest' : List Char}
    (h : literalList v ++ rest = literalList w ++ rest') : v.opening = w.opening := by
  obtain ⟨c, cs, hcs, hc⟩ := literal_start hv
  obtain ⟨d, ds, hds, hd⟩ := literal_start hw
  rw [hcs, hds] at h
  have hsame := (List.cons.inj h).1
  subst hsame
  rcases hc with hc | ⟨hc, -, hword⟩ <;> rcases hd with hd | ⟨hd, -, hword'⟩
  · rw [hc, hd]
  · exact absurd hword' (opening_not_word hc)
  · exact absurd hword (opening_not_word hd)
  · rw [hc, hd]

/-- No literal begins like the end of a list. -/
theorem literal_start_ne {v : Value} (h : v.isJson = true) : ∃ c cs, literalList v = c :: cs ∧ c ≠ ']' := by
  obtain ⟨c, cs, hcs, hc⟩ := literal_start h
  refine ⟨c, cs, hcs, ?_⟩
  rintro rfl
  rcases hc with hc | ⟨-, -, hc⟩
  · cases v with
    | str | list | map => exact absurd (Option.some_inj.1 hc) (by decide)
    | _ => simp [opening] at hc
  · exact absurd hc (by decide)

/-- Lists are told by their literals, if their items are. -/
theorem literal_list_append_inj {items items' : List Value} (hjson : ∀ v ∈ items ++ items', v.isJson = true)
    (hitems : ∀ v ∈ items, ∀ w ∈ items', TellsPart literalList v w) :
    TellsPart literalList (.list items) (.list items') := by
  intro rest rest' _ _ h
  rw [literalList_list, literalList_list] at h
  obtain ⟨rfl, hrest⟩ := enclosedList_append_inj (by decide) (by decide) hitems
    (fun v hv => literal_start_ne (hjson v hv)) h
  exact ⟨rfl, hrest⟩

/-- An entry under a text is told by its literal, if its value is. -/
theorem entryLiteral_append_inj {entry entry' : Value × Value} {name name' : String} (hname : entry.1 = .str name)
    (hname' : entry'.1 = .str name') (hvalue : TellsPart literalList entry.2 entry'.2) :
    TellsPart entryLiteral entry entry' := by
  intro rest rest' hrest hrest' h
  obtain ⟨key, value⟩ := entry
  obtain ⟨key', value'⟩ := entry'
  dsimp only at hname hname'
  subst hname hname'
  simp only [entryLiteral, literalList_str, List.append_assoc, List.cons_append] at h
  obtain ⟨hkey, hafter⟩ := Text.quotedList_append_inj h
  obtain ⟨rfl, hrest⟩ := hvalue _ _ hrest hrest' (List.cons.inj (List.cons.inj hafter).2).2
  exact ⟨by rw [String.toList_inj.1 hkey], hrest⟩

/-- Mappings are told by their literals, if the values in them are. -/
theorem literal_map_append_inj {entries entries' : List (Value × Value)} (hjson : entriesAreJson entries = true)
    (hjson' : entriesAreJson entries' = true)
    (hvalues : ∀ e ∈ entries, ∀ e' ∈ entries', TellsPart literalList e.2 e'.2) :
    TellsPart literalList (.map entries) (.map entries') := by
  intro rest rest' _ _ h
  rw [literalList_map, literalList_map] at h
  have hentries : ∀ e ∈ entries, ∀ e' ∈ entries', TellsPart entryLiteral e e' := by
    intro e he e' he'
    obtain ⟨name, hname, -⟩ := exists_name hjson he
    obtain ⟨name', hname', -⟩ := exists_name hjson' he'
    exact entryLiteral_append_inj hname hname' (hvalues e he e' he')
  have hstart : ∀ e ∈ entries ++ entries', ∃ c cs, entryLiteral e = c :: cs ∧ c ≠ '}' := by
    intro e he
    obtain ⟨name, hname⟩ : ∃ name, e.1 = .str name := by
      rcases List.mem_append.1 he with he | he
      · obtain ⟨name, hname, -⟩ := exists_name hjson he
        exact ⟨name, hname⟩
      · obtain ⟨name, hname, -⟩ := exists_name hjson' he
        exact ⟨name, hname⟩
    rw [entryLiteral, hname, literalList_str]
    exact ⟨'"', _, rfl, by decide⟩
  obtain ⟨rfl, hrest⟩ := enclosedList_append_inj (by decide) (by decide) hentries hstart h
  exact ⟨rfl, hrest⟩

/-- Words are told by their literals, wherever they stand. -/
theorem literal_word_append_inj {v w : Value} (hword : v.isWord = true) (hv : v.isJson = true) (hw : w.isJson = true) :
    TellsPart literalList v w := by
  intro rest rest' hrest hrest' h
  have hopen := opening_eq hv hw h
  have hnone : v.opening = none := by
    cases v with
    | str | list | map => simp [isWord] at hword
    | _ => rfl
  have hword' : w.isWord = true := by
    obtain ⟨_, -, -, hc | ⟨-, hword', -⟩⟩ := literal_start hw
    · rw [← hopen, hnone] at hc
      simp at hc
    · exact hword'
  obtain ⟨hsame, hafter⟩ := word_append_inj (literal_word hword).2 (literal_word hword').2 hrest hrest' h
  exact ⟨literal_word_inj hword hword' hsame, hafter⟩

/-- **A JSON value is told by its literal, wherever the literal stands**, and so is what follows it. -/
theorem literal_append_inj : ∀ {v w : Value}, v.isJson = true → w.isJson = true → TellsPart literalList v w
  | .null, _, hv, hw => literal_word_append_inj rfl hv hw
  | .bool _, _, hv, hw => literal_word_append_inj rfl hv hw
  | .int _, _, hv, hw => literal_word_append_inj rfl hv hw
  | .float _, _, hv, hw => literal_word_append_inj rfl hv hw
  | .str s, w, hv, hw => by
    intro rest rest' _ _ h
    have hopen := opening_eq hv hw h
    cases w with
    | str s' =>
      rw [literalList_str, literalList_str] at h
      obtain ⟨hs, hrest⟩ := Text.quotedList_append_inj h
      exact ⟨by rw [String.toList_inj.1 hs], hrest⟩
    | _ => simp [opening] at hopen
  | .list items, w, hv, hw => by
    intro rest rest' hrest hrest' h
    have hopen := opening_eq hv hw h
    cases w with
    | list items' =>
      have hjson : ∀ x ∈ items ++ items', x.isJson = true := by
        intro x hx
        rcases List.mem_append.1 hx with hx | hx
        · exact isJson_of_mem_items hv hx
        · exact isJson_of_mem_items hw hx
      refine literal_list_append_inj hjson (fun x hx y hy => ?_) _ _ hrest hrest' h
      exact literal_append_inj (hjson x (List.mem_append_left _ hx)) (hjson y (List.mem_append_right _ hy))
    | _ => simp [opening] at hopen
  | .map entries, w, hv, hw => by
    intro rest rest' hrest hrest' h
    have hopen := opening_eq hv hw h
    cases w with
    | map entries' =>
      refine literal_map_append_inj hv hw (fun e he e' he' => ?_) _ _ hrest hrest' h
      exact literal_append_inj (isJson_of_mem hv he) (isJson_of_mem hw he')
    | _ => simp [opening] at hopen
termination_by v => sizeOf v
decreasing_by
  · have := List.sizeOf_lt_of_mem hx
    simp only [Value.list.sizeOf_spec]
    omega
  · exact sizeOf_lt_of_mem he

/-! ## One line -/

theorem isPlain_enclosedList {start closing : Char} {parts : List (List Char)} (hstart : 0x20 ≤ start.toNat)
    (hclosing : 0x20 ≤ closing.toNat) (h : ∀ part ∈ parts, IsPlain part) :
    IsPlain (enclosedList start closing parts) := by
  have hparts : IsPlain (start :: Text.joinList [',', ' '] parts) :=
    isPlain_cons.2 ⟨hstart, Text.isPlain_joinList (by decide) h⟩
  exact hparts.append (isPlain_cons.2 ⟨hclosing, isPlain_nil⟩)

theorem isPlain_of_isWord {v : Value} (h : v.isWord = true) : IsPlain (literalList v) := by
  have hchars : IsPlain wordChars := by decide
  exact fun c hc => hchars c ((literal_word h).2 hc)

/-- **The literal of a JSON value holds no control characters.** -/
theorem isPlain_literalList : ∀ {v : Value}, v.isJson = true → IsPlain (literalList v)
  | .null, _ => isPlain_of_isWord rfl
  | .bool _, _ => isPlain_of_isWord rfl
  | .int _, _ => isPlain_of_isWord rfl
  | .float _, _ => isPlain_of_isWord rfl
  | .str s, _ => by
    rw [literalList_str]
    exact Text.isPlain_quotedList s.toList
  | .list items, h => by
    rw [literalList_list]
    refine isPlain_enclosedList (by decide) (by decide) fun part hpart => ?_
    obtain ⟨item, hitem, rfl⟩ := List.mem_map.1 hpart
    exact isPlain_literalList (isJson_of_mem_items h hitem)
  | .map entries, h => by
    rw [literalList_map]
    refine isPlain_enclosedList (by decide) (by decide) fun part hpart => ?_
    obtain ⟨entry, hentry, rfl⟩ := List.mem_map.1 hpart
    obtain ⟨name, hname, -⟩ := exists_name h hentry
    have hvalue := isPlain_literalList (isJson_of_mem h hentry)
    rw [entryLiteral, hname, literalList_str]
    exact (Text.isPlain_quotedList name.toList).append
      (isPlain_cons.2 ⟨by decide, isPlain_cons.2 ⟨by decide, hvalue⟩⟩)
termination_by v => sizeOf v
decreasing_by
  · have := List.sizeOf_lt_of_mem hitem
    simp only [Value.list.sizeOf_spec]
    omega
  · exact sizeOf_lt_of_mem hentry

/-- A text without control characters is quoted as one line. -/
theorem isPlain_blockQuote {s : String} (h : IsPlain s.toList) : IsPlain (Markdown.blockQuote s).toList := by
  have hfeed : '\n' ∉ s.toList := fun hc => absurd (h _ hc) (by decide)
  rw [Markdown.blockQuote, String.toList_ofList, Text.splitList_of_not_mem hfeed, List.map_singleton, Text.joinList,
    Markdown.quoteLine]
  split
  · decide
  · exact isPlain_cons.2 ⟨by decide, isPlain_cons.2 ⟨by decide, h⟩⟩

/-- **JSON values are told by their literals, and a literal keeps to its line**: neither the literal of a JSON value
nor the line about a default, at any depth of quotation, holds a control character. -/
theorem literal_injective_and_plain :
    (∀ v w : Value, v.isJson = true → w.isJson = true → literal v = literal w → v = w) ∧
    ∀ v : Value, v.isJson = true → (∀ c ∈ (literal v).toList, 0x20 ≤ c.toNat) ∧ ∀ depth,
      ∀ c ∈ (Markdown.blockQuote^[depth] ("Default: `" ++ literal v ++ "`")).toList, 0x20 ≤ c.toNat := by
  constructor
  · intro v w hv hw h
    have hend : Ended [] := by simp [Ended]
    have hlists : literalList v ++ [] = literalList w ++ [] := by rw [literalList, h, literalList]
    exact (literal_append_inj hv hw [] [] hend hend hlists).1
  · intro v hv
    have hliteral : IsPlain (literal v).toList := isPlain_literalList hv
    have hline : IsPlain ("Default: `" ++ literal v ++ "`").toList := by
      have hfront : IsPlain "Default: `".toList := by decide
      have hback : IsPlain "`".toList := by decide
      rw [String.toList_append, String.toList_append]
      exact (hfront.append hliteral).append hback
    refine ⟨hliteral, fun depth => ?_⟩
    induction depth with
    | zero => exact hline
    | succ depth ih =>
      rw [Function.iterate_succ_apply']
      exact isPlain_blockQuote ih

theorem literal_injective_and_plain_nested :
    literal (.list ([.str "a, \"b\n"] ++ [.map [(.str "c", .bool true)]])) =
        literal (.list [.str "a, \"b\n", .map [(.str "c", .bool true)]]) ∧
      Value.list ([.str "a, \"b\n"] ++ [.map [(.str "c", .bool true)]]) =
        .list [.str "a, \"b\n", .map [(.str "c", .bool true)]] ∧
      ∀ c ∈ (literal (.list [.str "a, \"b\n", .map [(.str "c", .bool true)]])).toList, 0x20 ≤ c.toNat :=
  ⟨rfl, literal_injective_and_plain.1 _ _ (by decide) (by decide) rfl,
    (literal_injective_and_plain.2 _ (by decide)).1⟩

end Value

end SchemaDocs
