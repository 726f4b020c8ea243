import SchemaDocs.Text.Escape

/-!
# Reading markup

A strict reader of markup, character by character: what stands between `<` and `>` is a tag, a reference stands for
its character, and a `<`, `>` or `"` that is not part of a tag is refused. It knows nothing of how documents are
written.

Tags and letters that are written one after another are read as these very tags and letters (`read_write`): a text is
read as itself, in content as well as in an attribute, whatever characters it is made of. Conversely, every `<`, `>`
and `"` of a text that can be read belongs to one of its tags (`marks_of_read`).
-/

namespace SchemaDocs.Markup

def isMark (c : Char) : Bool := c = '<' || c = '>' || c = '"'

/-- A character of the name of a tag, of an attribute or of a reference. -/
def isNameChar (c : Char) : Bool := c.isAlphanum || c = '#'

/-- A tag as it is told from others: by its name and the names of its attributes. -/
inductive Tag where
  /-- The declaration of the type of the document. -/
  | declaration
  | opening (name : String) (attributes : List String)
  | closing (name : String)
deriving DecidableEq

/-- What markup consists of: tags, and the letters of the texts between them. -/
inductive Token where
  | declaration
  | opening (name : String) (attributes : List (String × String))
  | closing (name : String)
  | letter (c : Char)
deriving DecidableEq

def Token.tag? : Token → Option Tag
  | .declaration => some .declaration
  | .opening name attributes => some (.opening name (attributes.map (·.1)))
  | .closing name => some (.closing name)
  | .letter _ => none

/-- The tags in the order in which they stand. -/
def tags (tokens : List Token) : List Tag := tokens.filterMap Token.tag?

/-! ## The reader -/

/-- An opening tag as far as it has been read. -/
structure Opened where
  name : String
  attributes : List (String × String) := []

/-- A place where a text may stand: between the tags, or in the value of an attribute of an opening tag, with what has
been read of it. -/
inductive Slot where
  | content
  | value (tag : Opened) (name : String) (text : List Char)

/-- Where the reader is. -/
inductive State where
  | slot (s : Slot)
  /-- Behind the `&` of a reference. -/
  | reference (s : Slot) (name : List Char)
  /-- Behind a `<`. -/
  | start
  | declaration (text : List Char)
  | closing (name : List Char)
  | opening (name : List Char)
  | attributeName (tag : Opened) (name : List Char)
  /-- Behind the `=` of an attribute. -/
  | equals (tag : Opened) (name : String)
  /-- Behind the value of an attribute. -/
  | behind (tag : Opened)

def referred? (name : List Char) : Option Char :=
  if name = ['a', 'm', 'p'] then some '&'
  else if name = ['l', 't'] then some '<'
  else if name = ['g', 't'] then some '>'
  else if name = ['#', '3', '4'] then some '"'
  else if name = ['#', '3', '9'] then some '\''
  else none

def Slot.add : Slot → Char → State × List Token
  | .content, c => (.slot .content, [.letter c])
  | .value tag name text, c => (.slot (.value tag name (text ++ [c])), [])

/-- What becomes of a slot at a character that markup is made of. -/
def Slot.leave : Slot → Char → Option State
  | .content, c => if c = '<' then some .start else none
  | .value tag name text, c =>
    if c = '"' then some (.behind { tag with attributes := tag.attributes ++ [(name, String.ofList text)] }) else none

def State.extend (state : List Char → State) (name : List Char) (c : Char) : Option (State × List Token) :=
  if isNameChar c then some (state (name ++ [c]), []) else none

/-- Reads a character: where the reader gets to, and the tag or the letter that is complete with it. -/
def step : State → Char → Option (State × List Token)
  | .slot s, c =>
    if c = '&' then some (.reference s [], [])
    else if isMark c then (s.leave c).map fun state => (state, [])
    else some (s.add c)
  | .reference s name, c =>
    if c = ';' then (referred? name).map s.add else State.extend (.reference s) name c
  | .start, c =>
    if c = '!' then some (.declaration [], [])
    else if c = '/' then some (.closing [], [])
    else State.extend .opening [] c
  | .declaration text, c =>
    if c = '>' then
      if text = "DOCTYPE html".toList then some (.slot .content, [.declaration]) else none
    else if isMark c then none
    else some (.declaration (text ++ [c]), [])
  | .closing name, c =>
    if c = '>' then some (.slot .content, [.closing (String.ofList name)]) else State.extend .closing name c
  | .opening name, c =>
    if c = '>' then some (.slot .content, [.opening (String.ofList name) []])
    else if c = ' ' then some (.attributeName ⟨String.ofList name, []⟩ [], [])
    else State.extend .opening name c
  | .attributeName tag name, c =>
    if c = '=' then some (.equals tag (String.ofList name), []) else State.extend (.attributeName tag) name c
  | .equals tag name, c => if c = '"' then some (.slot (.value tag name []), []) else none
  | .behind tag, c =>
    if c = '>' then some (.slot .content, [.opening tag.name tag.attributes])
    else if c = ' ' then some (.attributeName tag [], [])
    else none

def run : State → List Char → Option (State × List Token)
  | state, [] => some (state, [])
  | state, c :: cs => do
    let (next, tokens) ← step state c
    let (last, rest) ← run next cs
    return (last, tokens ++ rest)

/-- What a text of markup consists of; nothing if it is not markup or ends inside a tag. -/
def read (cs : List Char) : Option (List Token) :=
  match run (.slot .content) cs with
  | some (.slot .content, tokens) => some tokens
  | _ => none

theorem run_append {state middle last : State} {front back : List Char} {tokens rest : List Token}
    (h : run state front = some (middle, tokens)) (hb : run middle back = some (last, rest)) :
    run state (front ++ back) = some (last, tokens ++ rest) := by
  induction front generalizing state tokens with
  | nil =>
    cases h
    exact hb
  | cons c cs ih =>
    simp only [run, Option.bind_eq_bind, Option.bind_eq_some_iff, Prod.exists] at h
    obtain ⟨next, first, hstep, last, others, hrun, heq⟩ := h
    cases heq
    simp only [List.cons_append, run, hstep, ih hrun, Option.bind_eq_bind, Option.bind_some, List.append_assoc]
    rfl

/-! ## Writing and reading -/

def IsName (name : String) : Prop := name.toList ≠ [] ∧ ∀ c ∈ name.toList, isNameChar c

-- it looks at the characters of the name only; that there are finitely many characters at all is no way to decide it
instance (name : String) : Decidable (IsName name) :=
  @instDecidableAnd _ _ _ (List.decidableBAll (fun c => isNameChar c = true) name.toList)

/-- The names of a tag are names. -/
def Token.Proper : Token → Prop
  | .opening name attributes => IsName name ∧ ∀ e ∈ attributes, IsName e.1
  | .closing name => IsName name
  | _ => True

def writeAttribute (e : String × String) : List Char :=
  ' ' :: e.1.toList ++ '=' :: '"' :: e.2.toList.flatMap Text.escapeMarkupChar ++ ['"']

/-- A tag or a letter as it is written. -/
def Token.write : Token → List Char
  | .declaration => '<' :: '!' :: "DOCTYPE html".toList ++ ['>']
  | .opening name attributes => '<' :: name.toList ++ attributes.flatMap writeAttribute ++ ['>']
  | .closing name => '<' :: '/' :: name.toList ++ ['>']
  | .letter c => Text.escapeMarkupChar c

theorem run_one {state next : State} {tokens : List Token} {c : Char} (h : step state c = some (next, tokens)) :
    run state [c] = some (next, tokens) := by
  simp [run, h]

/-- **An escaped character is read as itself**, wherever a text may stand. -/
theorem run_escape (s : Slot) (c : Char) : run (.slot s) (Text.escapeMarkupChar c) = some (s.add c) := by
  rw [Text.escapeMarkupChar]
  repeat' split
  any_goals subst ‹c = _›; cases s <;> rfl
  apply run_one
  rw [step, if_neg ‹¬c = '&'›, if_neg (by simp [isMark, *])]
  rfl

/-- Characters that only make the name, at which the reader is, longer. -/
theorem run_extend {state : List Char → State} {cs : List Char}
    (h : ∀ c ∈ cs, ∀ name, step (state name) c = some (state (name ++ [c]), [])) (name : List Char) :
    run (state name) cs = some (state (name ++ cs), []) := by
  induction cs generalizing name with
  | nil => simp [run]
  | cons c cs ih =>
    rw [List.forall_mem_cons] at h
    have hrun := run_append (run_one (h.1 name)) (ih h.2 (name ++ [c]))
    rwa [List.append_assoc] at hrun

theorem ne_of_isNameChar {c d : Char} (hc : isNameChar c) (hd : isNameChar d = false) : c ≠ d := by
  rintro rfl
  rw [hc] at hd
  cases hd

theorem step_closing {c : Char} (h : isNameChar c) (name : List Char) :
    step (.closing name) c = some (.closing (name ++ [c]), []) := by
  rw [step, if_neg (ne_of_isNameChar h (by decide)), State.extend, if_pos h]

theorem step_opening {c : Char} (h : isNameChar c) (name : List Char) :
    step (.opening name) c = some (.opening (name ++ [c]), []) := by
  rw [step, if_neg (ne_of_isNameChar h (by decide)), if_neg (ne_of_isNameChar h (by decide)), State.extend, if_pos h]

theorem step_attribute (tag : Opened) {c : Char} (h : isNameChar c) (name : List Char) :
    step (.attributeName tag name) c = some (.attributeName tag (name ++ [c]), []) := by
  rw [step, if_neg (ne_of_isNameChar h (by decide)), State.extend, if_pos h]

theorem step_declaration {c : Char} (h : isMark c = false) (text : List Char) :
    step (.declaration text) c = some (.declaration (text ++ [c]), []) := by
  have hc : c ≠ '>' := by
    rintro rfl
    cases h
  rw [step, if_neg hc, h]
  rfl

/-- A text in the value of an attribute is read as itself. -/
theorem run_value (tag : Opened) (name : String) (cs text : List Char) :
    run (.slot (.value tag name text)) (cs.flatMap Text.escapeMarkupChar) =
      some (.slot (.value tag name (text ++ cs)), []) := by
  induction cs generalizing text with
  | nil => simp [run]
  | cons c cs ih =>
    have hc : run (.slot (.value tag name text)) (Text.escapeMarkupChar c) =
        some (.slot (.value tag name (text ++ [c])), []) := run_escape _ c
    rw [List.flatMap_cons, run_append hc (ih (text ++ [c])), List.append_assoc]
    rfl

/-- An attribute is read behind the name of a tag as well as behind another attribute. -/
theorem run_writeAttribute {state : State} {tag : Opened} (hstate : step state ' ' = some (.attributeName tag [], []))
    {e : String × String} (he : IsName e.1) :
    run state (writeAttribute e) = some (.behind { tag with attributes := tag.attributes ++ [e] }, []) := by
  have hname : run (.attributeName tag []) e.1.toList = some (.attributeName tag e.1.toList, []) :=
    run_extend (fun c hc => step_attribute tag (he.2 c hc)) []
  have hequals : run (.attributeName tag e.1.toList) ['=', '"'] =
      some (.slot (.value tag (String.ofList e.1.toList) []), []) := rfl
  have hvalue := run_value tag (String.ofList e.1.toList) e.2.toList []
  have hquote : run (.slot (.value tag (String.ofList e.1.toList) e.2.toList)) ['"'] = some (.behind { tag with
      attributes := tag.attributes ++ [(String.ofList e.1.toList, String.ofList e.2.toList)] }, []) := rfl
  have hrun := run_append (run_one hstate) (run_append hname (run_append hequals (run_append hvalue hquote)))
  simpa only [writeAttribute, String.ofList_toList, List.singleton_append, List.cons_append, List.append_assoc,
    List.nil_append, List.append_nil] using hrun

theorem run_writeAttributes (tag : Opened) {attributes : List (String × String)}
    (h : ∀ e ∈ attributes, IsName e.1) : run (.behind tag) (attributes.flatMap writeAttribute) =
      some (.behind { tag with attributes := tag.attributes ++ attributes }, []) := by
  induction attributes generalizing tag with
  | nil => simp [run]
  | cons e rest ih =>
    have he : run (.behind tag) (writeAttribute e) = _ := run_writeAttribute rfl (h e List.mem_cons_self)
    have hrest := ih { tag with attributes := tag.attributes ++ [e] } fun d hd => h d (List.mem_cons_of_mem e hd)
    rw [List.flatMap_cons, run_append he hrest, List.append_assoc]
    rfl

/-- An opening tag is complete behind its name, if it has no attributes, or behind the last of them. -/
theorem run_opening {name : String} {attributes : List (String × String)} (h : ∀ e ∈ attributes, IsName e.1) :
    run (.opening name.toList) (attributes.flatMap writeAttribute ++ ['>']) =
      some (.slot .content, [.opening name attributes]) := by
  cases attributes with
  | nil =>
    have hend : run (.opening name.toList) ['>'] =
      some (.slot .content, [.opening (String.ofList name.toList) []]) := rfl
    rwa [String.ofList_toList] at hend
  | cons e rest =>
    have he : run (.opening name.toList) (writeAttribute e) = _ := run_writeAttribute rfl (h e List.mem_cons_self)
    have hrest := run_writeAttributes ⟨String.ofList name.toList, [e]⟩ fun d hd => h d (List.mem_cons_of_mem e hd)
    have hend : run (.behind ⟨String.ofList name.toList, e :: rest⟩) ['>'] =
      some (.slot .content, [.opening (String.ofList name.toList) (e :: rest)]) := rfl
    rw [List.flatMap_cons, List.append_assoc, run_append he (run_append hrest hend), String.ofList_toList]
    rfl

/-- **What is written is read back**, one tag or letter at a time. -/
theorem run_write {token : Token} (h : token.Proper) :
    run (.slot .content) token.write = some (.slot .content, [token]) := by
  cases token with
  | declaration =>
    have hstart : run (.slot .content) ['<', '!'] = some (.declaration [], []) := rfl
    have hmarks : "DOCTYPE html".toList.any isMark = false := by decide
    have htext : run (.declaration []) "DOCTYPE html".toList = some (.declaration "DOCTYPE html".toList, []) :=
      run_extend (fun c hc => step_declaration (Bool.eq_false_iff.2 (List.any_eq_false.1 hmarks c hc))) []
    have hend : run (.declaration "DOCTYPE html".toList) ['>'] = some (.slot .content, [.declaration]) :=
      run_one (by rw [step, if_pos rfl, if_pos rfl])
    exact run_append hstart (run_append htext hend)
  | letter c => exact run_escape .content c
  | closing name =>
    have hstart : run (.slot .content) ['<', '/'] = some (.closing [], []) := rfl
    have hname : run (.closing []) name.toList = some (.closing name.toList, []) :=
      run_extend (fun c hc => step_closing (h.2 c hc)) []
    have hend : run (.closing name.toList) ['>'] = some (.slot .content, [.closing (String.ofList name.toList)]) := rfl
    have hrun := run_append hstart (run_append hname hend)
    simpa only [Token.write, String.ofList_toList, List.cons_append, List.nil_append] using hrun
  | opening name attributes =>
    obtain ⟨⟨hne, hchars⟩, hattributes⟩ := h
    obtain ⟨c, cs, hcs⟩ := List.exists_cons_of_ne_nil hne
    rw [hcs, List.forall_mem_cons] at hchars
    have hstart : run (.slot .content) ['<'] = some (.start, []) := rfl
    have hfirst : run .start [c] = some (.opening [c], []) := by
      apply run_one
      rw [step, if_neg (ne_of_isNameChar hchars.1 (by decide)), if_neg (ne_of_isNameChar hchars.1 (by decide)),
        State.extend, if_pos hchars.1]
      rfl
    have hname : run (.opening [c]) cs = some (.opening name.toList, []) := by
      rw [hcs]
      exact run_extend (fun d hd => step_opening (hchars.2 d hd)) [c]
    have hrun := run_append hstart (run_append hfirst (run_append hname (run_opening hattributes)))
    simpa [Token.write, hcs] using hrun

/-- **Tags and letters that are written one after another are read as what they are.** -/
theorem read_write {tokens : List Token} (h : ∀ token ∈ tokens, token.Proper) :
    read (tokens.flatMap Token.write) = some tokens := by
  have hrun : run (.slot .content) (tokens.flatMap Token.write) = some (.slot .content, tokens) := by
    induction tokens with
    | nil => rfl
    | cons token rest ih =>
      rw [List.forall_mem_cons] at h
      exact run_append (run_write h.1) (ih h.2)
  rw [read, hrun]

/-! ## Marks -/

/-- The characters that a tag is made of, the quotation marks of its attributes among them. -/
def Tag.marks : Tag → List Char
  | .declaration => ['<', '>']
  | .opening _ attributes => '<' :: attributes.flatMap (fun _ => ['"', '"']) ++ ['>']
  | .closing _ => ['<', '>']

/-- The marks of an opening tag that have been read with its attributes. -/
def Opened.marks (tag : Opened) : List Char := '<' :: tag.attributes.flatMap fun _ => ['"', '"']

/-- The marks in front of a slot that belong to a tag that is not complete. -/
def Slot.marks : Slot → List Char
  | .content => []
  | .value tag _ _ => tag.marks ++ ['"']

/-- The marks that have been read and belong to a tag that is not complete. -/
def State.marks : State → List Char
  | .slot s => s.marks
  | .reference s _ => s.marks
  | .start => ['<']
  | .declaration _ => ['<']
  | .closing _ => ['<']
  | .opening _ => ['<']
  | .attributeName tag _ => tag.marks
  | .equals tag _ => tag.marks
  | .behind tag => tag.marks

def marks (tokens : List Token) : List Char := (tags tokens).flatMap Tag.marks

theorem marks_append (tokens rest : List Token) : marks (tokens ++ rest) = marks tokens ++ marks rest := by
  simp only [marks, tags, List.filterMap_append, List.flatMap_append]

theorem isMark_of_isNameChar {c : Char} (h : isNameChar c) : isMark c = false := by
  rw [isMark, decide_eq_false (ne_of_isNameChar h (d := '<') (by decide)),
    decide_eq_false (ne_of_isNameChar h (d := '>') (by decide)),
    decide_eq_false (ne_of_isNameChar h (d := '"') (by decide))]
  rfl

/-- A character that is added to the text of a slot is no mark of a tag. -/
theorem Slot.marks_add (s : Slot) (c : Char) : Markup.marks (s.add c).2 ++ (s.add c).1.marks = s.marks := by
  cases s <;> rfl

theorem Slot.marks_leave {s : Slot} {c : Char} {next : State} (h : s.leave c = some next) :
    next.marks = s.marks ++ [c] := by
  cases s with
  | content =>
    simp only [leave, Option.ite_none_right_eq_some, Option.some.injEq] at h
    obtain ⟨rfl, rfl⟩ := h
    rfl
  | value tag name text =>
    simp only [leave, Option.ite_none_right_eq_some, Option.some.injEq] at h
    obtain ⟨rfl, rfl⟩ := h
    simp [State.marks, Opened.marks, Slot.marks]

/-- A character that makes a name longer is no mark. -/
theorem marks_extend {state : List Char → State} {name : List Char} {c : Char} {next : State} {tokens : List Token}
    (h : State.extend state name c = some (next, tokens)) :
    [c].filter isMark = [] ∧ tokens = [] ∧ next = state (name ++ [c]) := by
  rw [State.extend, Option.ite_none_right_eq_some] at h
  obtain ⟨hc, heq⟩ := h
  cases heq
  exact ⟨by simp [isMark_of_isNameChar hc], rfl, rfl⟩

/-- One step accounts for the mark that it reads: it belongs to the tag that is complete with it, or to the one that is
still read. -/
theorem marks_step {state next : State} {c : Char} {tokens : List Token} (h : step state c = some (next, tokens)) :
    state.marks ++ [c].filter isMark = marks tokens ++ next.marks := by
  cases state with
  | slot s =>
    rw [step] at h
    split at h
    · next hc =>
      cases h
      cases hc
      exact List.append_nil s.marks
    · split at h
      · next hmark =>
        obtain ⟨state, hleave, heq⟩ := Option.map_eq_some_iff.1 h
        cases heq
        rw [Slot.marks_leave hleave, List.filter_cons_of_pos hmark]
        rfl
      · next hmark =>
        have hadd := Slot.marks_add s c
        rw [Option.some.inj h] at hadd
        rw [List.filter_cons_of_neg hmark, hadd]
        exact List.append_nil s.marks
  | reference s name =>
    rw [step] at h
    split at h
    · next hc =>
      obtain ⟨d, -, heq⟩ := Option.map_eq_some_iff.1 h
      have hadd := Slot.marks_add s d
      rw [heq] at hadd
      cases hc
      rw [hadd]
      exact List.append_nil s.marks
    · obtain ⟨hc, rfl, rfl⟩ := marks_extend h
      rw [hc]
      exact List.append_nil s.marks
  | start | closing name | opening name =>
    rw [step] at h
    repeat' split at h
    -- only the last case goes on with a name
    any_goals cases h; cases ‹c = _›; rfl
    obtain ⟨hc, rfl, rfl⟩ := marks_extend h
    rw [hc]
    rfl
  | declaration text =>
    rw [step] at h
    split at h
    · next hc =>
      rw [Option.ite_none_right_eq_some] at h
      cases h.2
      cases hc
      rfl
    · rw [Option.ite_none_left_eq_some] at h
      cases h.2
      rw [List.filter_cons_of_neg h.1]
      rfl
  | attributeName tag name =>
    rw [step] at h
    split at h
    · next hc =>
      cases h
      cases hc
      exact List.append_nil tag.marks
    · obtain ⟨hc, rfl, rfl⟩ := marks_extend h
      rw [hc]
      exact List.append_nil tag.marks
  | equals tag name =>
    rw [step, Option.ite_none_right_eq_some] at h
    obtain ⟨hc, heq⟩ := h
    cases hc
    cases heq
    rfl
  | behind tag =>
    rw [step] at h
    split at h
    · next hc =>
      cases h
      cases hc
      simp [State.marks, Opened.marks, marks, tags, Token.tag?, Tag.marks, Slot.marks, isMark, List.flatMap_map]
    · rw [Option.ite_none_right_eq_some] at h
      obtain ⟨hc, heq⟩ := h
      cases hc
      cases heq
      exact List.append_nil tag.marks

theorem marks_run {state last : State} {cs : List Char} {tokens : List Token} (h : run state cs = some (last, tokens)) :
    state.marks ++ cs.filter isMark = marks tokens ++ last.marks := by
  induction cs generalizing state tokens with
  | nil =>
    cases h
    simp [marks, tags]
  | cons c cs ih =>
    simp only [run, Option.bind_eq_bind, Option.bind_eq_some_iff, Prod.exists] at h
    obtain ⟨next, first, hstep, last, rest, hrun, heq⟩ := h
    cases heq
    calc state.marks ++ (c :: cs).filter isMark
        = (state.marks ++ [c].filter isMark) ++ cs.filter isMark := by
          rw [List.append_assoc, ← List.filter_append]
          rfl
      _ = marks first ++ (next.marks ++ cs.filter isMark) := by rw [marks_step hstep, List.append_assoc]
      _ = marks (first ++ rest) ++ last.marks := by rw [ih hrun, marks_append, List.append_assoc]

/-- **Every `<`, `>` and `"` of a text that can be read is part of one of its tags.** -/
theorem marks_of_read {cs : List Char} {tokens : List Token} (h : read cs = some tokens) :
    cs.filter isMark = marks tokens := by
  rw [read] at h
  split at h
  · next hrun =>
    cases h
    simpa [State.marks, Slot.marks] using marks_run hrun
  · cases h

example : read "<b>1 < 2</b>".toList = none := by decide

example : read "<b>&lt;</b>".toList = some [.opening "b" [], .letter '<', .closing "b"] := by decide

/-! ## Nesting -/

/-- The elements that have no content and no closing tag. -/
def voids : List String :=
  ["area", "base", "br", "col", "embed", "hr", "img", "input", "link", "meta", "source", "track", "wbr"]

/-- The elements that are open behind a tag, innermost first; nothing if it closes another than the innermost one. -/
def nest : List String → Tag → Option (List String)
  | outer, .opening name _ => if name ∈ voids then some outer else some (name :: outer)
  | inner :: outer, .closing name => if name = inner then some outer else none
  | [], .closing _ => none
  | outer, .declaration => some outer

/-- Every element that is opened is closed, the innermost one first. -/
def Balanced (tags : List Tag) : Prop := tags.foldlM nest [] = some []

instance (tags : List Tag) : Decidable (Balanced tags) := inferInstanceAs (Decidable (_ = _))

/-- Tags that leave the elements open that are open in front of them. -/
def Nested (tags : List Tag) : Prop := ∀ outer, tags.foldlM nest outer = some outer

theorem Nested.balanced {tags : List Tag} (h : Nested tags) : Balanced tags := h []

theorem Nested.nil : Nested [] := fun _ => rfl

theorem Nested.append {front back : List Tag} (hf : Nested front) (hb : Nested back) : Nested (front ++ back) := by
  intro outer
  rw [List.foldlM_append, hf outer]
  exact hb outer

/-- An element around tags that are nested. -/
theorem Nested.element {name : String} (hname : name ∉ voids) (attributes : List String) {inner : List Tag}
    (h : Nested inner) : Nested (.opening name attributes :: inner ++ [.closing name]) := by
  intro outer
  rw [List.cons_append, List.foldlM_cons, nest, if_neg hname, Option.bind_eq_bind, Option.bind_some,
    List.foldlM_append, h]
  simp [nest]

/-! ## Faithful texts -/

/-- A text that says what tokens say, whose tags are those of a shape. -/
structure Faithful (text : String) (tokens shape : List Token) : Prop where
  /-- Every text between the tags and in their attributes is read as itself. -/
  read : read text.toList = some tokens
  tags : tags tokens = tags shape
  balanced : Balanced (Markup.tags tokens)
  /-- What markup is made of stems from the tags of the shape. -/
  marks : text.toList.filter isMark = marks shape

structure Written (text : String) (tokens : List Token) : Prop where
  write : text.toList = tokens.flatMap Token.write
  proper : ∀ token ∈ tokens, token.Proper
  nested : Nested (Markup.tags tokens)

theorem Written.faithful {text : String} {tokens shape : List Token} (h : Written text tokens)
    (htags : Markup.tags tokens = Markup.tags shape) : Faithful text tokens shape := by
  have hread : Markup.read text.toList = some tokens := by rw [h.write, read_write h.proper]
  exact ⟨hread, htags, h.nested.balanced, by rw [marks_of_read hread, Markup.marks, Markup.marks, htags]⟩

/-- Tokens are written in one way. -/
theorem Written.text_eq {text text' : String} {tokens : List Token} (h : Written text tokens)
    (h' : Written text' tokens) : text = text' := by
  rw [← String.toList_inj, h.write, h'.write]

end SchemaDocs.Markup
