import SchemaDocs.Command.Request
import SchemaDocs.Proofs.Outcomes

/-!
# What is given on a command line

An option that takes a text is given with one, unless two dashes behind its equals sign are taken away. Where they are
kept, what is given without a text is an option that takes none (`ne_of_ofWords`), so the command that shows a document
is not carried out without a key (`action_ne_render_none`).
-/

namespace SchemaDocs.Command

variable {forms : List OptionForm} {form : OptionForm} {oneLetter : Bool} {attached : Option (List Char)}

theorem mem_of_named? {name : List Char}
    (h : named? forms name = some form) : form ∈ forms ∧ String.ofList name ∈ form.names :=
  ⟨List.mem_of_find?_eq_some h, by simpa using List.find?_some h⟩

/-- A word that is an option is one of the options that are known. -/
theorem mem_of_ofText {s : String}
    (h : Word.ofText forms s = .ok (.option form oneLetter attached)) : form ∈ forms := by
  have hknown {cs : List Char} (h : knownOption? forms cs = some (.option form oneLetter attached)) : form ∈ forms := by
    unfold knownOption? at h
    split at h
    · rename_i hnamed
      cases h
      exact (mem_of_named? hnamed).1
    · split at h
      · rw [Option.map_eq_some_iff] at h
        obtain ⟨_, hnamed, heq⟩ := h
        cases heq
        exact (mem_of_named? hnamed).1
      · cases h
  have hlong {cs : List Char} (h : .option form oneLetter attached ∈ longOptions forms cs) : form ∈ forms := by
    simp only [longOptions, List.mem_flatMap, List.mem_map] at h
    obtain ⟨_, hm, _, -, heq⟩ := h
    cases heq
    exact hm
  have hshort {cs : List Char} (h : .option form oneLetter attached ∈ shortOptions forms cs) : form ∈ forms := by
    simp only [shortOptions, Option.mem_toList, Option.map_eq_some_iff] at h
    obtain ⟨_, hnamed, heq⟩ := h
    cases heq
    exact (mem_of_named? hnamed).1
  unfold Word.ofText at h
  dsimp only at h
  split at h
  · split at h
    · rename_i hword
      cases h
      exact hknown hword
    · split at h
      · rename_i hwords
        cases h
        split at hwords
        · exact hlong (hwords ▸ List.mem_singleton_self _)
        · exact hshort (hwords ▸ List.mem_singleton_self _)
      · cases h
      · split at h <;> cases h
  · cases h

theorem mem_of_ofTexts :
    ∀ {texts : List String} {words : List Word}, Word.ofTexts forms texts = .ok words →
      .option form oneLetter attached ∈ words → form ∈ forms
  | [], _, h, hm => by
    cases h
    cases hm
  | text :: rest, words, h, hm => by
    unfold Word.ofTexts at h
    split at h
    · rename_i heq; cases heq
    · cases h
      simp at hm
    · rename_i heq
      cases heq
      obtain ⟨word, hword, h⟩ := except_bind_ok.1 h
      obtain ⟨others, hothers, h⟩ := except_bind_ok.1 h
      cases h
      rcases List.mem_cons.1 hm with rfl | hm
      · exact mem_of_ofText hword
      · exact mem_of_ofTexts hothers hm

/-! ## Options without a text -/

/-- The option takes no text, or has a name of one letter. -/
def IsShort (forms : List OptionForm) (form : OptionForm) : Prop :=
  form ∈ forms ∧ (form.isBare = true ∨ ∃ c, String.ofList ['-', c] ∈ form.names)

theorem isShort_of_bundle : ∀ {cs : List Char} {form : OptionForm} {found : List OptionForm},
    bundle forms form cs = .ok found → IsShort forms form → ∀ f ∈ found, IsShort forms f
  | [], _, _, h, hform, f, hf => by
    cases h
    rwa [List.mem_singleton.1 hf]
  | c :: rest, form, found, h, hform, f, hf => by
    unfold bundle at h
    split at h
    · rename_i next hnamed
      obtain ⟨others, hothers, h⟩ := except_bind_ok.1 h
      cases h
      obtain ⟨hm, hname⟩ := mem_of_named? hnamed
      rcases List.mem_cons.1 hf with rfl | hf
      · exact hform
      · exact isShort_of_bundle hothers ⟨hm, .inr ⟨c, hname⟩⟩ f hf
    · cases h

theorem isShort_of_bareOptions {found : List OptionForm} (h : bareOptions forms form oneLetter attached = .ok found)
    (hm : form ∈ forms) (hbare : form.isBare = true) : ∀ f ∈ found, IsShort forms f := by
  have hform : IsShort forms form := ⟨hm, .inl hbare⟩
  cases attached with
  | none =>
    cases h
    simpa using hform
  | some text =>
    unfold bareOptions at h
    dsimp only at h
    split at h
    · exact isShort_of_bundle h hform
    · cases h

theorem give_name {given : Given} (h : form.give = .ok given) : given.name = form.names.headD "" := by
  unfold OptionForm.give at h
  split at h
  · cases h
  · cases h
    rfl

theorem give_names : ∀ {found : List OptionForm} {given : List Given}, found.mapM OptionForm.give = .ok given →
    ∀ g ∈ given, ∃ f ∈ found, g.name = f.names.headD ""
  | [], _, h, g, hg => by
    cases h
    cases hg
  | f :: rest, given, h, g, hg => by
    rw [List.mapM_cons] at h
    obtain ⟨first, hfirst, h⟩ := except_bind_ok.1 h
    obtain ⟨others, hothers, h⟩ := except_bind_ok.1 h
    cases h
    rcases List.mem_cons.1 hg with rfl | hg
    · exact ⟨f, List.mem_cons_self, give_name hfirst⟩
    · obtain ⟨f', hf', hname⟩ := give_names hothers g hg
      exact ⟨f', List.mem_cons_of_mem _ hf', hname⟩

/-- Two dashes that are kept are a text. -/
theorem giveText_text {text : String} {given : Given} (h : form.giveText .kept text = .ok given) :
    given.text = some text := by
  unfold OptionForm.giveText at h
  simp only [reduceCtorEq, Bool.false_and, decide_false, Bool.false_eq_true, if_false] at h
  split at h
  · split at h
    · cases h
      rfl
    · cases h
  · cases h
    rfl

/-- **What is given without a text is an option that takes none**, where dashes are kept. -/
theorem ne_of_ofWords {name : String} (hname : ∀ f, IsShort forms f → f.names.headD "" ≠ name) {words : List Word} :
    ∀ {options : Options}, Options.ofWords .kept forms words = .ok options →
      (∀ form oneLetter attached, .option form oneLetter attached ∈ words → form ∈ forms) →
      ∀ given ∈ options.given, given.text = none → given.name ≠ name := by
  fun_induction Options.ofWords .kept forms words with
  | case1 =>
    intro options h _ given hg
    cases h
    cases hg
  | case2 _ _ ih | case3 _ ih | case4 _ ih =>
    intro options h hforms given hg
    obtain ⟨others, hothers, h⟩ := except_bind_ok.1 h
    cases h
    exact ih hothers (fun f one text hm => hforms f one text (List.mem_cons_of_mem _ hm)) given hg
  | case5 form oneLetter attached rest hbare ih =>
    intro options h hforms given hg htext
    obtain ⟨found, hfound, h⟩ := except_bind_ok.1 h
    obtain ⟨first, hfirst, h⟩ := except_bind_ok.1 h
    obtain ⟨others, hothers, h⟩ := except_bind_ok.1 h
    cases h
    rcases List.mem_append.1 hg with hg | hg
    · obtain ⟨f, hf, heq⟩ := give_names hfirst given hg
      rw [heq]
      exact hname f (isShort_of_bareOptions hfound (hforms form _ _ List.mem_cons_self) hbare f hf)
    · exact ih hothers (fun f one text hm => hforms f one text (List.mem_cons_of_mem _ hm)) given hg htext
  | case6 form oneLetter rest hbare text ih =>
    intro options h hforms given hg htext
    obtain ⟨first, hfirst, h⟩ := except_bind_ok.1 h
    obtain ⟨others, hothers, h⟩ := except_bind_ok.1 h
    cases h
    rcases List.mem_cons.1 hg with rfl | hg
    · simp [giveText_text hfirst] at htext
    · exact ih hothers (fun f one text hm => hforms f one text (List.mem_cons_of_mem _ hm)) given hg htext
  | case7 form oneLetter hbare text rest ih =>
    intro options h hforms given hg htext
    obtain ⟨first, hfirst, h⟩ := except_bind_ok.1 h
    obtain ⟨others, hothers, h⟩ := except_bind_ok.1 h
    cases h
    rcases List.mem_cons.1 hg with rfl | hg
    · simp [giveText_text hfirst] at htext
    · refine ih hothers (fun f one text hm => hforms f one text ?_) given hg htext
      exact List.mem_cons_of_mem _ (List.mem_cons_of_mem _ hm)
  | case8 =>
    intro options h
    cases h

/-- No option of the command that shows a document is short, but for the others than the key. -/
theorem ne_of_isShort (f : OptionForm) (h : IsShort renderForms f) : f.names.headD "" ≠ "--schema" := by
  have hforms : ∀ f ∈ renderForms, (f.isBare = true ∨ ∃ name ∈ f.names, name.length = 2) →
      f.names.headD "" ≠ "--schema" := by decide
  exact hforms f h.1 (h.2.imp_right fun ⟨c, hc⟩ => ⟨_, hc, by rw [String.length_ofList]; rfl⟩)

/-- What is given last for an option is among what is given. -/
theorem exists_of_last? {options : Options} {name : String} {text : Option String}
    (h : options.last? name = some text) : ∃ given ∈ options.given, given.name = name ∧ given.text = text := by
  rw [Options.last?, Option.map_eq_some_iff] at h
  obtain ⟨given, hfind, htext⟩ := h
  exact ⟨given, List.mem_reverse.1 (List.mem_of_find?_eq_some hfind), by simpa using List.find?_some hfind, htext⟩

theorem of_ofOptions_render_none {command : String} {options : Options}
    (h : Action.ofOptions command options = .ok (.render none)) :
    command ≠ "gen-docs" ∧ options.last? "--schema" = some none := by
  unfold Action.ofOptions at h
  split at h
  · cases h
  · rename_i hcommand
    split at h
    · rename_i hlast
      cases h
      exact ⟨hcommand, hlast⟩
    · cases h

/-- **A schema is asked for by a key**, where dashes are kept. -/
theorem action_ne_render_none {arguments : List String} {r : Request}
    (h : Request.ofArguments .kept arguments = .ok r) : r.action ≠ .render none := by
  unfold Request.ofArguments at h
  obtain ⟨words, -, h⟩ := except_bind_ok.1 h
  obtain ⟨globalOptions, -, h⟩ := except_bind_ok.1 h
  dsimp only at h
  split at h
  · cases h
  · split at h
    · cases h
    · rename_i command rest _ forms hforms
      obtain ⟨words, hwords, h⟩ := except_bind_ok.1 h
      obtain ⟨options, hoptions, h⟩ := except_bind_ok.1 h
      obtain ⟨action, haction, h⟩ := except_bind_ok.1 h
      have hr : r.action = action := by
        split at h
        · cases h
        · cases h
          rfl
      rw [hr]
      rintro rfl
      obtain ⟨hcommand, hlast⟩ := of_ofOptions_render_none haction
      obtain ⟨given, hg, hname, htext⟩ := exists_of_last? hlast
      obtain rfl : forms = renderForms := by
        unfold formsOf? at hforms
        rw [if_neg hcommand, Option.ite_none_right_eq_some] at hforms
        exact (Option.some_inj.1 hforms.2).symm
      exact ne_of_ofWords ne_of_isShort hoptions (fun _ _ _ => mem_of_ofTexts hwords) given hg htext hname

end SchemaDocs.Command
