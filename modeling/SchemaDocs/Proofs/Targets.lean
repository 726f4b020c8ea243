import SchemaDocs.Files.Path
import SchemaDocs.Proofs.Placement
import SchemaDocs.Proofs.Pages

/-!
# Paths of planned documents

The path of a planned document is put together from the segments of keys and a file name (`Dump.Spelled`), which are
read as texts of paths when they are joined to the target. They lead on from the target, and never up, unless a segment
of the path of a package begins with a slash (`Spelled.leadsOn`); names without slashes are taken as they are
(`Spelled.leadsOn_self`).
-/

namespace SchemaDocs

/-! ## Joining texts to a path -/

namespace Files.Path

variable {t p : Path} {text : String} {texts rest : List String}

/-- The path leads on from another one, by at least one name and without a step up. -/
def LeadsOn (t p : Path) (rest : List String) : Prop :=
  p = { t with segments := t.segments ++ rest } ∧ rest ≠ [] ∧ ".." ∉ rest

theorem ofText_of_relative (h : text.toList.head? ≠ some '/') : ofText text = { segments := segmentsOf text } := by
  have hlength : (text.toList.takeWhile (· == '/')).length = 0 := by
    cases htext : text.toList with
    | nil => rfl
    | cons c cs =>
      have hc : c ≠ '/' := by simpa [htext] using h
      simp [hc]
  simp [ofText, hlength]

theorem joinAll_of_relative : ∀ {texts : List String} {t : Path}, (∀ text ∈ texts, text.toList.head? ≠ some '/') →
    t.joinAll texts = { t with segments := t.segments ++ texts.flatMap segmentsOf }
  | [], t, _ => by rw [List.flatMap_nil, List.append_nil]; rfl
  | text :: texts, t, h => by
    have hjoin : t.join (ofText text) = { t with segments := t.segments ++ segmentsOf text } := by
      rw [ofText_of_relative (h text List.mem_cons_self)]
      rfl
    have ih := joinAll_of_relative (t := t.join (ofText text)) fun text' hm => h text' (List.mem_cons_of_mem _ hm)
    rw [hjoin] at ih
    rw [List.flatMap_cons, ← List.append_assoc, ← ih, ← hjoin]
    rfl

/-- A text has a zero character if a segment of its path has one. -/
theorem mem_of_hasZero_ofText (h : (ofText text).hasZero = true) : '\x00' ∈ text.toList := by
  obtain ⟨segment, hm, hzero⟩ := List.any_eq_true.1 h
  exact Text.mem_of_mem_split (List.mem_filter.1 hm).1 (by simpa using hzero)

/-- What is joined to a path brings in no other zero characters than its own. -/
theorem hasZero_joinAll : ∀ {texts : List String} {t : Path}, (t.joinAll texts).hasZero = true →
    t.hasZero = true ∨ ∃ text ∈ texts, '\x00' ∈ text.toList
  | [], _, h => .inl h
  | text :: texts, t, h => by
    rcases hasZero_joinAll (t := t.join (ofText text)) h with hzero | ⟨text', hm, hzero⟩
    · by_cases htext : '\x00' ∈ text.toList
      · exact .inr ⟨text, List.mem_cons_self, htext⟩
      · have hnone : (ofText text).hasZero = false := by
          rw [← Bool.not_eq_true]
          exact fun h => htext (mem_of_hasZero_ofText h)
        rw [join] at hzero
        split at hzero
        · rw [hnone] at hzero
          cases hzero
        · rw [hasZero, List.any_append, ← hasZero, ← hasZero, hnone, Bool.or_false] at hzero
          exact .inl hzero
    · exact .inr ⟨text', List.mem_cons_of_mem _ hm, hzero⟩

/-- A text with at most one dot has no step up among its segments. -/
theorem up_not_mem_segmentsOf (h : text.toList.count '.' ≤ 1) : ".." ∉ segmentsOf text := by
  intro hm
  have hcount := (Text.sublist_of_mem_split (List.mem_filter.1 hm).1).count_le '.'
  have hdots : "..".toList.count '.' = 2 := by decide
  omega

/-- A text with anything but slashes and dots in it has segments. -/
theorem segmentsOf_ne_nil {c : Char} (hslash : c ≠ '/') (hdot : c ≠ '.') (h : c ∈ text.toList) :
    segmentsOf text ≠ [] := by
  obtain ⟨piece, hpiece, hm⟩ := Text.exists_mem_split hslash h
  have hnone : piece ≠ "" ∧ piece ≠ "." := by
    constructor
    · rintro rfl
      simp at hm
    · rintro rfl
      exact hdot (by simpa using hm)
  exact List.ne_nil_of_mem (List.mem_filter.2 ⟨hpiece, by simp [hnone]⟩)

theorem segmentsOf_of_plain (hslash : '/' ∉ text.toList) (hempty : text ≠ "") (hhere : text ≠ ".") :
    segmentsOf text = [text] := by
  rw [segmentsOf, Text.split_of_not_mem hslash]
  simp [hempty, hhere]

end Files.Path

/-! ## Names from keys -/

namespace Dump

open Files (Path)

variable {keys : List String} {o : Options} {path : List String}

/-- The path of a document is spelled with the segments of the package paths of keys, and a file name. -/
structure Spelled (keys : List String) (o : Options) (path directory : List String) (file : String) : Prop where
  eq : path = directory ++ [file]
  directory : ∀ s ∈ directory, Package.IsSegment s ∧ ∃ key ∈ keys, s ∈ segmentsOfKey key
  file : file = o.indexFile ∨ ∃ key ∈ keys, file = o.schemaFile (visibleOfKey key)

/-- **The paths of the documents of an accepted dump are spelled with its keys.** -/
theorem exists_spelled {defaultName : String} {document : List (Value × Value)} {root : Package}
    (h : packageOf defaultName document = .ok root) {plan : ImportPlan} (hplan : ImportPlan.ofPackage? root = some plan)
    {documents : Documents} (hdocuments : plan.documents o root = .ok documents) :
    ∃ raw, readDefinitions document = .ok raw ∧ (documents.map (·.1)).Nodup ∧
      ∀ path ∈ documents.map (·.1), ∃ directory file, Spelled (keysOf raw) o path directory file := by
  obtain ⟨raw, hraw, hholds⟩ := holds_of_packageOf h
  obtain ⟨plan', hplan', -, hrun⟩ := ImportPlan.exists_run hholds
  cases hplan.symm.trans hplan'
  cases hdocuments.symm.trans (ImportPlan.documents_eq hrun)
  have hplanned := ImportPlan.planned_render (o := o) hrun
  have hdirectory : ∀ p ∈ root.walk, ∀ s ∈ p.segments,
      Package.IsSegment s ∧ ∃ key ∈ keysOf raw, s ∈ segmentsOfKey key := by
    intro p hp s hs
    obtain ⟨hsegment, key, value, hkey, hmem⟩ := hholds.segment_of_package hp hs
    exact ⟨hsegment, key, mem_keysOf hkey, hmem⟩
  refine ⟨raw, hraw, hplanned.nodup_keys, fun path hm => ?_⟩
  rcases (hplanned.mem_keys path).1 hm with ⟨p, hp, rfl⟩ | ⟨d, hd, -, -, rfl⟩
  · exact ⟨p.segments, o.indexFile, rfl, hdirectory p hp, .inl rfl⟩
  · obtain ⟨p, hp, hdp⟩ := ImportPlan.exists_package hrun hd
    obtain ⟨segments, -, hvisible⟩ := hrun.visible hd
    obtain ⟨key, value, hkey, -, hname⟩ := hholds.keyed hvisible
    exact ⟨p.segments, o.schemaFile d.name, ImportPlan.documentPath_eq hdp, hdirectory p hp,
      .inr ⟨key, mem_keysOf hkey, by rw [hname]⟩⟩

/-! ### File names -/

theorem toList_indexFile (o : Options) : o.indexFile.toList = "index".toList ++ '.' :: o.format.extension.toList := by
  simp [Options.indexFile, String.toList_append]

theorem toList_schemaFile (o : Options) (name : String) :
    (o.schemaFile name).toList = "doc_".toList ++ name.toList ++ '.' :: o.format.extension.toList := by
  simp [Options.schemaFile, String.toList_append]

theorem count_extension (o : Options) : o.format.extension.toList.count '.' = 0 := by cases o.format <;> decide

theorem Spelled.count_file {directory : List String} {file : String} (h : Spelled keys o path directory file) :
    file.toList.count '.' = 1 := by
  rcases h.file with rfl | ⟨key, -, rfl⟩
  · rw [toList_indexFile, List.count_append, List.count_cons_self, count_extension]
    decide
  · have hname : (visibleOfKey key).toList.count '.' = 0 :=
      List.count_eq_zero.2 (Text.not_mem_splitLast_snd '.' key)
    rw [toList_schemaFile, List.count_append, List.count_append, List.count_cons_self, count_extension, hname]
    decide

/-- A file name begins with a letter. -/
theorem Spelled.head_file {directory : List String} {file : String} (h : Spelled keys o path directory file) :
    file.toList.head? = some 'i' ∨ file.toList.head? = some 'd' := by
  rcases h.file with rfl | ⟨key, -, rfl⟩
  · exact .inl (by rw [toList_indexFile]; rfl)
  · exact .inr (by rw [toList_schemaFile]; rfl)

/-- The characters that file names add to those of the keys. -/
def nameChars (o : Options) : List Char := "index".toList ++ "doc_".toList ++ '.' :: o.format.extension.toList

theorem mem_nameChars {c : Char} : c ∈ nameChars o ↔
    (c ∈ "index".toList ∨ c ∈ "doc_".toList) ∨ c = '.' ∨ c ∈ o.format.extension.toList := by
  rw [← List.mem_cons, ← List.mem_append, ← List.mem_append]
  exact Iff.rfl

/-- A character in the path of a document is one that file names add, or one of a key. -/
theorem Spelled.mem_key {directory : List String} {file segment : String} (h : Spelled keys o path directory file)
    (hm : segment ∈ path) {c : Char} (hadded : c ∉ nameChars o) (hc : c ∈ segment.toList) :
    ∃ key ∈ keys, c ∈ key.toList := by
  rw [mem_nameChars, not_or, not_or, not_or] at hadded
  obtain ⟨⟨hindex, hdoc⟩, hdot, hextension⟩ := hadded
  rw [h.eq, List.mem_append, List.mem_singleton] at hm
  rcases hm with hm | rfl
  · obtain ⟨-, key, hkey, hs⟩ := h.directory segment hm
    exact ⟨key, hkey, Text.mem_of_mem_splitLast_fst (Package.mem_of_mem_segmentsOf hs hc)⟩
  · rcases h.file with rfl | ⟨key, hkey, rfl⟩
    · simp only [toList_indexFile, List.mem_append, List.mem_cons] at hc
      exact absurd hc (by simp only [hindex, hdot, hextension, or_self, not_false_eq_true])
    · simp only [toList_schemaFile, List.mem_append, List.mem_cons, hdoc, hdot, hextension, or_false, false_or] at hc
      exact ⟨key, hkey, Text.mem_of_mem_splitLast_snd hc⟩

/-! ### Ways down -/

/-- **The path of a document leads on from the target**, and never up, whatever characters the keys hold, as long as no
segment begins with a slash. -/
theorem Spelled.leadsOn {directory : List String} {file : String} (h : Spelled keys o path directory file)
    (hkeys : ∀ key ∈ keys, ∀ s ∈ segmentsOfKey key, s.toList.head? ≠ some '/') (t : Path) :
    Path.LeadsOn t (t.joinAll path) (path.flatMap Path.segmentsOf) := by
  obtain ⟨c, hc, hslash, hdot⟩ : ∃ c, file.toList.head? = some c ∧ c ≠ '/' ∧ c ≠ '.' := by
    rcases h.head_file with hhead | hhead
    · exact ⟨'i', hhead, by decide, by decide⟩
    · exact ⟨'d', hhead, by decide, by decide⟩
  refine ⟨Path.joinAll_of_relative ?_, ?_, ?_⟩
  · intro text hm
    rw [h.eq, List.mem_append, List.mem_singleton] at hm
    rcases hm with hm | rfl
    · obtain ⟨-, key, hkey, hs⟩ := h.directory text hm
      exact hkeys key hkey text hs
    · rw [hc]
      simpa using hslash
  · rw [h.eq, List.flatMap_append, List.flatMap_singleton]
    exact List.append_ne_nil_of_right_ne_nil _ (Path.segmentsOf_ne_nil hslash hdot (List.mem_of_mem_head? hc))
  · rw [h.eq, List.flatMap_append, List.flatMap_singleton, List.mem_append, List.mem_flatMap]
    rintro (⟨s, hs, hup⟩ | hup)
    · have hcount : s.toList.count '.' = 0 := List.count_eq_zero.2 (h.directory s hs).1.2
      exact Path.up_not_mem_segmentsOf (by omega) hup
    · exact Path.up_not_mem_segmentsOf (Nat.le_of_eq h.count_file) hup

/-- Without slashes in the keys, the path of a document leads on from the target by its own segments. -/
theorem Spelled.leadsOn_self {directory : List String} {file : String} (h : Spelled keys o path directory file)
    (hkeys : ∀ key ∈ keys, '/' ∉ key.toList) (t : Path) : Path.LeadsOn t (t.joinAll path) path := by
  have hslash : ∀ segment ∈ path, '/' ∉ segment.toList := by
    intro segment hm hslash
    obtain ⟨key, hkey, hmem⟩ := h.mem_key hm (by rw [mem_nameChars]; cases o.format <;> decide) hslash
    exact hkeys key hkey hmem
  have hplain : ∀ segment ∈ path, Path.segmentsOf segment = [segment] := by
    intro segment hm
    have hnames : segment ≠ "" ∧ segment ≠ "." := by
      have hmem := hm
      rw [h.eq, List.mem_append, List.mem_singleton] at hmem
      rcases hmem with hmem | rfl
      · obtain ⟨⟨hempty, hdot⟩, -⟩ := h.directory segment hmem
        exact ⟨hempty, fun e => hdot (by simp [e])⟩
      · constructor <;> rintro rfl <;> rcases h.head_file with hhead | hhead <;> cases hhead
    exact Path.segmentsOf_of_plain (hslash segment hm) hnames.1 hnames.2
  have hsame : path.flatMap Path.segmentsOf = path := by
    rw [List.flatMap_def, List.map_congr_left hplain, ← List.flatMap_def, List.flatMap_singleton']
  have hleads := h.leadsOn (fun key hkey s hs hhead => hkeys key hkey (Text.mem_of_mem_splitLast_fst
    (Package.mem_of_mem_segmentsOf hs (List.mem_of_mem_head? hhead)))) t
  rwa [hsame] at hleads

/-- The path of a document is not that of the marking file. -/
theorem Spelled.ne_singleton {directory : List String} {file name : String} (h : Spelled keys o path directory file)
    (hname : name.toList.head? = some '.') : path ≠ [name] := by
  rw [h.eq]
  intro heq
  obtain ⟨-, hfile⟩ := List.append_inj' (heq.trans (List.nil_append _).symm) rfl
  have hhead := h.head_file
  rw [List.singleton_inj.1 hfile, hname] at hhead
  simp at hhead

end Dump

end SchemaDocs
