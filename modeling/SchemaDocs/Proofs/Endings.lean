import SchemaDocs.Proofs.Confinement
import SchemaDocs.Proofs.Pages
import SchemaDocs.Proofs.Wording
import SchemaDocs.Proofs.Words

/-!
# How command lines end

Every command line that is accepted ends with the exit code 0, or with the exit code 1 and an error line, unless it
meets something that the program does not expect (`execute_ends`). What that can be is listed by `Escape`: a path that
is too long, a text that is nested too deep for the stack, a text of which the YAML reader makes a value that there
cannot be, a surrogate, a defect in the definitions of the dump, or a value that lies in itself and is written out, which
`format_literal` follows without end. The errors of a run are followed through everything that it does (`Speaks`),
whatever the files are.
-/

namespace SchemaDocs

namespace Files

variable {v : Volume} {p : Path} {place : Location} {cause : Cause}

/-- The path is longer than a path can be, or one of its segments is longer than a name can be. -/
def Path.IsTooLong (p : Path) : Prop :=
  Volume.longestPath ≤ Path.byteLength p.text ∨ ∃ segment ∈ p.segments, Volume.longestName < Path.byteLength segment

instance : Decidable p.IsTooLong := inferInstanceAs (Decidable (_ ∨ ∃ segment ∈ p.segments, _))

namespace Volume

theorem step_error {root : Entry} {segment : String} (h : step root place segment = .error cause) :
    cause = .notFound ∨ cause = .notDirectory ∨ longestName < Path.byteLength segment := by
  unfold step at h
  repeat' split at h
  all_goals cases h
  · exact .inl rfl
  · exact .inr (.inl rfl)
  · exact .inr (.inr ‹_›)
  · exact .inl rfl

theorem foldlM_error {root : Entry} : ∀ {segments : List String} {place : Location},
    segments.foldlM (step root) place = .error cause →
      cause = .notFound ∨ cause = .notDirectory ∨ ∃ segment ∈ segments, longestName < Path.byteLength segment
  | [], _, h => by cases h
  | segment :: rest, place, h => by
    rw [List.foldlM_cons] at h
    cases hstep : step root place segment with
    | error cause' =>
      rw [hstep] at h
      obtain rfl : cause' = cause := Except.error.inj h
      exact (step_error hstep).imp_right (.imp_right fun hlong => ⟨segment, List.mem_cons_self, hlong⟩)
    | ok place' =>
      rw [hstep] at h
      exact (foldlM_error h).imp_right (.imp_right fun ⟨s, hs, hlong⟩ => ⟨s, List.mem_cons_of_mem _ hs, hlong⟩)

/-- Nothing is found at a path because nothing is there, or because the path is too long. -/
theorem find_error (h : v.find p = .error cause) : cause = .notFound ∨ cause = .notDirectory ∨ p.IsTooLong := by
  unfold find at h
  by_cases hlong : longestPath ≤ Path.byteLength p.text
  · exact .inr (.inr (.inl hlong))
  · simp only [hlong, ↓reduceIte] at h
    cases hfold : p.segments.foldlM (step v.root) (v.start p) with
    | error cause' =>
      have h : (Except.error cause' : Except Cause (Location × Entry)) = .error cause := by
        rw [← h, hfold]
        rfl
      obtain rfl := Except.error.inj h
      exact (foldlM_error hfold).imp_right (.imp_right .inr)
    | ok place =>
      rw [hfold] at h
      cases hat : v.root.at? place with
      | none =>
        simp only [bind, Except.bind, hat] at h
        exact .inl (Except.error.inj h).symm
      | some there =>
        simp only [bind, Except.bind, hat] at h
        cases h

/-- It can be found out what is at a path, unless the path is too long. -/
theorem kindOf?_error {fault : Fault} (h : v.kindOf? p = .error fault) : p.IsTooLong := by
  have hlook : v.lookAt p = .error fault ∧ (∀ q, fault ≠ .failed .notFound q) ∧ (∀ q, fault ≠ .failed .notDirectory q) ∧
      fault ≠ .zeroInPath := by
    unfold kindOf? at h
    split at h
    all_goals cases h
    exact ⟨‹_›, by simp_all, by simp_all, by simp_all⟩
  obtain ⟨hlook, hnotFound, hnotDirectory, hzero⟩ := hlook
  rcases guarded_eq_error.1 hlook with ⟨-, rfl⟩ | ⟨-, cause, hcause, rfl⟩
  · exact absurd rfl hzero
  · cases hfind : v.find p with
    | ok found =>
      rw [hfind] at hcause
      cases hcause
    | error cause' =>
      rw [hfind] at hcause
      obtain rfl : cause' = cause := Except.error.inj hcause
      rcases find_error hfind with rfl | rfl | hlong
      · exact absurd rfl (hnotFound p)
      · exact absurd rfl (hnotDirectory p)
      · exact hlong

end Volume

end Files

/-! ## Errors of a run -/

def RunError.IsWorded (e : RunError) : Prop := e.message?.isSome = true

namespace Run

open Files (Path Fault Disk Volume)

variable {α β : Type} {P : Prop} {x : Run (StateM Volume) α} {v v' : Volume} {p : Path} {R : α → Volume → Prop}
  {S : β → Volume → Prop}

/-- The run ends with a result that has `R` with the files as they are then, or with an error that has a wording, unless
`P`. -/
def Speaks (P : Prop) (x : Run (StateM Volume) α) (v : Volume) (R : α → Volume → Prop) : Prop :=
  ∃ r v', Yields x v r v' ∧ match r with
    | .ok a => R a v'
    | .error e => e.IsWorded ∨ P

namespace Speaks

theorem pure {a : α} (h : R a v) : Speaks P (Pure.pure a) v R := ⟨_, _, Yields.pure a v, h⟩

theorem throw {e : RunError} (h : e.IsWorded ∨ P) : Speaks P (throw e) v R := ⟨_, _, Yields.throw e v, h⟩

theorem log {R : Unit → Volume → Prop} {lines : List LogLine} (h : R () v) : Speaks P (Run.log lines) v R :=
  ⟨_, _, Yields.log lines v, h⟩

theorem ofExcept {ε : Type} {wrap : ε → RunError} {r : Except ε α} (hok : ∀ a, r = .ok a → R a v)
    (herror : ∀ e, r = .error e → (wrap e).IsWorded ∨ P) : Speaks P (Run.ofExcept wrap r) v R := by
  refine ⟨_, _, Yields.ofExcept wrap r v, ?_⟩
  cases r with
  | ok a => exact hok a rfl
  | error e => exact herror e rfl

theorem bind {f : α → Run (StateM Volume) β} (hx : Speaks P x v R)
    (hf : ∀ a v', Yields x v (.ok a) v' → R a v' → Speaks P (f a) v' S) : Speaks P (x >>= f) v S := by
  obtain ⟨r, v', hr, hspeaks⟩ := hx
  cases r with
  | error e => exact ⟨_, v', hr.bind_error, hspeaks⟩
  | ok a =>
    obtain ⟨r', v'', hr', hspeaks'⟩ := hf a v' hr hspeaks
    exact ⟨r', v'', hr.bind hr', hspeaks'⟩

theorem mono {P' : Prop} {R' : α → Volume → Prop} (hx : Speaks P x v R) (hP : P → P') (hR : ∀ a v', R a v' → R' a v') :
    Speaks P' x v R' := by
  obtain ⟨r, v', hr, hspeaks⟩ := hx
  refine ⟨r, v', hr, ?_⟩
  cases r with
  | ok a => exact hR a v' hspeaks
  | error e => exact hspeaks.imp_right hP

/-- What handles an error is run with the files as they are then. -/
theorem tryCatch {handle : RunError → Run (StateM Volume) α} (hx : Speaks P x v R)
    (hhandle : ∀ e v', e.IsWorded ∨ P → Speaks P (handle e) v' R) : Speaks P (tryCatch x handle) v R := by
  obtain ⟨r, v', hr, hspeaks⟩ := hx
  cases r with
  | ok a => exact ⟨_, v', hr.tryCatch_ok, hspeaks⟩
  | error e =>
    obtain ⟨r', v'', hr', hspeaks'⟩ := hhandle e v' hspeaks
    exact ⟨r', v'', hr.tryCatch_error hr', hspeaks'⟩

theorem lift {γ : Type} {R : γ → Volume → Prop} {operation : StateM Volume γ} (h : R (operation v).1 (operation v).2) :
    Speaks P (liftM (liftM operation : StateT (List LogLine) (StateM Volume) γ)) v R :=
  ⟨.ok (operation v).1, (operation v).2, Yields.lift rfl, h⟩

/-- An operation on the disk fails with an error that has a wording. -/
theorem onDisk {wrap : Fault → RunError} {operation : StateM Volume (Except Fault α)}
    (hok : ∀ a v', operation v = (.ok a, v') → R a v')
    (hwrap : ∀ cause path, operation v = (.error (.failed cause path), (operation v).2) →
      (wrap (.failed cause path)).IsWorded ∨ P) :
    Speaks P (Run.onDisk wrap operation) v R := by
  rcases hr : operation v with ⟨r, v'⟩
  cases r with
  | ok a => exact ⟨_, v', Yields.onDisk hr, hok a v' hr⟩
  | error fault =>
    refine ⟨_, v', Yields.onDisk_error hr, ?_⟩
    cases fault with
    | failed cause path => exact hwrap cause path (by rw [hr])
    | zeroInPath => exact .inl rfl

/-- An operation whose failure is an error of the output. -/
theorem onOutput {wrap : Fault → OutputError} {operation : StateM Volume (Except Fault α)} :
    Speaks P (Run.onDisk (fun fault => .output (wrap fault)) operation) v fun _ _ => True :=
  onDisk (fun _ _ _ => trivial) fun _ _ _ => .inl rfl

/-- To find out what is at a path fails without words only if the path is too long. -/
theorem kind? (h : p.IsTooLong → P) :
    Speaks P (Run.kind? p) v fun found v' => v = v' ∧ ∀ kind, found = some kind → v.IsAt kind p := by
  refine onDisk (fun found v' hr => ?_) fun cause path hr => .inr (h ?_)
  · rw [Volume.kind?_eq] at hr
    obtain ⟨hkind, rfl⟩ := Prod.mk.inj hr
    exact ⟨rfl, fun kind hfound => Volume.kindOf?_eq_some.1 (hfound ▸ hkind)⟩
  · rw [Volume.kind?_eq] at hr
    exact Volume.kindOf?_error (Prod.mk.inj hr).1

end Speaks

/-! ## Loading a package -/

/-- The paths of which loading a package asks what is there. -/
def askedPaths (p : Path) : List Path := p :: dumpNames.map fun name => p.join (.ofText name)

structure DumpText (v : Volume) (p file : Path) (chars : List Char) : Prop where
  found : Yields (findDump p) v (.ok file) v
  read : Yields (readText .files file) v (.ok chars) v

/-- The text whose lines end as the reader of a file lets them end. -/
def textOf (chars : List Char) : String := String.ofList (Text.readLineEndsList chars)

/-- What can end the loading of a package without an error line. -/
inductive LoadEscape (v : Volume) (p : Path) : Prop
  /-- A path that is asked about is too long. -/
  | path {q : Path} (asked : q ∈ askedPaths p) (long : q.IsTooLong)
  /-- The stack is not deep enough for the text. -/
  | deep {file : Path} {chars : List Char} (dump : DumpText v p file chars) (deep : v.follows chars = false)
  /-- A text in YAML asks for a value that there cannot be, or for a surrogate. -/
  | yaml {file : Path} {chars : List Char} {fault : Yaml.Fault} (dump : DumpText v p file chars)
    (yaml : file.suffix ≠ ".json") (read : Yaml.read (textOf chars) = .error fault) (odd : fault ≠ .malformed)
    (silent : ¬ (RunError.yaml fault).IsWorded)
  /-- A string in a JSON text holds half of a pair of surrogates. -/
  | json {file : Path} {chars : List Char} (dump : DumpText v p file chars) (json : file.suffix = ".json")
    (read : Json.read (textOf chars) = .error .loneSurrogate)
  /-- There is a defect in the definitions. -/
  | definitions {document raw : List (Value × Value)} (load : Yields (loadDump p) v (.ok document) v)
    (definitions : Dump.readDefinitions document = .ok raw) (defect : Dump.Defect raw)

theorem speaks_firstFile? : ∀ {candidates : List Path}, (∀ q ∈ candidates, q.IsTooLong → P) →
    Speaks P (firstFile? candidates) v fun found v' => v = v' ∧ ∀ file, found = some file → v.IsAt .file file
  | [], _ => .pure ⟨rfl, by simp⟩
  | candidate :: rest, h => by
    rw [firstFile?]
    refine (Speaks.kind? (h candidate List.mem_cons_self)).bind ?_
    rintro found _ - ⟨rfl, hfound⟩
    split
    · exact .pure ⟨rfl, fun file hfile => Option.some.inj hfile ▸ hfound _ rfl⟩
    · exact speaks_firstFile? fun q hq => h q (List.mem_cons_of_mem _ hq)

theorem speaks_findDump (h : ∀ q ∈ askedPaths p, q.IsTooLong → P) :
    Speaks P (findDump p) v fun file v' => v = v' ∧ v.IsAt .file file := by
  unfold findDump
  refine (Speaks.kind? (h p List.mem_cons_self)).bind ?_
  rintro found _ - ⟨rfl, hfound⟩
  split
  · exact .pure ⟨rfl, hfound _ rfl⟩
  · refine (speaks_firstFile? fun q hq => h q (List.mem_cons_of_mem _ hq)).bind ?_
    rintro file? _ - ⟨rfl, hfile⟩
    cases file? with
    | none => exact .throw (.inl rfl)
    | some file => exact .pure ⟨rfl, hfile file rfl⟩
  · exact .throw (.inl rfl)

/-- A file that is there can be read. -/
theorem speaks_readText {wrap : Fault → RunError} {file : Path} (h : v.IsAt .file file) :
    Speaks P (readText wrap file) v fun _ v' => v = v' := by
  obtain ⟨data, hdata⟩ : ∃ data, v.nodeAt? (v.placeOf file) = some (.file data) := by
    have hkind := h.kindAt
    rw [Volume.kindAt?, Option.map_eq_some_iff] at hkind
    obtain ⟨node, hnode, hkind⟩ := hkind
    cases node with
    | file data => exact ⟨data, hnode⟩
    | directory => cases hkind
  have hread := Volume.read_of_isAt hdata h
  refine Speaks.bind (R := fun _ v' => v = v') (Speaks.onDisk (fun a v' hr => ?_) fun cause path hr => ?_) ?_
  · rw [hread] at hr
    exact (Prod.mk.inj hr).2
  · rw [hread] at hr
    cases (Prod.mk.inj hr).1
  · rintro data _ - rfl
    exact .ofExcept (fun _ _ => rfl) fun _ _ => .inl rfl

theorem parseDump_error {file : Path} {text : String} {e : RunError} (h : parseDump file text = .error e) :
    e.IsWorded ∨ (file.suffix = ".json" ∧ Json.read text = .error .loneSurrogate) ∨
      ∃ fault, e = .yaml fault ∧ file.suffix ≠ ".json" ∧ Yaml.read text = .error fault ∧ fault ≠ .malformed := by
  unfold parseDump at h
  split at h
  · rename_i hsuffix
    split at h
    · cases h
    · cases h
      exact .inl rfl
    · rename_i fault hne hread
      cases h
      cases fault with
      | malformed => exact absurd rfl hne
      | longNumeral digits => exact .inl rfl
      | loneSurrogate => exact .inr (.inl ⟨hsuffix, hread⟩)
  · rename_i hsuffix
    split at h
    · cases h
    · cases h
      exact .inl rfl
    · rename_i fault hne hread
      cases h
      exact .inr (.inr ⟨fault, rfl, hsuffix, hread, hne⟩)

theorem entriesOfDump_error {file : Path} {text : String} {e : RunError} (h : entriesOfDump file text = .error e) :
    parseDump file text = .error e ∨ e.IsWorded := by
  unfold entriesOfDump at h
  cases hparse : parseDump file text with
  | error e' =>
    simp only [hparse, bind, Except.bind, Except.error.injEq] at h
    exact .inl (congrArg _ h)
  | ok value =>
    simp only [hparse, bind, Except.bind] at h
    split at h
    · cases h
    · cases h
      exact .inr rfl

theorem speaks_readDump {file : Path} (hfind : Yields (findDump p) v (.ok file) v) (hfile : v.IsAt .file file) :
    Speaks (LoadEscape v p) (readDump file) v fun _ v' => v = v' := by
  unfold readDump
  refine (speaks_readText hfile).bind ?_
  rintro chars _ hread rfl
  have hdump : DumpText v p file chars := ⟨hfind, hread⟩
  refine Speaks.bind (R := fun deep v' => v = v' ∧ deep = v.follows chars) (.lift ⟨rfl, rfl⟩) ?_
  rintro deep _ - ⟨rfl, rfl⟩
  split
  · refine .ofExcept (fun _ _ => rfl) fun e he => ?_
    rcases entriesOfDump_error he with hparse | hworded
    · by_cases hworded : e.IsWorded
      · exact .inl hworded
      · rcases parseDump_error hparse with h | ⟨hsuffix, hjson⟩ | ⟨fault, rfl, hsuffix, hyaml, hodd⟩
        · exact .inl h
        · exact .inr (.json hdump hsuffix hjson)
        · exact .inr (.yaml hdump hsuffix hyaml hodd hworded)
    · exact .inl hworded
  · rename_i hdeep
    exact .throw (.inr (.deep hdump (by simpa using hdeep)))

theorem speaks_loadDump (v : Volume) (p : Path) : Speaks (LoadEscape v p) (loadDump p) v fun _ v' => v = v' := by
  unfold loadDump
  refine (speaks_findDump fun q hq => .path hq).bind ?_
  rintro file _ hfind ⟨rfl, hfile⟩
  exact speaks_readDump hfind hfile

/-- **Loading a package fails with words**, unless the files at its path do not let it. -/
theorem speaks_loadPackage (v : Volume) (p : Path) : Speaks (LoadEscape v p) (loadPackage p) v fun _ v' => v = v' := by
  unfold loadPackage
  refine (speaks_loadDump v p).bind ?_
  rintro document _ hload rfl
  refine Speaks.bind (R := fun _ v' => v = v') ?_ ?_
  · unfold defaultName
    refine (Speaks.kind? fun h => .path List.mem_cons_self h).bind ?_
    rintro kind _ - ⟨rfl, -⟩
    exact (Speaks.lift (R := fun _ v' => v = v') rfl).bind fun _ _ _ h => .pure h
  · rintro name _ - rfl
    refine .ofExcept (fun _ _ => rfl) fun e he => ?_
    exact (Dump.isWorded_or_defect he).imp_right fun ⟨raw, hraw, hdefect⟩ => .definitions hload hraw hdefect

/-! ## Writing documents -/

theorem speaks_discard (t p : Path) : ∀ (names : List String) (v : Volume),
    Speaks P (discard (cannotPrepare t) p names) v fun _ _ => True
  | [], _ => .pure trivial
  | _ :: rest, _ => Speaks.onOutput.bind fun _ v' _ _ => speaks_discard t p rest v'

theorem speaks_discardEarlier (t : Path) : Speaks P (discardEarlier t) v fun _ _ => True := by
  unfold discardEarlier
  refine Speaks.onOutput.bind fun found v' _ _ => ?_
  split
  · refine (Speaks.log (R := fun _ _ => True) trivial).bind fun _ _ _ _ => ?_
    exact Speaks.onOutput.bind fun names u _ _ => speaks_discard t t names u
  · exact .throw (.inl rfl)

theorem speaks_emptyTarget (t : Path) : Speaks P (emptyTarget t) v fun _ _ => True := by
  unfold emptyTarget
  refine Speaks.onOutput.bind fun names v' _ _ => ?_
  split
  · exact speaks_discardEarlier t
  · exact .pure trivial

theorem speaks_prepareTarget {t : Path} (h : t.IsTooLong → P) : Speaks P (prepareTarget t) v fun _ _ => True := by
  unfold prepareTarget
  refine (Speaks.kind? h).bind fun found v' _ _ => ?_
  have hstart (u : Volume) : Speaks P (startOutput t) u fun _ _ => True := Speaks.onOutput.bind fun _ _ _ _ => .onOutput
  split
  · exact .throw (.inl rfl)
  · exact (speaks_emptyTarget t).bind fun _ u _ _ => hstart u
  · exact hstart v'

theorem speaks_writeDocuments (t : Path) : ∀ (documents : Documents) (v : Volume),
    Speaks P (writeDocuments t documents) v fun _ _ => True
  | [], _ => .pure trivial
  | (segments, text) :: rest, v => by
    rw [writeDocuments]
    refine Speaks.bind (R := fun _ _ => True) (Speaks.onOutput.bind fun _ _ _ _ => .onOutput) fun _ v' _ _ => ?_
    exact (speaks_writeDocuments t rest v').bind fun _ _ _ _ => .pure trivial

/-- A value that lies in itself, in a document that is to be written, is what lets the planning end without words. -/
theorem speaks_makeDocuments {s : Settings} {root : Package} (h : ∀ plan, ImportPlan.ofPackage? root = some plan →
    plan.written s.options root = .error (.literal .endless) → P) :
    Speaks P (makeDocuments s root) v fun _ _ => True := by
  cases hplan : ImportPlan.ofPackage? root with
  | none =>
    rw [makeDocuments, hplan]
    exact .throw (.inl rfl)
  | some plan =>
    rw [makeDocuments, hplan]
    refine (Speaks.log (R := fun _ _ => True) trivial).bind fun _ _ _ _ => ?_
    refine (Speaks.log (R := fun _ _ => True) trivial).bind fun _ _ _ _ => ?_
    refine .ofExcept (fun _ _ => trivial) fun flaw hflaw => ?_
    rcases flaw with e | _ | _
    · exact .inl rfl
    · exact .inr (h plan hplan hflaw)
    · exact .inl rfl

/-- **Writing the documents of a package fails with words**, unless the path of the target is too long or a value that
is to be written lies in itself. -/
theorem speaks_generate {s : Settings} {root : Package} (htarget : s.target.IsTooLong → P)
    (hplan : ∀ plan, ImportPlan.ofPackage? root = some plan →
      plan.written s.options root = .error (.literal .endless) → P) :
    Speaks P (generate s root) v fun _ _ => True := by
  unfold generate
  refine (speaks_makeDocuments hplan).bind fun documents v1 _ _ => ?_
  refine (speaks_prepareTarget htarget).bind fun _ v2 _ _ => ?_
  refine (speaks_writeDocuments s.target documents v2).bind fun paths v3 _ _ => ?_
  exact (Speaks.log (R := fun _ _ => True) trivial).bind fun _ _ _ _ => .pure trivial

/-- The path of the marking file is too long if that of the target is. -/
theorem isTooLong_marker {t : Path} (h : t.IsTooLong) : (marker t).IsTooLong := by
  rcases h with h | ⟨segment, hm, h⟩
  · exact .inl (Nat.le_trans h (byteLength_text_marker t))
  · refine .inr ⟨segment, ?_, h⟩
    rw [marker_eq]
    exact List.mem_append_left _ hm

end Run

/-! ## Command lines -/

namespace Command

open Files (Path Volume)
open Run (Speaks LoadEscape Yields yamlDisk)

variable {v : Volume} {P : Prop} {dashes : Dashes}

/-- What can end a command line without an error line, if there is no configuration. -/
inductive Escape (dashes : Dashes) (v : Volume) (r : Request) : Prop
  /-- The files at the path of the package do not let it be loaded. -/
  | load (escape : LoadEscape v (r.settings {}).packagePath)
  /-- The path of the target, with the marking file in it, is too long. -/
  | target {target : Option String} (generates : r.action = .generate target)
    (long : (Run.marker (r.settings {}).target).IsTooLong)
  /-- A document that is to be written shows a value that lies in itself. -/
  | planned {target : Option String} {root : Package} {plan : ImportPlan} (generates : r.action = .generate target)
    (load : Yields (Run.loadPackage (r.settings {}).packagePath) v (.ok root) v)
    (planned : ImportPlan.ofPackage? root = some plan)
    (endless : ImportPlan.Unwritable (r.settings {}).options plan .endless)
  /-- The document of the schema that is asked for shows a value that lies in itself. -/
  | rendered {key : String} {root : Package} {schema : Schema} {value : Value} (renders : r.action = .render (some key))
    (load : Yields (Run.loadPackage (r.settings {}).packagePath) v (.ok root) v)
    (found : findSchema root key = .ok schema)
    (shown : value ∈ schema.shownValues ((r.settings {}).options.view fun _ => none))
    (endless : value.literalFault? = some .endless)
  /-- A schema is asked for with two dashes as its key, and they are taken away. -/
  | noKey (action : r.action = .render none) (dropped : dashes = .dropped)

theorem speaks_removeOutput {t : Path} (h : (Run.marker t).IsTooLong → P) :
    Speaks P (removeOutput t) v fun _ _ => True := by
  unfold removeOutput
  refine (Speaks.kind? h).bind fun found v' _ _ => ?_
  split
  · exact .lift trivial
  · exact .pure trivial

/-- The documents of a loaded package are not written for a value that lies in itself only if one of them shows it. -/
theorem unwritable_of_written {root : Package} {p : Path} {v v' : Volume}
    (hload : Yields (Run.loadPackage p) v (.ok root) v') {o : SchemaDocs.Options} {plan : ImportPlan}
    {fault : Value.LiteralFault} (hplan : ImportPlan.ofPackage? root = some plan)
    (hwritten : plan.written o root = .error (.literal fault)) : ImportPlan.Unwritable o plan fault := by
  obtain ⟨r, hr, haccepted⟩ := Run.exists_loaded v p
  obtain ⟨document, name, -, hpackage⟩ := haccepted root ((hr.unique hload).1)
  obtain ⟨raw, -, hholds⟩ := Dump.holds_of_packageOf hpackage
  obtain ⟨plan', hplan', -, hrun⟩ := ImportPlan.exists_run hholds
  obtain rfl : plan' = plan := Option.some_inj.1 (hplan'.symm.trans hplan)
  rcases ImportPlan.written_cases (o := o) hrun with ⟨hok, -⟩ | ⟨fault', herror, hunwritable⟩
  · rw [hok] at hwritten
    cases hwritten
  · rw [herror] at hwritten
    cases hwritten
    exact hunwritable

theorem speaks_generate {s : Settings} (hload : LoadEscape v s.packagePath → P)
    (htarget : (Run.marker s.target).IsTooLong → P)
    (hplan : ∀ root plan, Yields (Run.loadPackage s.packagePath) v (.ok root) v → ImportPlan.ofPackage? root = some plan →
      ImportPlan.Unwritable s.options plan .endless → P) : Speaks P (generate s) v fun _ _ => True := by
  unfold generate
  refine ((Run.speaks_loadPackage v s.packagePath).mono hload fun _ _ => id).bind ?_
  rintro root _ hroot rfl
  refine Speaks.bind (R := fun _ _ => True) ?_ fun _ _ _ _ => .pure trivial
  refine Speaks.tryCatch (Run.speaks_generate (fun h => htarget (Run.isTooLong_marker h)) fun plan hplanned hwritten =>
    hplan root plan hroot hplanned (unwritable_of_written hroot hplanned hwritten)) fun e v' he => ?_
  split
  · exact (speaks_removeOutput htarget).bind fun _ _ _ _ => .throw he
  · exact .throw he

theorem findSchema_error {root : Package} {key : String} {e : RunError} (h : findSchema root key = .error e) :
    e.IsWorded := by
  unfold findSchema at h
  dsimp only at h
  split at h
  · cases h
    rfl
  · split at h
    · cases h
      rfl
    · cases h

theorem speaks_render {s : Settings} {key : Option String} (hload : LoadEscape v s.packagePath → P)
    (hkey : key = none → P)
    (hshown : ∀ k root schema, key = some k → Yields (Run.loadPackage s.packagePath) v (.ok root) v →
      findSchema root k = .ok schema →
      ∀ value ∈ schema.shownValues (s.options.view fun _ => none), value.literalFault? = some .endless → P) :
    Speaks P (render s key) v fun _ _ => True := by
  unfold render
  refine ((Run.speaks_loadPackage v s.packagePath).mono hload fun _ _ => id).bind ?_
  rintro root _ hroot rfl
  cases key with
  | none => exact Speaks.bind (R := fun _ _ => False) (.throw (.inr (hkey rfl))) fun _ _ _ h => h.elim
  | some key =>
    refine Speaks.bind (R := fun k v' => v = v' ∧ k = key) (.pure ⟨rfl, rfl⟩) ?_
    rintro _ _ - ⟨rfl, rfl⟩
    refine Speaks.bind (R := fun schema v' => v = v' ∧ findSchema root _ = .ok schema)
      (.ofExcept (fun _ h => ⟨rfl, h⟩) fun e he => .inl (findSchema_error he)) ?_
    rintro schema _ - ⟨rfl, hschema⟩
    refine Speaks.bind (R := fun _ _ => True) (.ofExcept (fun _ _ => trivial) fun fault hfault => ?_) fun shown v4 _ _ => ?_
    · rcases fault with e | _ | _
      · exact .inl rfl
      · obtain ⟨value, hvalue, hendless⟩ := SchemaDocs.Options.exists_of_written hfault
        exact .inr (hshown _ root schema rfl hroot hschema value hvalue hendless)
      · exact .inl rfl
    · split
      · exact .pure trivial
      · exact (Speaks.log (R := fun _ _ => True) trivial).bind fun _ _ _ _ => .pure trivial

/-- The name of the configuration in the working directory is not too long. -/
theorem not_isTooLong_defaultFile : ¬ (Path.ofText Configuration.defaultFile).IsTooLong := by decide +kernel

/-- A request is carried out with an error that has words, if there is no configuration. -/
theorem speaks_carryOut {r : Request} (hnone : r.configuration = none)
    (hfile : ¬ v.IsAt .file (.ofText Configuration.defaultFile))
    (hkey : r.action = .render none → dashes = .dropped) :
    Speaks (Escape dashes v r) (carryOut r) v fun _ _ => True := by
  unfold carryOut configurationOf
  rw [hnone]
  refine Speaks.bind (R := fun c v' => v = v' ∧ c = {}) ?_ ?_
  · refine (Speaks.kind? fun h => absurd h not_isTooLong_defaultFile).bind ?_
    rintro found _ - ⟨rfl, hfound⟩
    split
    · exact absurd (hfound _ rfl) hfile
    · exact .pure ⟨rfl, rfl⟩
  · rintro c _ - ⟨rfl, rfl⟩
    dsimp only
    split
    · rename_i target haction
      exact speaks_generate .load (.target haction) fun root plan => .planned haction
    · rename_i key haction
      refine speaks_render .load (fun h => ?_) fun k root schema h hload hfound value => ?_
      · exact .noKey (h ▸ haction) (hkey (h ▸ haction))
      · exact .rendered (h ▸ haction) hload hfound

/-- The command line ends with the exit code 0, or with the exit code 1 and an error line. -/
def Result.IsProper (result : Result) : Prop := ∃ shown,
  (∃ output, result = .finished ⟨0, output, shown⟩) ∨
    ∃ message, result = .finished ⟨1, "", shown ++ "error: " ++ message ++ "\n"⟩

theorem Result.IsProper.ofRun_error {e : RunError} (h : e.IsWorded) (shown : String) :
    (Result.ofRun shown (.error e)).IsProper := by
  obtain ⟨message, hmessage⟩ := Option.isSome_iff_exists.1 h
  refine ⟨shown, .inr ⟨message, ?_⟩⟩
  rw [Result.ofRun]
  simp only [hmessage]

/-- **Whatever the dump is, a command line ends with the exit code 0, or with the exit code 1 and an error line**, if
there is no configuration and none of the escapes is met; and every error with which definitions are refused has a
wording, unless there is a defect in them. Nothing is said of the refusal of a document with an integer that has too many
digits to be told: to tell it would be an error of its own. -/
theorem execute_ends (v : Volume) (dashes : Dashes) (arguments : List String) (defaultName : String)
    (document : List (Value × Value)) :
    (∀ request, Request.ofArguments dashes arguments = .ok request → request.configuration = none →
      ¬ v.IsAt .file (.ofText Configuration.defaultFile) →
      ((execute dashes arguments : StateM Volume _) v).1.IsProper ∨ Escape dashes v request) ∧
    (Value.displaysLong [] (.map document) = false → ∀ e, Dump.packageOf defaultName document = .error e →
      e.IsWorded ∨ ∃ raw, Dump.readDefinitions document = .ok raw ∧ Dump.Defect raw) := by
  refine ⟨fun request hrequest hnone hfile => ?_, fun _ _ => Dump.isWorded_or_defect⟩
  have hkey (haction : request.action = .render none) : dashes = .dropped := by
    cases dashes with
    | kept => exact absurd haction (action_ne_render_none hrequest)
    | dropped => rfl
  obtain ⟨r, v', hr, hspeaks⟩ := speaks_carryOut hnone hfile hkey
  obtain ⟨shown, hexecute⟩ := execute_eq hrequest hr
  rw [hexecute]
  show (Result.ofRun shown r).IsProper ∨ _
  cases r with
  | ok output => exact .inl ⟨shown, .inl ⟨output, rfl⟩⟩
  | error e => exact hspeaks.imp_left fun hworded => .ofRun_error hworded shown

/-- The words of a command line that documents the package in the working directory. -/
def documentWords : List String := ["gen-docs"]

theorem not_isAt_defaultFile (text : String) : ¬ (yamlDisk text).IsAt .file (.ofText Configuration.defaultFile) := by
  rw [← Volume.kindOf?_eq_some, Run.kindOf?_defaultFile]
  simp

/-- A dump in which the definition of `A` is no mapping. -/
def unmapped : String := "definitions:\n  A: none\n"

/-- A definition that is no mapping ends a command line with the exit code 1. -/
theorem execute_unmapped : ((execute .kept documentWords : StateM Volume _) (yamlDisk unmapped)).1.exit? = some 1 ∧
    (((execute .kept documentWords : StateM Volume _) (yamlDisk unmapped)).1.IsProper ∨
      Escape .kept (yamlDisk unmapped) { action := .generate none }) ∧
    ∃ e, Dump.packageOf "main" [(.str "definitions", .map [(.str "A", .str "none")])] = .error e ∧
      (e.IsWorded ∨ ∃ raw, Dump.readDefinitions [(.str "definitions", .map [(.str "A", .str "none")])] = .ok raw ∧
        Dump.Defect raw) := by
  have hends := execute_ends (yamlDisk unmapped) .kept documentWords "main"
    [(.str "definitions", .map [(.str "A", .str "none")])]
  exact ⟨by decide +kernel, hends.1 _ rfl rfl (not_isAt_defaultFile _), .definitionNotObject "A", rfl, hends.2 (by decide) _ rfl⟩

/-- A dump in which a definition has a number as its key. -/
def numbered : String := "definitions:\n  1:\n    x-kcl-type:\n      type: A\n"

/-- A definition with a number as its key ends a command line without an exit code. -/
theorem not_proper_of_numbered : ∃ request, Request.ofArguments .kept documentWords = .ok request ∧
    request.configuration = none ∧ ¬ (yamlDisk numbered).IsAt .file (.ofText Configuration.defaultFile) ∧
    ¬ ((execute .kept documentWords : StateM Volume _) (yamlDisk numbered)).1.IsProper := by
  refine ⟨{ action := .generate none }, rfl, rfl, not_isAt_defaultFile _, ?_⟩
  have hexit : ((execute .kept documentWords : StateM Volume _) (yamlDisk numbered)).1.exit? = none := by decide +kernel
  rintro ⟨shown, ⟨output, h⟩ | ⟨message, h⟩⟩ <;> rw [h] at hexit <;> cases hexit

end Command

end SchemaDocs
