import SchemaDocs.Proofs.Loads
import SchemaDocs.Proofs.Machines

/-!
# From one disk to another

Everything that is done with files is done by the operations of a disk. So a map from one disk to another that carries
every operation over (`Carries`) carries a whole command line over (`execute_along`): what is shown and the exit code
are the same, and the files that are left are what the map makes of them. A machine without links and troubles does what
the volume in it does (`Machine.carries_ofVolume`), so what holds of command lines on volumes holds on such machines
(`execute_ofVolume`).
-/

namespace SchemaDocs

namespace Files

variable {σ τ α β : Type} {f : σ → τ} {p : Path}

/-- The second action does what the first one does, seen through the map. -/
def Along (f : σ → τ) (x : StateM σ α) (y : StateM τ α) : Prop := ∀ v, y (f v) = ((x v).1, f (x v).2)

namespace Along

theorem pure (a : α) : Along f (Pure.pure a) (Pure.pure a) := fun _ => rfl

theorem bind {x : StateM σ α} {y : StateM τ α} {g : α → StateM σ β} {h : α → StateM τ β} (hx : Along f x y)
    (hg : ∀ a, Along f (g a) (h a)) : Along f (x >>= g) (y >>= h) := by
  intro v
  rw [stateM_bind, stateM_bind, hx v]
  exact hg _ _

end Along

variable [Disk (StateM σ)] [Disk (StateM τ)]

/-- The map carries every operation of the one disk over to the other. -/
structure Carries (f : σ → τ) : Prop where
  workPlace : Along f Disk.workPlace Disk.workPlace
  kind (p : Path) : Along f (Disk.kind p) (Disk.kind p)
  read (p : Path) : Along f (Disk.read p) (Disk.read p)
  names (p : Path) : Along f (Disk.names p) (Disk.names p)
  makeDirectory (p : Path) : Along f (Disk.makeDirectory p) (Disk.makeDirectory p)
  write (p : Path) (data : List UInt8) : Along f (Disk.write p data) (Disk.write p data)
  isTree (p : Path) (name : String) : Along f (Disk.isTree p name) (Disk.isTree p name)
  removeTree (p : Path) (name : String) : Along f (Disk.removeTree p name) (Disk.removeTree p name)
  unlink (p : Path) (name : String) : Along f (Disk.unlink p name) (Disk.unlink p name)
  remove (p : Path) : Along f (Disk.remove p) (Disk.remove p)
  follows (text : List Char) : Along f (Disk.follows text) (Disk.follows text)

namespace Carries

variable (h : Carries f)

include h

theorem kind? (p : Path) : Along f (Disk.kind? p) (Disk.kind? p) := (h.kind p).bind fun r => by
  rcases r with (⟨cause, q⟩ | _) | kind
  · cases cause <;> exact .pure _
  · exact .pure _
  · exact .pure _

theorem discard (p : Path) (name : String) : Along f (Disk.discard p name) (Disk.discard p name) :=
  (h.isTree p name).bind fun r => by
    rcases r with fault | _ | _
    · exact .pure _
    · exact h.unlink p name
    · exact h.removeTree p name

theorem unlessDirectory (p : Path) (fault : Fault) :
    Along f (Disk.unlessDirectory p fault) (Disk.unlessDirectory p fault) := (h.kind? p).bind fun r => by
  rcases r with _ | _ | _ | _ <;> exact .pure _

theorem ensureDirectory (p : Path) : Along f (Disk.ensureDirectory p) (Disk.ensureDirectory p) :=
  (h.makeDirectory p).bind fun r => by
    rcases r with (⟨cause, q⟩ | _) | _
    · cases cause with
      | notFound => exact .pure _
      | _ => exact h.unlessDirectory p _
    · exact .pure _
    · exact .pure _

theorem ensureDirectories : ∀ (depth : Nat) (p : Path),
    Along f (Disk.ensureDirectories depth p) (Disk.ensureDirectories depth p)
  | 0, p => h.ensureDirectory p
  | depth + 1, p => (h.ensureDirectory p).bind fun r => by
    rcases r with (⟨cause, q⟩ | _) | _
    · cases cause with
      | notFound =>
        refine (ensureDirectories depth p.parent).bind fun r => ?_
        rcases r with fault | _
        · exact .pure _
        · exact h.ensureDirectory p
      | _ => exact .pure _
    · exact .pure _
    · exact .pure _

theorem makeDirectories (p : Path) : Along f (Disk.makeDirectories p) (Disk.makeDirectories p) :=
  h.ensureDirectories _ p

end Carries

end Files

/-! ## Runs -/

namespace Run

open Files (Path Fault Disk Carries)

variable {σ τ α β : Type} {f : σ → τ}

/-- The second run does what the first one does, seen through the map, and logs the same. -/
def Along (f : σ → τ) (x : Run (StateM σ) α) (y : Run (StateM τ) α) : Prop :=
  ∀ log, Files.Along f (x.run.run log) (y.run.run log)

namespace Along

theorem pure (a : α) : Along f (Pure.pure a) (Pure.pure a) := fun _ => .pure _

theorem throw (e : RunError) : Along (α := α) f (throw e) (throw e) := fun _ => .pure _

/-- What comes after an error does not matter. -/
theorem throw_bind (e : RunError) (g : α → Run (StateM σ) β) (h : α → Run (StateM τ) β) :
    Along f (MonadExcept.throw e >>= g) (MonadExcept.throw e >>= h) := fun _ => .pure _

theorem log (lines : List LogLine) : Along f (Run.log lines) (Run.log lines) := fun _ => .pure _

theorem ofExcept {ε : Type} (wrap : ε → RunError) (r : Except ε α) :
    Along f (Run.ofExcept wrap r) (Run.ofExcept wrap r) := by
  cases r with
  | ok a => exact pure a
  | error e => exact throw (wrap e)

variable {x : Run (StateM σ) α} {y : Run (StateM τ) α}

theorem bind {g : α → Run (StateM σ) β} {h : α → Run (StateM τ) β} (hx : Along f x y)
    (hg : ∀ a, Along f (g a) (h a)) : Along f (x >>= g) (y >>= h) := by
  intro log
  show Files.Along f ((x.run >>= ExceptT.bindCont g).run log) ((y.run >>= ExceptT.bindCont h).run log)
  rw [StateT.run_bind, StateT.run_bind]
  refine (hx log).bind fun r => ?_
  rcases r with ⟨_ | a, log'⟩
  · exact .pure _
  · exact hg a log'

theorem tryCatch {g : RunError → Run (StateM σ) α} {h : RunError → Run (StateM τ) α} (hx : Along f x y)
    (hg : ∀ e, Along f (g e) (h e)) : Along f (tryCatch x g) (tryCatch y h) := by
  intro log
  show Files.Along f ((ExceptT.tryCatch x g).run.run log) ((ExceptT.tryCatch y h).run.run log)
  rw [ExceptT.tryCatch, ExceptT.tryCatch, ExceptT.run_mk, ExceptT.run_mk, StateT.run_bind, StateT.run_bind]
  refine (hx log).bind fun r => ?_
  rcases r with ⟨e | a, log'⟩
  · exact hg e log'
  · exact .pure _

theorem lift {operation : StateM σ α} {operation' : StateM τ α} (h : Files.Along f operation operation') :
    Along f (liftM (liftM operation : StateT (List LogLine) (StateM σ) α))
      (liftM (liftM operation' : StateT (List LogLine) (StateM τ) α)) := by
  intro log
  show Files.Along f (operation >>= fun a => Pure.pure ((.ok a, log) : Except RunError α × List LogLine))
    (operation' >>= fun a => Pure.pure (.ok a, log))
  exact h.bind fun _ => .pure _

theorem onDisk {operation : StateM σ (Except Fault α)} {operation' : StateM τ (Except Fault α)}
    {wrap : Fault → RunError} (h : Files.Along f operation operation') :
    Along f (Run.onDisk wrap operation) (Run.onDisk wrap operation') := (lift h).bind fun r => by
  rcases r with (_ | _) | a
  · exact throw _
  · exact throw _
  · exact pure a

end Along

variable [Disk (StateM σ)] [Disk (StateM τ)] (h : Carries f)

include h

theorem along_kind? (p : Path) : Along f (kind? p) (kind? p) := .onDisk (h.kind? p)

theorem along_readText (wrap : Fault → RunError) (p : Path) : Along f (readText wrap p) (readText wrap p) :=
  (Along.onDisk (h.read p)).bind fun _ => .ofExcept _ _

theorem along_workPlace : Along f (liftM (Disk.workPlace : StateM σ _)) (liftM (Disk.workPlace : StateM τ _)) :=
  .lift h.workPlace

theorem along_follows (text : List Char) :
    Along f (liftM (Disk.follows text : StateM σ _)) (liftM (Disk.follows text : StateM τ _)) := .lift (h.follows text)

theorem along_remove (p : Path) : Along f (liftM (Disk.remove p : StateM σ _)) (liftM (Disk.remove p : StateM τ _)) :=
  .lift (h.remove p)

/-! ### Loading -/

theorem along_firstFile? : ∀ candidates : List Path, Along f (firstFile? candidates) (firstFile? candidates)
  | [] => .pure none
  | p :: rest => (along_kind? h p).bind fun kind => by
    rcases kind with _ | _ | _
    · exact along_firstFile? rest
    · exact .pure _
    · exact along_firstFile? rest

theorem along_findDump (p : Path) : Along f (findDump p) (findDump p) := (along_kind? h p).bind fun kind => by
  rcases kind with _ | _ | _
  · exact .throw _
  · exact .pure p
  · refine (along_firstFile? h _).bind fun file => ?_
    cases file with
    | none => exact .throw _
    | some file => exact .pure file

theorem along_readDump (file : Path) : Along f (readDump file) (readDump file) :=
  (along_readText h .files file).bind fun chars => (along_follows h chars).bind fun deep => by
    cases deep with
    | false => exact .throw _
    | true =>
      rw [if_pos rfl, if_pos rfl]
      exact .ofExcept _ _

theorem along_defaultName (p : Path) : Along f (defaultName p) (defaultName p) :=
  (along_kind? h p).bind fun _ => (along_workPlace h).bind fun _ => .pure _

theorem along_loadPackage (p : Path) : Along f (loadPackage p) (loadPackage p) :=
  ((along_findDump h p).bind fun file => along_readDump h file).bind fun _ =>
    (along_defaultName h p).bind fun _ => .ofExcept _ _

theorem along_loadConfiguration (p : Path) : Along f (loadConfiguration p) (loadConfiguration p) :=
  (along_readText h _ p).bind fun chars => by
    cases Toml.read? (String.ofList chars) with
    | none => exact .throw _
    | some table => exact (along_workPlace h).bind fun _ => .ofExcept _ _

/-! ### Writing -/

theorem along_discard (wrap : Fault → RunError) (p : Path) : ∀ names : List String,
    Along f (discard wrap p names) (discard wrap p names)
  | [] => .pure ()
  | name :: rest => (Along.onDisk (h.discard p name)).bind fun _ => along_discard wrap p rest

theorem along_discardEarlier (t : Path) : Along f (discardEarlier t) (discardEarlier t) :=
  (Along.onDisk (h.kind? (marker t))).bind fun kind => by
    rcases kind with _ | _ | _
    · exact .throw _
    · exact (Along.log _).bind fun _ => (Along.onDisk (h.names t)).bind fun names => along_discard h _ t names
    · exact .throw _

theorem along_emptyTarget (t : Path) : Along f (emptyTarget t) (emptyTarget t) :=
  (Along.onDisk (h.names t)).bind fun names => by
    split
    · exact along_discardEarlier h t
    · exact .pure ()

theorem along_startOutput (t : Path) : Along f (startOutput t) (startOutput t) :=
  (Along.onDisk (h.makeDirectories t)).bind fun _ => .onDisk (h.write _ _)

theorem along_prepareTarget (t : Path) : Along f (prepareTarget t) (prepareTarget t) :=
  (along_kind? h t).bind fun kind => by
    rcases kind with _ | _ | _
    · exact (Along.pure ()).bind fun _ => along_startOutput h t
    · exact .throw_bind _ _ _
    · exact (along_emptyTarget h t).bind fun _ => along_startOutput h t

theorem along_writeDocuments (t : Path) : ∀ documents : Documents,
    Along f (writeDocuments t documents) (writeDocuments t documents)
  | [] => .pure []
  | (_, _) :: rest =>
    ((Along.onDisk (h.makeDirectories _)).bind fun _ => Along.onDisk (h.write _ _)).bind fun _ =>
      (along_writeDocuments t rest).bind fun _ => .pure _

omit h [Disk (StateM σ)] [Disk (StateM τ)] in
theorem along_makeDocuments (s : Settings) (root : Package) :
    Along f (makeDocuments s root) (makeDocuments s root) := by
  unfold makeDocuments
  cases ImportPlan.ofPackage? root with
  | none => exact .throw _
  | some plan => exact (Along.log _).bind fun _ => (Along.log _).bind fun _ => .ofExcept _ _

theorem along_generate (s : Settings) (root : Package) : Along f (generate s root) (generate s root) :=
  (along_makeDocuments s root).bind fun documents => (along_prepareTarget h s.target).bind fun _ =>
    (along_writeDocuments h s.target documents).bind fun _ => (Along.log _).bind fun _ => .pure _

end Run

/-! ## Command lines -/

namespace Command

open Files (Path Disk Carries)
open Run (along_kind? along_remove along_loadConfiguration along_loadPackage)

variable {σ τ : Type} {f : σ → τ} [Disk (StateM σ)] [Disk (StateM τ)] (h : Carries f)

include h

theorem along_configurationOf (r : Request) : Run.Along f (configurationOf r) (configurationOf r) := by
  unfold configurationOf
  rcases r.configuration with _ | _ | path
  · refine (along_kind? h _).bind fun kind => ?_
    rcases kind with _ | _ | _
    · exact .pure _
    · exact along_loadConfiguration h _
    · exact .pure _
  · exact .throw _
  · exact along_loadConfiguration h _

theorem along_removeOutput (t : Path) : Run.Along f (removeOutput t) (removeOutput t) :=
  (along_kind? h _).bind fun kind => by
    rcases kind with _ | _ | _
    · exact .pure ()
    · exact along_remove h t
    · exact .pure ()

theorem along_generate (s : Settings) : Run.Along f (generate s) (generate s) :=
  (along_loadPackage h s.packagePath).bind fun root => by
    refine (Run.Along.tryCatch (Run.along_generate h s root) fun e => ?_).bind fun _ => .pure _
    cases e with
    | output e => exact (along_removeOutput h s.target).bind fun _ => .throw _
    | _ => exact .throw _

theorem along_render (s : Settings) (key : Option String) : Run.Along f (render s key) (render s key) :=
  (along_loadPackage h s.packagePath).bind fun root => by
    cases key with
    | none => exact .throw_bind _ _ _
    | some key =>
      refine (Run.Along.pure key).bind fun key => (Run.Along.ofExcept _ _).bind fun schema =>
        (Run.Along.ofExcept _ _).bind fun shown => ?_
      cases shown with
      | some text => exact .pure text
      | none => exact (Run.Along.log _).bind fun _ => .pure ""

theorem along_carryOut (r : Request) : Run.Along f (carryOut r) (carryOut r) :=
  (along_configurationOf h r).bind fun c => by
    cases r.action with
    | generate => exact along_generate h _
    | render key => exact along_render h _ key

/-- **A command line is carried over** from one disk to the other. -/
theorem execute_along (dashes : Dashes) (arguments : List String) :
    Files.Along f (execute dashes arguments) (execute dashes arguments) := by
  unfold execute
  cases Request.ofArguments dashes arguments with
  | error stop => exact .pure _
  | ok request =>
    refine (along_carryOut h request []).bind fun r => ?_
    rcases r with ⟨e | output, log⟩
    · dsimp only
      cases e.message? <;> exact .pure _
    · exact .pure _

end Command

/-! ## Machines without links and troubles -/

namespace Files

namespace Machine

open Volume (guarded guardedIn)

variable (v : Volume) (p : Path) (name : String)

/-- The machine with the files of a volume, and without links and troubles. -/
def ofVolume (v : Volume) : Machine where
  volume := v

theorem linkAt?_ofVolume (place : Location) : (ofVolume v).linkAt? place = none := by
  rw [linkAt?]
  split <;> rfl

theorem stride_ofVolume (depth : Nat) (place : Location) (segment : String) :
    (ofVolume v).stride depth place segment = Volume.step v.root place segment := by
  rw [stride]
  simp only [linkAt?_ofVolume]
  exact bind_pure _

theorem follow_ofVolume (depth : Nat) (place : Location) (segments : List String) :
    (ofVolume v).follow (depth + 1) place segments = segments.foldlM (Volume.step v.root) place := by
  have hstride : (ofVolume v).stride depth = Volume.step v.root := by
    funext place segment
    exact stride_ofVolume v depth place segment
  rw [follow_succ, hstride]

theorem find_ofVolume : (ofVolume v).find p = v.find p := by
  rw [find, follow_ofVolume]
  rfl

theorem findDirectory_ofVolume : (ofVolume v).findDirectory p = v.findDirectory p := by
  rw [findDirectory, find_ofVolume]
  rfl

theorem read_ofVolume : (ofVolume v).read p = v.read p := by
  rw [read, find_ofVolume]
  rfl

theorem findParent_ofVolume : (ofVolume v).findParent p = v.findParent p := by
  rw [findParent, parentOf]
  simp only [follow_ofVolume]
  rfl

theorem renew_ofVolume (place : Location) (w : Volume) : (ofVolume v).renew place w = ofVolume w := by
  simp [renew, ofVolume]

theorem makeDirectory_ofVolume : (ofVolume v).makeDirectory p = (v.makeDirectory p).map ofVolume := by
  rw [makeDirectory, Volume.makeDirectory, findParent_ofVolume]
  rcases v.findParent p with _ | _ | ⟨place, entries, name⟩
  · rfl
  · rfl
  · simp only [bind, Except.bind, putAt, renew_ofVolume]
    split <;> rfl

theorem write_ofVolume (data : List UInt8) : (ofVolume v).write p data = (v.write p data).map ofVolume := by
  by_cases hlong : Volume.longestPath ≤ Path.byteLength p.text
  · rw [write, Volume.write, Volume.findParent, if_pos hlong, if_pos hlong]
    rfl
  · have hparent : (ofVolume v).parentOf (mostLinks + 1) ((ofVolume v).volume.start p) p.segments = v.findParent p := by
      rw [← findParent_ofVolume, findParent, if_neg hlong]
    rw [write, if_neg hlong, aim, hparent, Volume.write]
    rcases hfound : v.findParent p with _ | _ | ⟨place, entries, name⟩
    · rfl
    · rfl
    · obtain ⟨_, _, -, hthere⟩ := Volume.findParent_eq_ok.1 hfound
      have hat : (ofVolume v).volume.root.at? (place ++ [name]) = Assoc.get? name entries := by
        rw [Entry.at?_append, show (ofVolume v).volume.root.at? place = _ from hthere, Option.bind_some, Entry.at?_cons]
        cases Assoc.get? name entries <;> rfl
      simp only [bind, Except.bind, linkAt?_ofVolume, pure, Except.pure, hat, putAt, renew_ofVolume]
      rcases Assoc.get? name entries with _ | _ | _ <;> rfl

theorem findIn_ofVolume : (ofVolume v).findIn p name = v.findIn p name := by
  rw [findIn, findDirectory_ofVolume]
  rfl

theorem isTree_ofVolume : (ofVolume v).isTree p name = v.isTree p name := by
  rw [isTree, findIn_ofVolume]
  rfl

theorem removeTree_ofVolume : (ofVolume v).removeTree p name = (v.removeTree p name).map ofVolume := by
  rw [removeTree, Volume.removeTree, findIn_ofVolume]
  rcases v.findIn p name with _ | ⟨place, entries, _ | _⟩
  · rfl
  · rfl
  · simp only [bind, Except.bind, dropAt, renew_ofVolume]
    rfl

theorem unlink_ofVolume : (ofVolume v).unlink p name = (v.unlink p name).map ofVolume := by
  rw [unlink, Volume.unlink, findIn_ofVolume]
  rcases v.findIn p name with _ | ⟨place, entries, _ | _⟩
  · rfl
  · simp only [bind, Except.bind, dropAt, renew_ofVolume]
    rfl
  · rfl

theorem removed_ofVolume : (ofVolume v).removed p = ofVolume (v.remove p) := by
  have hlink : (ofVolume v).isLink p = false := by
    rw [isLink]
    split
    · rw [linkAt?_ofVolume]
      rfl
    · rfl
  show (ofVolume v).remove p = _
  rw [remove, hlink, findDirectory_ofVolume, Volume.remove]
  rcases v.findDirectory p with _ | ⟨place, entries⟩
  · rfl
  · dsimp only
    split
    · exact renew_ofVolume ..
    · exact renew_ofVolume ..

theorem guarded_map {α β : Type} (g : α → β) (r : Except Cause α) : guarded p (r.map g) = (guarded p r).map g := by
  rw [guarded, guarded]
  split
  · rfl
  · cases r <;> rfl

theorem guardedIn_map {α β : Type} (g : α → β) (r : Except Cause α) :
    guardedIn p name (r.map g) = (guardedIn p name r).map g := by
  rw [guardedIn, guardedIn]
  split
  · rfl
  · cases r <;> rfl

theorem along_looking {α : Type} {look : Machine → Except Fault α} {look' : Volume → Except Fault α}
    (h : ∀ v, look (ofVolume v) = look' v) : Along ofVolume (Volume.looking look') (looking look) := fun v =>
  Prod.ext (h v) rfl

/-- A change goes along with a change of the volume, if nothing changes when it fails. -/
theorem along_changing {change : Machine → Except Fault Machine} {failed : Machine → Machine}
    {change' : Volume → Except Fault Volume} (hchange : ∀ v, change (ofVolume v) = (change' v).map ofVolume)
    (hfailed : ∀ v, failed (ofVolume v) = ofVolume v) :
    Along ofVolume (Volume.changing change') (changing change failed) := by
  intro v
  rw [changing, Volume.changing, hchange]
  cases change' v with
  | ok changed => rfl
  | error fault => simp [Except.map, hfailed]

/-- **A machine without links and troubles does what the volume in it does.** -/
theorem carries_ofVolume : Carries ofVolume where
  workPlace _ := rfl
  kind p := along_looking fun v => congrArg (guarded p) (congrArg (Except.map _) (find_ofVolume v p))
  read p := along_looking fun v => congrArg (guarded p) (read_ofVolume v p)
  names p := along_looking fun v => congrArg (guarded p) (congrArg (Except.map _) (findDirectory_ofVolume v p))
  makeDirectory p := along_changing
    (fun v => (congrArg (guarded p) (makeDirectory_ofVolume v p)).trans (guarded_map p _ _)) fun _ => rfl
  write p data := along_changing
    (fun v => (congrArg (guarded p) (write_ofVolume v p data)).trans (guarded_map p _ _)) fun _ => rfl
  isTree p name := along_looking fun v => congrArg (guardedIn p name) (isTree_ofVolume v p name)
  removeTree p name := along_changing
    (fun v => (congrArg (guardedIn p name) (removeTree_ofVolume v p name)).trans (guardedIn_map p name _ _))
    fun _ => rfl
  unlink p name := along_changing
    (fun v => (congrArg (guardedIn p name) (unlink_ofVolume v p name)).trans (guardedIn_map p name _ _)) fun _ => rfl
  remove p v := by
    show ((), if p.hasZero then ofVolume v else (ofVolume v).removed p) =
      ((), ofVolume (if p.hasZero then v else v.remove p))
    rw [removed_ofVolume]
    split <;> rfl
  follows _ _ := rfl

end Machine

end Files

/-- **A command line on a machine without links and troubles** does what it does on the volume. -/
theorem Command.execute_ofVolume (dashes : Command.Dashes) (arguments : List String) (v : Files.Volume) :
    (execute dashes arguments : StateM Files.Machine _) (.ofVolume v) =
      (((execute dashes arguments : StateM Files.Volume _) v).1,
        .ofVolume ((execute dashes arguments : StateM Files.Volume _) v).2) :=
  execute_along Files.Machine.carries_ofVolume dashes arguments v

end SchemaDocs
