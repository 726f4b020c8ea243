import SchemaDocs.Command.Execute
import SchemaDocs.Proofs.Generation
import SchemaDocs.Proofs.Targets

/-!
# Loading leaves the files alone

The runs that only look at files (`Reads`): finding and reading a dump, reading a configuration. What they come to is a
matter of the files alone, and the package that is loaded is the one that the entries of the dump describe
(`exists_loaded`).
-/

namespace SchemaDocs.Run

open Files (Path Fault Disk)

variable {σ α β : Type} {v : σ} {p : Path} {wrap : Fault → RunError}

/-- The run leaves all files as they are. -/
def Reads (x : Run (StateM σ) α) : Prop := ∀ v, ∃ r, Yields x v r v

namespace Reads

theorem pure (a : α) : Reads (Pure.pure a : Run (StateM σ) α) := fun v => ⟨_, Yields.pure a v⟩

theorem throw (e : RunError) : Reads (throw e : Run (StateM σ) α) := fun v => ⟨_, Yields.throw e v⟩

theorem ofExcept {ε : Type} (wrap : ε → RunError) (r : Except ε α) :
    Reads (Run.ofExcept wrap r : Run (StateM σ) α) := fun v =>
  ⟨_, Yields.ofExcept wrap r v⟩

theorem bind {x : Run (StateM σ) α} {f : α → Run (StateM σ) β} (hx : Reads x) (hf : ∀ a, Reads (f a)) :
    Reads (x >>= f) := by
  intro v
  obtain ⟨r, hr⟩ := hx v
  cases r with
  | error e => exact ⟨_, hr.bind_error⟩
  | ok a =>
    obtain ⟨r', hr'⟩ := hf a v
    exact ⟨r', hr.bind hr'⟩

theorem onDisk {operation : StateM σ (Except Fault α)} (h : ∀ v, (operation v).2 = v) :
    Reads (Run.onDisk wrap operation) := by
  intro v
  rcases hr : operation v with ⟨r, v'⟩
  have hsame : v' = v := by
    rw [← h v, hr]
  rw [hsame] at hr
  cases r with
  | ok a => exact ⟨_, Yields.onDisk hr⟩
  | error fault => exact ⟨_, Yields.onDisk_error hr⟩

section Disk

variable [Disk (StateM σ)] [Looks σ]

theorem kind? (p : Path) : Reads (σ := σ) (Run.kind? p) := onDisk (Looks.kind? p)

theorem firstFile? : ∀ candidates : List Path, Reads (σ := σ) (Run.firstFile? candidates)
  | [] => pure none
  | candidate :: rest => (kind? candidate).bind fun kind => by
    split
    · exact pure _
    · exact firstFile? rest

theorem findDump (p : Path) : Reads (σ := σ) (Run.findDump p) := (kind? p).bind fun kind => by
  split
  · exact pure _
  · refine (firstFile? _).bind fun found => ?_
    split
    · exact pure _
    · exact throw _
  · exact throw _

theorem readText (p : Path) : Reads (σ := σ) (Run.readText wrap p) :=
  (onDisk (Looks.read p)).bind fun _ => ofExcept _ _

theorem follows (text : List Char) : Reads (σ := σ) (liftM (Disk.follows text : StateM σ _)) := fun v =>
  ⟨_, Yields.lift (Prod.ext rfl (Looks.follows text v))⟩

theorem readDump (file : Path) : Reads (σ := σ) (Run.readDump file) :=
  (readText file).bind fun chars => (follows chars).bind fun deep => by
    split
    · exact ofExcept _ _
    · exact throw _

theorem loadDump (p : Path) : Reads (σ := σ) (Run.loadDump p) := (findDump p).bind readDump

theorem workPlace : Reads (σ := σ) (liftM (Disk.workPlace : StateM σ _)) := fun v =>
  ⟨_, Yields.lift (Prod.ext rfl (Looks.workPlace v))⟩

theorem defaultName (p : Path) : Reads (σ := σ) (Run.defaultName p) :=
  (kind? p).bind fun _ => workPlace.bind fun _ => pure _

theorem loadConfiguration (p : Path) : Reads (σ := σ) (Run.loadConfiguration p) := (readText p).bind fun chars => by
  split
  · exact throw _
  · exact workPlace.bind fun _ => ofExcept _ _

/-- **Finding the configuration of a request** leaves the files as they are. -/
theorem configurationOf (r : Command.Request) : Reads (σ := σ) (Command.configurationOf r) := by
  rw [Command.configurationOf]
  split
  · exact loadConfiguration _
  · exact throw _
  · refine (kind? _).bind fun kind => ?_
    split
    · exact loadConfiguration _
    · exact pure _

end Disk

end Reads

variable [Disk (StateM σ)] [Looks σ]

/-- **Loading leaves the files as they are**, and the package that is loaded is described by the entries of the
dump. -/
theorem exists_loaded (v : σ) (p : Path) : ∃ r, Yields (loadPackage p) v r v ∧ ∀ root, r = .ok root →
    ∃ document name, Yields (loadDump p) v (.ok document) v ∧ Dump.packageOf name document = .ok root := by
  obtain ⟨document, hdocument⟩ := Reads.loadDump p v
  cases document with
  | error e => exact ⟨_, hdocument.bind_error, by simp⟩
  | ok document =>
    obtain ⟨name, hname⟩ := Reads.defaultName p v
    cases name with
    | error e => exact ⟨_, hdocument.bind hname.bind_error, by simp⟩
    | ok name =>
      exact ⟨_, hdocument.bind (hname.bind (Yields.ofExcept _ _ v)),
        fun root hroot => ⟨document, name, hdocument, except_mapError_ok.1 hroot⟩⟩

omit [Looks σ]

/-- The keys of the definitions of the dump at a path. -/
def keysAt (v : σ) (p : Path) : List String :=
  match ((outcome (loadDump p) : StateM σ _) v).1.1 with
  | .ok document => match Dump.readDefinitions document with
    | .ok raw => Dump.keysOf raw
    | .error _ => []
  | .error _ => []

theorem keysAt_eq {document raw : List (Value × Value)} (hdocument : Yields (loadDump p) v (.ok document) v)
    (hraw : Dump.readDefinitions document = .ok raw) : keysAt v p = Dump.keysOf raw := by
  obtain ⟨log, h⟩ := hdocument.exists_outcome
  rw [keysAt, h]
  dsimp only
  rw [hraw]

/-- A whole run: the package at a path is loaded, and its documents are written. -/
def generateFrom {m : Type → Type} [Monad m] [Disk m] (s : Settings) : Run m (List Path) := do
  let root ← loadPackage s.packagePath
  generate s root

end SchemaDocs.Run

namespace SchemaDocs.Command

open Files (Disk)
open Run (Yields)

/-- What a command line comes to, with the log that is shown, when carrying it out has come to a result. -/
def Result.ofRun (shown : String) : Except RunError String → Result
  | .ok output => .finished ⟨0, output, shown⟩
  | .error e => match e.message? with
    | some message => .finished ⟨1, "", shown ++ "error: " ++ message ++ "\n"⟩
    | none => .failed e

theorem execute_eq {σ : Type} [Disk (StateM σ)] {dashes : Dashes} {arguments : List String} {request : Request}
    {r : Except RunError String} {v v' : σ} (hrequest : Request.ofArguments dashes arguments = .ok request)
    (h : Yields (carryOut request) v r v') : ∃ shown, (execute dashes arguments : StateM σ _) v = (.ofRun shown r, v') := by
  obtain ⟨log, houtcome⟩ := h.exists_outcome
  refine ⟨LogLine.writeAll (.ofVerbosity request.verbosity) log, ?_⟩
  rw [execute, hrequest]
  dsimp only
  rw [stateM_bind, houtcome]
  cases r with
  | ok output => rfl
  | error e =>
    dsimp only [Result.ofRun]
    cases e.message? <;> rfl

/-- The exit code of a command line, if it ends with one. -/
def Result.exit? : Result → Option UInt32
  | .finished report => some report.exit
  | _ => none

end SchemaDocs.Command
