import SchemaDocs.Proofs.Disks
import SchemaDocs.Run.Generate

/-!
# Rules of runs

How a run ends on a disk: with a result or an error, and with the files as they are then (`Yields`). The log does not
matter to it. The rules follow a run step by step through everything it is put together from, so a run that is followed
is known to end in one way only (`Yields.unique`).
-/

namespace SchemaDocs.Run

open Files (Path Kind Fault Disk)

variable {σ α β : Type} {x : Run (StateM σ) α} {v v1 v' : σ} {a : α} {e : RunError}

/-- From the files `v` the run ends with `result` and the files `v'`, whatever has been logged before. -/
def Yields (x : Run (StateM σ) α) (v : σ) (result : Except RunError α) (v' : σ) : Prop :=
  ∀ log, ∃ log', x.run.run log v = ((result, log'), v')

namespace Yields

theorem unique {r r' : Except RunError α} (h : Yields x v r v1) (h' : Yields x v r' v') : r = r' ∧ v1 = v' := by
  obtain ⟨log, h⟩ := h []
  obtain ⟨log', h'⟩ := h' []
  rw [h] at h'
  cases h'
  exact ⟨rfl, rfl⟩

/-- What a run comes to. -/
theorem of_outcome {r r' : Except RunError α} {log : List LogLine}
    (ho : (outcome x : StateM σ _) v = ((r, log), v'))
    (h : Yields x v r' v1) : r' = r ∧ v1 = v' := by
  obtain ⟨log', h⟩ := h []
  have heq : ((r', log'), v1) = ((r, log), v') := h.symm.trans ho
  cases heq
  exact ⟨rfl, rfl⟩

theorem exists_outcome {r : Except RunError α} (h : Yields x v r v') :
    ∃ log, (outcome x : StateM σ _) v = ((r, log), v') := h []

theorem pure (a : α) (v : σ) : Yields (Pure.pure a : Run (StateM σ) α) v (.ok a) v := fun log => ⟨log, rfl⟩

theorem throw (e : RunError) (v : σ) : Yields (throw e : Run (StateM σ) α) v (.error e) v := fun log =>
  ⟨log, rfl⟩

theorem log (lines : List LogLine) (v : σ) : Yields (Run.log lines) v (.ok ()) v := fun log =>
  ⟨log ++ lines, rfl⟩

theorem bind {f : α → Run (StateM σ) β} {r : Except RunError β} (hx : Yields x v (.ok a) v1)
    (hf : Yields (f a) v1 r v') : Yields (x >>= f) v r v' := by
  intro log
  obtain ⟨log1, h1⟩ := hx log
  obtain ⟨log2, h2⟩ := hf log1
  refine ⟨log2, ?_⟩
  show (x.run >>= ExceptT.bindCont f).run log v = _
  rw [StateT.run_bind, stateM_bind, h1]
  exact h2

theorem bind_error {f : α → Run (StateM σ) β} (hx : Yields x v (.error e) v') :
    Yields (x >>= f) v (.error e) v' := by
  intro log
  obtain ⟨log1, h1⟩ := hx log
  refine ⟨log1, ?_⟩
  show (x.run >>= ExceptT.bindCont f).run log v = _
  rw [StateT.run_bind, stateM_bind, h1]
  rfl

theorem ofExcept {ε : Type} (wrap : ε → RunError) (r : Except ε α) (v : σ) :
    Yields (Run.ofExcept wrap r) v (r.mapError wrap) v := by
  cases r with
  | ok a => exact pure a v
  | error e => exact throw (wrap e) v

/-- An error is taken up by what handles it. -/
theorem tryCatch_error {handle : RunError → Run (StateM σ) α} {r : Except RunError α}
    (hx : Yields x v (.error e) v1) (hhandle : Yields (handle e) v1 r v') : Yields (tryCatch x handle) v r v' := by
  intro log
  obtain ⟨log1, h1⟩ := hx log
  obtain ⟨log2, h2⟩ := hhandle log1
  refine ⟨log2, ?_⟩
  show (ExceptT.tryCatch x handle).run.run log v = _
  rw [ExceptT.tryCatch, ExceptT.run_mk, StateT.run_bind, stateM_bind, show StateT.run x log v = _ from h1]
  exact h2

theorem tryCatch_ok {handle : RunError → Run (StateM σ) α} (hx : Yields x v (.ok a) v') :
    Yields (tryCatch x handle) v (.ok a) v' := by
  intro log
  obtain ⟨log1, h1⟩ := hx log
  refine ⟨log1, ?_⟩
  show (ExceptT.tryCatch x handle).run.run log v = _
  rw [ExceptT.tryCatch, ExceptT.run_mk, StateT.run_bind, stateM_bind, show StateT.run x log v = _ from h1]
  rfl

/-! ## Operations of the disk -/

/-- An operation of the disk, with whatever it results in. -/
theorem lift {γ : Type} {operation : StateM σ γ} {r : γ} (h : operation v = (r, v')) :
    Yields (liftM (liftM operation : StateT (List LogLine) (StateM σ) γ)) v (.ok r) v' := by
  intro log
  refine ⟨log, ?_⟩
  show (operation >>= fun r => Pure.pure ((.ok r, log) : Except RunError γ × List LogLine)) v = _
  rw [stateM_bind, h]
  rfl

/-- The error that a failed operation means. -/
def failure (wrap : Fault → RunError) : Fault → RunError
  | .zeroInPath => .files .zeroInPath
  | .failed cause path => wrap (.failed cause path)

variable {operation : StateM σ (Except Fault α)} {wrap : Fault → RunError}

theorem onDisk (h : operation v = (.ok a, v')) : Yields (Run.onDisk wrap operation) v (.ok a) v' :=
  (lift h).bind (pure a v')

theorem onDisk_error {fault : Fault} (h : operation v = (.error fault, v')) :
    Yields (Run.onDisk wrap operation) v (.error (failure wrap fault)) v' := by
  cases fault with
  | failed cause path => exact (lift h).bind (throw _ v')
  | zeroInPath => exact (lift h).bind (throw _ v')

end Yields

/-! ## Looking -/

/-- To look at files leaves them as they are. -/
class Looks (σ : Type) [Disk (StateM σ)] : Prop where
  workPlace (v : σ) : ((Disk.workPlace : StateM σ _) v).2 = v
  kind (p : Path) (v : σ) : ((Disk.kind p : StateM σ _) v).2 = v
  read (p : Path) (v : σ) : ((Disk.read p : StateM σ _) v).2 = v
  names (p : Path) (v : σ) : ((Disk.names p : StateM σ _) v).2 = v
  isTree (p : Path) (name : String) (v : σ) : ((Disk.isTree p name : StateM σ _) v).2 = v
  follows (text : List Char) (v : σ) : ((Disk.follows text : StateM σ _) v).2 = v

theorem Looks.kind? [Disk (StateM σ)] [Looks σ] (p : Path) (v : σ) : ((Disk.kind? p : StateM σ _) v).2 = v := by
  have hkind := Looks.kind p v
  rw [Disk.kind?, stateM_bind]
  rcases ((Disk.kind p : StateM σ _) v).1 with fault | kind
  · rcases fault with ⟨cause, q⟩ | _
    · cases cause <;> exact hkind
    · exact hkind
  · exact hkind

instance : Looks Files.Volume where
  workPlace _ := rfl
  kind _ _ := rfl
  read _ _ := rfl
  names _ _ := rfl
  isTree _ _ _ := rfl
  follows _ _ := rfl

end SchemaDocs.Run
