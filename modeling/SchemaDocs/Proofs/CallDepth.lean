import SchemaDocs.Proofs.NodeStore

/-!
# How deep calls go

Nothing that is read depends on how deep calls may go, except that it may have no result. So a reading that comes to a
result comes to the same one whenever its calls may go deeper (`readersWithin_mono`), and one result at some depth
settles it (`Settles.of_under`). This is shown once for each reader, from the readers that it calls.
-/

namespace SchemaDocs.Dump

/-- Whatever the first one comes to, the second one comes to as well. -/
def Storing.Under {α : Type} (y y' : Storing α) : Prop := ∀ σ r, y σ = some r → y' σ = some r

namespace Storing.Under

variable {α β : Type} {y y' : Storing α} {g g' : α → Storing β}

theorem refl (y : Storing α) : Under y y := fun _ _ => id

theorem bind (h : Under y y') (hg : ∀ a, Under (g a) (g' a)) : Under (y >>= g) (y' >>= g') := by
  intro σ r hr
  simp only [Bind.bind, StateT.bind, ExceptT.bind, ExceptT.mk] at hr ⊢
  cases hy : y σ with
  | none => simp only [hy, Option.bind, reduceCtorEq] at hr
  | some first =>
    simp only [hy, h σ first hy, Option.bind] at hr ⊢
    cases first with
    | error e => exact hr
    | ok result => exact hg result.1 result.2 r hr

theorem map (h : Under y y') (f : α → β) : Under (f <$> y) (f <$> y') := by
  rw [map_eq_pure_bind, map_eq_pure_bind]
  exact h.bind fun _ => .refl _

theorem mapM {f f' : α → Storing β} (h : ∀ a, Under (f a) (f' a)) (l : List α) : Under (l.mapM f) (l.mapM f') := by
  induction l with
  | nil => exact .refl _
  | cons a rest ih =>
    rw [List.mapM_cons, List.mapM_cons]
    exact (h a).bind fun _ => ih.bind fun _ => .refl _

end Storing.Under

/-- Whatever the first readers come to, the second ones come to as well. -/
structure Readers.Under (readers readers' : Readers) : Prop where
  resolve : ∀ key, (readers.resolve key).Under (readers'.resolve key)
  parse : ∀ value location, (readers.parse value location).Under (readers'.parse value location)

namespace Readers.Under

variable {readers readers' : Readers} (h : readers.Under readers') (location : String) (fields : List (Value × Value))
include h

theorem properties : (readers.properties location fields).Under (readers'.properties location fields) := by
  unfold Readers.properties
  dsimp only
  split
  · exact .refl _
  · split
    · refine .map (.mapM (fun entry => ?_) _) _
      exact (h.parse _ _).bind fun _ => .refl _
    · exact .refl _

theorem node? (name : String) : (readers.node? name location fields).Under (readers'.node? name location fields) := by
  unfold Readers.node?
  split
  · exact .refl _
  · exact (h.parse _ _).map some

theorem additional : (readers.additional location fields).Under (readers'.additional location fields) := by
  unfold Readers.additional
  split
  · exact (h.parse _ _).map some
  · exact .refl _

theorem members : (readers.members location fields).Under (readers'.members location fields) := by
  unfold Readers.members
  dsimp only
  split
  · exact .refl _
  · split
    · exact .mapM (fun item => h.parse _ _) _
    · exact .refl _

theorem fill (n : Nat) : (readers.fill n location fields).Under (readers'.fill n location fields) := by
  unfold Readers.fill
  refine .bind (.refl _) fun head => .bind (.refl _) fun _ => ?_
  refine (h.properties _ _).bind fun properties => .bind (.refl _) fun required => .bind (.refl _) fun _ => ?_
  refine (h.node? _ _ _).bind fun items => .bind (.refl _) fun _ => ?_
  refine (h.additional _ _).bind fun additional => .bind (.refl _) fun enumerated => .bind (.refl _) fun _ => ?_
  refine (h.node? _ _ _).bind fun keyType => .bind (.refl _) fun _ => ?_
  exact (h.members _ _).bind fun members => .refl _

theorem resolveNext (raw : List (Value × Value)) (key : String) :
    (readers.resolveNext raw key).Under (readers'.resolveNext raw key) := by
  unfold Readers.resolveNext
  refine .bind (.refl _) fun known => ?_
  cases known with
  | some n => exact .refl _
  | none =>
    dsimp only
    split
    · exact .bind (.refl _) fun n => .bind (.refl _) fun _ => (h.fill _ _ n).bind fun _ => .refl _
    · exact .refl _

theorem parseNext (raw : List (Value × Value)) (value : Value) :
    (readers.parseNext raw value location).Under (readers'.parseNext raw value location) := by
  unfold Readers.parseNext
  split
  · split
    · exact .bind (.refl _) fun n => (h.fill _ _ n).bind fun _ => .refl _
    · exact .bind (.refl _) fun name => (h.resolve name).bind fun _ => .refl _
  · exact .refl _

end Readers.Under

/-- **Calls that may go deeper come to the same results.** -/
theorem readersWithin_mono (raw : List (Value × Value)) {depth depth' : Nat} (h : depth ≤ depth') :
    (readersWithin raw depth).Under (readersWithin raw depth') := by
  induction depth generalizing depth' with
  | zero => exact ⟨fun _ _ _ => nofun, fun _ _ _ _ => nofun⟩
  | succ depth ih =>
    obtain ⟨depth', rfl⟩ : ∃ d, depth' = d + 1 := ⟨depth' - 1, by omega⟩
    have hnext := ih (Nat.le_of_succ_le_succ h)
    exact ⟨hnext.resolveNext raw, fun value location => hnext.parseNext location raw value⟩

/-- What has a result at one depth is settled, if deeper calls come to the same results. -/
theorem Settles.of_under {α : Type} {y : Nat → Storing α} {σ : Store} {r : Except Error (α × Store)} {depth : Nat}
    (hy : ∀ {depth depth'}, depth ≤ depth' → (y depth).Under (y depth')) (h : y depth σ = some r) :
    Settles (fun depth => y depth σ) r :=
  ⟨depth, fun _ hle => hy hle σ r h⟩

end SchemaDocs.Dump
