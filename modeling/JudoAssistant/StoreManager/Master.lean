import JudoAssistant.Lib.Run
import JudoAssistant.StoreManager.UndoStatus

/-!
# The dirty flag of the master

`MasterStoreManager` (`src/ui/store_managers/master_store_manager.cpp`) is the store manager that
reads and writes files.  It overrides `dispatch`, `undo()` and `redo` to note that the tournament has
changed.  The undo of a chosen action and the calls of the network interface are those of
`StoreManager`, which know nothing of the flag.
-/

namespace JudoAssistant

variable {T : Type} {K : ActionModel T}

namespace StoreManager

variable {s s' : StoreManager K} {actionId : ClientActionId}

theorem tournament_trim (h : s.trim = some s') : s'.tournament = s.tournament := by
  unfold trim popActionListFront at h
  split at h
  · split at h
    · cases h
    · split at h
      · cases h
        simp only [emit]
        split <;> rfl
      · cases h
        rfl
  · cases h
    rfl

theorem tournament_receiveActionConfirm (h : s.receiveActionConfirm actionId = some s') :
    s'.tournament = s.tournament := by
  unfold receiveActionConfirm at h
  split at h
  · cases h
    rfl
  · split at h
    · cases h
    · split at h
      · cases h
      · split at h
        · cases h
        · have htrim := tournament_trim h
          exact htrim

theorem tournament_receiveUndoConfirm (s : StoreManager K) (actionId : ClientActionId) :
    (s.receiveUndoConfirm actionId).tournament = s.tournament := by
  unfold receiveUndoConfirm
  split
  · rfl
  · simp only
    split <;> rfl

end StoreManager

/-- The master with its flag.  `saved` is no field: the tournament last read, written or reset to. -/
structure MasterStoreManager (K : ActionModel T) where
  manager : StoreManager K
  dirty : Bool
  saved : T

/-- The calls of the user and of the network interface. -/
inductive MasterCall (K : ActionModel T) where
  | dispatch (draws : List ℕ) (action : K.Param)
  | undo
  | undoAction (actionId : ClientActionId)
  | redo (draws : List ℕ)
  | receiveAction (actionId : ClientActionId) (action : K.Param)
  | receiveActionConfirm (actionId : ClientActionId)
  | receiveUndo (actionId : ClientActionId)
  | receiveUndoConfirm (actionId : ClientActionId)
  | confirmSync
  /-- The tournament in the file, or none if it cannot be read. -/
  | read (tournament : Option T)
  | write (success : Bool)
  | resetTournament (tournament : T)

namespace MasterStoreManager

variable (m : MasterStoreManager K)

/-- The master after its constructor. -/
def init (K : ActionModel T) (id : ℕ) (tournament : T) : MasterStoreManager K :=
  ⟨.init K id tournament, false, tournament⟩

/-- `MasterStoreManager::dispatch` -/
def dispatch (draws : List ℕ) (action : K.Param) : Option (MasterStoreManager K) :=
  (m.manager.dispatch draws action).map fun s => { m with manager := s, dirty := true }

/-- `MasterStoreManager::undo` -/
def undo : Option (MasterStoreManager K) := do
  let actionId ← m.manager.undoActionId
  let s ← m.manager.undo actionId
  return { m with manager := s, dirty := true }

/-- `MasterStoreManager::redo` -/
def redo (draws : List ℕ) : Option (MasterStoreManager K) :=
  (m.manager.redo draws).map fun s => { m with manager := s, dirty := true }

/-- A call of `StoreManager` that is not overridden. -/
def inherited (s : Option (StoreManager K)) : Option (MasterStoreManager K) :=
  s.map fun s => { m with manager := s }

/-- The part that `read` and `resetTournament` share. -/
def replace (tournament : T) : MasterStoreManager K :=
  ⟨m.manager.sync tournament, false, tournament⟩

/-- `MasterStoreManager::read` -/
def read : Option T → MasterStoreManager K
  | some tournament => m.replace tournament
  | none => m

/-- `MasterStoreManager::write` -/
def write (success : Bool) : MasterStoreManager K :=
  if success then { m with dirty := false, saved := m.manager.tournament } else m

/-- One call. -/
def step : MasterCall K → Option (MasterStoreManager K)
  | .dispatch draws action => m.dispatch draws action
  | .undo => m.undo
  | .undoAction actionId => m.inherited (m.manager.undo actionId)
  | .redo draws => m.redo draws
  | .receiveAction actionId action => m.inherited (m.manager.receiveAction actionId action)
  | .receiveActionConfirm actionId => m.inherited (m.manager.receiveActionConfirm actionId)
  | .receiveUndo actionId => m.inherited (m.manager.receiveUndo actionId)
  | .receiveUndoConfirm actionId => m.inherited (some (m.manager.receiveUndoConfirm actionId))
  | .confirmSync => m.inherited (some m.manager.confirmSync)
  | .read tournament => some (m.read tournament)
  | .write success => some (m.write success)
  | .resetTournament tournament => some (m.replace tournament)

/-- The calls that change the tournament without a note come when the flag is set already, or are
ignored. -/
def Noted : MasterCall K → Prop
  | .undoAction actionId => m.dirty = true ∨
    (m.manager.containsConfirmedAction actionId = false ∧
      m.manager.containsUnconfirmedAction actionId = false)
  | .receiveAction _ _ | .receiveUndo _ => m.dirty = true ∨ 0 < m.manager.syncing
  | _ => True

instance : (call : MasterCall K) → Decidable (m.Noted call)
  | .undoAction _ => inferInstanceAs (Decidable (_ ∨ _ ∧ _))
  | .receiveAction _ _ => inferInstanceAs (Decidable (_ ∨ _))
  | .receiveUndo _ => inferInstanceAs (Decidable (_ ∨ _))
  | .dispatch _ _ | .undo | .redo _ | .receiveActionConfirm _ | .receiveUndoConfirm _ | .confirmSync
  | .read _ | .write _ | .resetTournament _ => inferInstanceAs (Decidable True)

/-- The tournament is the saved one unless the flag is set. -/
def FlagSound : Prop := m.dirty = false → m.manager.tournament = m.saved

variable {m} {m' : MasterStoreManager K}

theorem flagSound_of_dirty (h : m.dirty = true) : m.FlagSound := by
  intro hclean
  rw [h] at hclean
  cases hclean

/-- An inherited call that leaves the tournament, or that is made when the flag is set. -/
theorem flagSound_inherited {s : Option (StoreManager K)} (h : m.FlagSound)
    (hstep : m.inherited s = some m')
    (hs : ∀ s', s = some s' → m.dirty = true ∨ s'.tournament = m.manager.tournament) :
    m'.FlagSound := by
  obtain ⟨s', hs', rfl⟩ := Option.map_eq_some_iff.1 hstep
  obtain hdirty | hsame := hs s' hs'
  · exact flagSound_of_dirty hdirty
  · intro hclean
    exact hsame.trans (h hclean)

theorem flagSound_step {call : MasterCall K} (h : m.FlagSound) (hnoted : m.Noted call)
    (hstep : m.step call = some m') : m'.FlagSound := by
  cases call with
  | dispatch draws action =>
    obtain ⟨s', -, rfl⟩ := Option.map_eq_some_iff.1 hstep
    exact flagSound_of_dirty rfl
  | undo =>
    obtain ⟨k, -, hstep⟩ := Option.bind_eq_some_iff.1 hstep
    obtain ⟨s', -, hstep⟩ := Option.bind_eq_some_iff.1 hstep
    cases hstep
    exact flagSound_of_dirty rfl
  | redo draws =>
    obtain ⟨s', -, rfl⟩ := Option.map_eq_some_iff.1 hstep
    exact flagSound_of_dirty rfl
  | undoAction k =>
    refine flagSound_inherited h hstep fun s' hs' => hnoted.imp_right fun hnone => ?_
    simp only [StoreManager.undo, hnone.1, hnone.2, Bool.not_false, Bool.and_self, if_true,
      Option.some.injEq] at hs'
    rw [← hs']
  | receiveAction k action =>
    refine flagSound_inherited h hstep fun s' hs' => hnoted.imp_right fun hsyncing => ?_
    simp only [StoreManager.receiveAction, gt_iff_lt, hsyncing, if_true, Option.some.injEq] at hs'
    rw [← hs']
  | receiveUndo k =>
    refine flagSound_inherited h hstep fun s' hs' => hnoted.imp_right fun hsyncing => ?_
    simp only [StoreManager.receiveUndo, gt_iff_lt, hsyncing, if_true, Option.some.injEq] at hs'
    rw [← hs']
  | receiveActionConfirm k =>
    exact flagSound_inherited h hstep fun s' hs' =>
      .inr (StoreManager.tournament_receiveActionConfirm hs')
  | receiveUndoConfirm k =>
    refine flagSound_inherited h hstep fun s' hs' => .inr ?_
    cases hs'
    exact m.manager.tournament_receiveUndoConfirm k
  | confirmSync =>
    refine flagSound_inherited h hstep fun s' hs' => .inr ?_
    cases hs'
    rfl
  | read tournament =>
    cases hstep
    cases tournament with
    | none => exact h
    | some t => exact fun _ => rfl
  | write success =>
    cases hstep
    cases success with
    | false => exact h
    | true => exact fun _ => rfl
  | resetTournament t =>
    cases hstep
    exact fun _ => rfl

/-- In every run in which the undos of chosen actions and the actions and undos of clients come when
the flag is set, or are ignored: if the flag is not set, the tournament is the one last read, written or
reset to. -/
theorem run_flagSound (id : ℕ) (tournament : T) (calls : List (MasterCall K)) (m : MasterStoreManager K)
    (hcalls : Runs.Guarded step Noted calls (init K id tournament))
    (hrun : Runs.run step calls (init K id tournament) = some m) (hclean : m.dirty = false) :
    m.manager.tournament = m.saved := by
  have hinit : (init K id tournament).FlagSound := fun _ => rfl
  have h : m.FlagSound := by
    refine Runs.run_inv ?_ hinit hcalls hrun
    intro m call m' h hnoted hstep
    exact flagSound_step h hnoted hstep
  exact h hclean

/-- A run with a file that is read, a local and a remote action, and a file that is written. -/
def localFirst : List (MasterCall scoreActions) :=
  [.read (some (10 : ℤ)), .confirmSync, .dispatch [0] (1 : ℤ), .receiveAction ⟨2, 0⟩ (4 : ℤ), .write true]

theorem run_flagSound_localFirst : ∃ m, Runs.run step localFirst (init scoreActions 1 (0 : ℤ)) = some m ∧
    m.dirty = false ∧ m.manager.tournament = m.saved :=
  ⟨_, rfl, rfl, run_flagSound 1 (0 : ℤ) localFirst _ (by decide) rfl rfl⟩

/-- A client's action on a tournament that was read from a file. -/
def remoteOnly : List (MasterCall scoreActions) :=
  [.read (some (10 : ℤ)), .confirmSync, .receiveAction ⟨2, 0⟩ (4 : ℤ)]

theorem run_flagSound_remoteOnly : ∃ m, Runs.run step remoteOnly (init scoreActions 1 (0 : ℤ)) = some m ∧
    m.dirty = false ∧ m.manager.tournament ≠ m.saved := by
  refine ⟨_, rfl, rfl, ?_⟩
  decide

end MasterStoreManager

end JudoAssistant
