import JudoAssistant.Network.Model

/-!
# What the operations of the store manager leave alone

The slots of the store manager post nothing to the network thread; `dispatch`, `undo` and `sync` post
one call each.  These facts hold in every state, also in one that no run reaches.
-/

namespace JudoAssistant

open Undoable

variable {T : Type} {K : ActionModel T}

namespace StoreManager

variable {s s' : StoreManager K}

/-- The id of the store manager, its posted calls and its pending syncs are those of another state. -/
structure SameFrame (s s' : StoreManager K) : Prop where
  id_eq : s'.id = s.id
  posted_eq : s'.posted = s.posted
  syncing_eq : s'.syncing = s.syncing

theorem dispatch_posted {draws : List ℕ} {p : K.Param} (h : s.dispatch draws p = some s') :
    ∃ k, s.drawActionId draws = some k ∧ k.clientId = s.id ∧ s'.id = s.id ∧
      s'.posted = s.posted ++ [.postAction k p] := by
  obtain ⟨k, hk, h⟩ := Option.bind_eq_some_iff.1 h
  obtain ⟨done, -, h⟩ := Option.bind_eq_some_iff.1 h
  obtain ⟨a, -, ha⟩ := List.mem_map.1 (List.mem_of_find?_eq_some hk)
  refine ⟨k, hk, by rw [← ha], ?_⟩
  simp only [Option.pure_def, Option.some.injEq] at h
  subst h
  split <;> exact ⟨rfl, rfl⟩

theorem undo_posted {k : ClientActionId} (h : s.undo k = some s') :
    s'.id = s.id ∧ (s'.posted = s.posted ∨ s'.posted = s.posted ++ [.postUndo k]) := by
  unfold undo at h
  split at h
  · cases h
    exact ⟨rfl, .inl rfl⟩
  · obtain ⟨c, -, h⟩ := Option.bind_eq_some_iff.1 h
    obtain ⟨q, -, h⟩ := Option.bind_eq_some_iff.1 h
    obtain ⟨clone, -, h⟩ := Option.bind_eq_some_iff.1 h
    simp only [Option.pure_def, Option.some.injEq] at h
    subst h
    split_ifs <;> exact ⟨rfl, .inr rfl⟩

theorem trim_frame (h : s.trim = some s') : SameFrame s s' := by
  unfold trim popActionListFront at h
  split_ifs at h
  · split at h
    · cases h
    · split_ifs at h <;> cases h <;> exact ⟨rfl, rfl, rfl⟩
  · cases h
    exact ⟨rfl, rfl, rfl⟩

theorem receiveAction_frame {k : ClientActionId} {p : K.Param}
    (h : s.receiveAction k p = some s') : SameFrame s s' := by
  unfold receiveAction at h
  split at h
  · cases h
    exact ⟨rfl, rfl, rfl⟩
  · obtain ⟨done, -, h⟩ := Option.bind_eq_some_iff.1 h
    obtain ⟨s₁, hs₁, h⟩ := Option.bind_eq_some_iff.1 h
    obtain ⟨q, -, h⟩ := Option.bind_eq_some_iff.1 h
    cases h
    obtain ⟨hi, hp, hsy⟩ := trim_frame hs₁
    exact ⟨hi, hp, hsy⟩

theorem receiveActionConfirm_frame {k : ClientActionId}
    (h : s.receiveActionConfirm k = some s') : SameFrame s s' := by
  unfold receiveActionConfirm at h
  split at h
  · cases h
    exact ⟨rfl, rfl, rfl⟩
  · split at h
    · cases h
    · split at h
      · cases h
      · split at h
        · cases h
        · obtain ⟨hi, hp, hsy⟩ := trim_frame h
          exact ⟨hi, hp, hsy⟩

theorem receiveUndo_frame {k : ClientActionId} (h : s.receiveUndo k = some s') :
    SameFrame s s' := by
  unfold receiveUndo at h
  split at h
  · cases h
    exact ⟨rfl, rfl, rfl⟩
  · split at h
    · cases h
    · obtain ⟨⟨below, target, above⟩, -, h⟩ := Option.bind_eq_some_iff.1 h
      simp only at h
      split at h
      · cases h
      · obtain ⟨q, -, h⟩ := Option.bind_eq_some_iff.1 h
        obtain ⟨q', -, h⟩ := Option.bind_eq_some_iff.1 h
        cases h
        split
        · split <;> exact ⟨rfl, rfl, rfl⟩
        · exact ⟨rfl, rfl, rfl⟩

theorem receiveUndoConfirm_frame (s : StoreManager K) (k : ClientActionId) :
    SameFrame s (s.receiveUndoConfirm k) := by
  unfold receiveUndoConfirm
  split
  · exact ⟨rfl, rfl, rfl⟩
  · split <;> exact ⟨rfl, rfl, rfl⟩

theorem receiveSync_frame {payload : SyncPayload K} (h : s.receiveSync payload = some s') :
    SameFrame s s' := by
  unfold receiveSync at h
  simp only at h
  split at h
  · cases h
  · cases h
    exact ⟨rfl, rfl, rfl⟩

/-- A slot leaves the id and the posted calls alone. -/
theorem receive_posted {signal : Signal K} (h : s.receive signal = some s') :
    s'.id = s.id ∧ s'.posted = s.posted := by
  cases signal with
  | actionReceived k p => exact ⟨(receiveAction_frame h).id_eq, (receiveAction_frame h).posted_eq⟩
  | actionConfirmReceived k =>
    exact ⟨(receiveActionConfirm_frame h).id_eq, (receiveActionConfirm_frame h).posted_eq⟩
  | undoReceived k => exact ⟨(receiveUndo_frame h).id_eq, (receiveUndo_frame h).posted_eq⟩
  | undoConfirmReceived k =>
    cases h
    exact ⟨(receiveUndoConfirm_frame s k).id_eq, (receiveUndoConfirm_frame s k).posted_eq⟩
  | syncReceived t actions unconfirmed =>
    exact ⟨(receiveSync_frame h).id_eq, (receiveSync_frame h).posted_eq⟩
  | syncConfirmed =>
    cases h
    exact ⟨rfl, rfl⟩

end StoreManager

end JudoAssistant
