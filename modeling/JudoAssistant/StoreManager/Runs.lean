import JudoAssistant.Lib.Run
import JudoAssistant.StoreManager.Replay

/-!
# Runs of the store manager

A store manager that is not syncing takes calls of the user (`dispatch`, `undo`) and signals of the
network interface in any order.  The run carries, beside the store manager, the tournament of the
last synchronisation and the actions that `popActionListFront` has taken off the confirmed list
since.  After every run the tournament held is the synced tournament followed by the trimmed
actions and by the listed ones that are not undone.
-/

namespace JudoAssistant

open Undoable

variable {T : Type} {K : ActionModel T}

/-- A store manager with the history of its base tournament. -/
structure Traced (K : ActionModel T) where
  manager : StoreManager K
  synced : T
  trimmed : List K.Param

/-- The calls and signals that a store manager takes.  A sync carries the tournament and the actions
of a `SYNC` message and the actions that `NetworkClient` had kept as unconfirmed. -/
inductive Call (K : ActionModel T) where
  | dispatch (draws : List ℕ) (action : K.Param)
  | undo (actionId : ClientActionId)
  | receiveAction (actionId : ClientActionId) (action : K.Param)
  | receiveActionConfirm (actionId : ClientActionId)
  | receiveUndo (actionId : ClientActionId)
  | receiveUndoConfirm (actionId : ClientActionId)
  | receiveSync (tournament : T) (actions kept : List (ClientActionId × K.Param))

/-- The parameters of a log. -/
def params (l : ActionList K) : List K.Param := l.map fun e => e.obj.param

namespace Traced

/-- The actions missing at the front of the confirmed list after a push. -/
def trimmedBy (pushed : List K.Param) (s' : StoreManager K) : List K.Param :=
  pushed.take (pushed.length - s'.confirmedActionList.length)

/-- One call. -/
def step (tr : Traced K) : Call K → Option (Traced K)
  | .dispatch draws p => (tr.manager.dispatch draws p).map fun s => { tr with manager := s }
  | .undo k => (tr.manager.undo k).map fun s => { tr with manager := s }
  | .receiveAction k p => (tr.manager.receiveAction k p).map fun s => { tr with
      manager := s
      trimmed := tr.trimmed ++ trimmedBy (params tr.manager.confirmedActionList ++ [p]) s }
  | .receiveActionConfirm k => (tr.manager.receiveActionConfirm k).map fun s => { tr with
      manager := s
      trimmed := tr.trimmed ++ trimmedBy (params tr.manager.confirmedActionList ++
        params (tr.manager.unconfirmedActionList.take 1)) s }
  | .receiveUndo k => (tr.manager.receiveUndo k).map fun s => { tr with manager := s }
  | .receiveUndoConfirm k => some { tr with manager := tr.manager.receiveUndoConfirm k }
  | .receiveSync t actions kept =>
    (tr.manager.receiveSync (.build K t actions (stillUnconfirmed actions kept))).map fun s =>
      ⟨s, t, []⟩

end Traced

/-- When the environment makes a call. -/
def Allowed (s : StoreManager K) : Call K → Prop
  -- the drawing loop ends
  | .dispatch draws _ => (s.drawActionId draws).isSome
  | .undo k => k ∈ s.listed ∧ k ∉ s.unconfirmedUndos
  | .receiveAction k _ => k ∉ s.listed
  | .receiveActionConfirm k => (keys s.unconfirmedActionList).head? = some k
  | .receiveUndo k => k ∈ keys s.confirmedActionList
  | .receiveUndoConfirm k =>
    k ∈ s.unconfirmedUndos ∧ k ∈ keys s.confirmedActionList ∨ k ∉ s.listed
  -- ids are unique in a `SYNC` message and in the list of `NetworkClient`, which holds local actions
  | .receiveSync _ actions kept =>
    (actions.map Prod.fst).Nodup ∧ (kept.map Prod.fst).Nodup ∧ ∀ a ∈ kept, a.1.clientId = s.id

instance (s : StoreManager K) : (call : Call K) → Decidable (Allowed s call)
  | .dispatch draws _ => inferInstanceAs (Decidable ((s.drawActionId draws).isSome = true))
  | .undo k => inferInstanceAs (Decidable (k ∈ s.listed ∧ k ∉ s.unconfirmedUndos))
  | .receiveAction k _ => inferInstanceAs (Decidable (k ∉ s.listed))
  | .receiveActionConfirm k =>
    inferInstanceAs (Decidable ((keys s.unconfirmedActionList).head? = some k))
  | .receiveUndo k => inferInstanceAs (Decidable (k ∈ keys s.confirmedActionList))
  | .receiveUndoConfirm k => inferInstanceAs (Decidable
      (k ∈ s.unconfirmedUndos ∧ k ∈ keys s.confirmedActionList ∨ k ∉ s.listed))
  | .receiveSync _ actions kept => inferInstanceAs (Decidable
      ((actions.map Prod.fst).Nodup ∧ (kept.map Prod.fst).Nodup ∧ ∀ a ∈ kept, a.1.clientId = s.id))

/-- The ids of a payload are unique if those of its two sources are. -/
theorem nodup_stillUnconfirmed {P : Type} {actions kept : List (ClientActionId × P)}
    (hn : (actions.map Prod.fst).Nodup) (hnk : (kept.map Prod.fst).Nodup) :
    (actions.map Prod.fst ++ (stillUnconfirmed actions kept).map Prod.fst).Nodup := by
  refine List.nodup_append.2 ⟨hn, ((List.filter_sublist).map _).nodup hnk, ?_⟩
  rintro k hk k' hk' rfl
  obtain ⟨a, ha, rfl⟩ := List.mem_map.1 hk'
  exact of_decide_eq_true (List.mem_filter.1 ha).2 hk

/-- A store manager without actions that is not syncing, as it is when it is built and after a
confirmed `sync`. -/
structure Blank (s : StoreManager K) : Prop where
  confirmed : s.confirmedActionList = []
  confirmedMap : s.confirmedActionMap = fun _ => none
  unconfirmed : s.unconfirmedActionList = []
  unconfirmedMap : s.unconfirmedActionMap = fun _ => none
  undos : s.unconfirmedUndos = ∅
  undone : s.undoneUnconfirmedActions = 0
  not_syncing : s.syncing = 0

theorem blank_init (id : ℕ) (t : T) : Blank (StoreManager.init K id t) :=
  ⟨rfl, rfl, rfl, rfl, rfl, rfl, rfl⟩

/-- The state of a traced store manager between calls. -/
structure Traced.Inv (tr : Traced K) : Prop where
  replay : tr.manager.ReplayInv (K.effects tr.trimmed tr.synced)
  not_syncing : tr.manager.syncing = 0

/-- Actions that add a number to a score. -/
def scoreActions : ActionModel ℤ where
  Param := ℤ
  Memo := Unit
  init := ()
  redo p _ t := ((), t + p)
  undo p _ t := ((), t - p)
  tournamentId _ := 0

theorem scoreActions_lawful : scoreActions.toOps.Lawful where
  redo_memo _ _ _ _ := rfl
  undo_redo p _ t := Int.add_sub_cancel t p

namespace Traced

variable {tr : Traced K}

theorem inv_of_blank {s : StoreManager K} (h : Blank s) : Inv ⟨s, s.tournament, []⟩ where
  replay := {
    chain _ := by simp [h.confirmed, h.unconfirmed]
    marked := by simp [Marked, h.confirmed, h.unconfirmed]
    books := by
      rw [h.confirmed, h.confirmedMap, h.unconfirmed, h.unconfirmedMap, h.undos, h.undone]
      exact {
        nodup := List.nodup_nil
        undos := by simp
        count_eq := rfl
        confirmedIndex := indexed_nil
        unconfirmedIndex := indexed_nil
        nodes_nodup := List.nodup_nil
        nodes_lt := by simp } }
  not_syncing := h.not_syncing

/-- What a push moves into the base is what is missing at the front of the log. -/
theorem base_push (undos : Finset ClientActionId) (v : View K) (a : ClientActionId × K.Param) :
    (v.push undos a).base = K.effects (((v.log ++ [a]).map Prod.snd).take
      ((v.log ++ [a]).length - (v.push undos a).log.length)) v.base := by
  simp only [View.push, View.trim]
  split
  · cases hl : v.log ++ [a] with
    | nil => simp
    | cons b l =>
      by_cases hb : b.1 ∈ undos
      · simp [hb]
      · simp [hb]
  · simp

theorem inv_pushed {s' : StoreManager K} {k : ClientActionId} {p : K.Param}
    {rest : List (ClientActionId × K.Param)} {undos : Finset ClientActionId}
    {posted : List (Post K)} (h : tr.Inv)
    (ho : StoreManager.Outcome tr.manager s'
      (tr.manager.pushed (K.effects tr.trimmed tr.synced) (k, p)).base
      ⟨(tr.manager.pushed (K.effects tr.trimmed tr.synced) (k, p)).log, rest, undos⟩ posted) :
    Inv ⟨s', tr.synced,
      tr.trimmed ++ trimmedBy (params tr.manager.confirmedActionList ++ [p]) s'⟩ := by
  have hlen : s'.confirmedActionList.length =
      (tr.manager.pushed (K.effects tr.trimmed tr.synced) (k, p)).log.length := by
    have := congrArg (fun l => l.log.length) ho.ledger_eq
    simpa [StoreManager.ledger, items] using this
  refine ⟨?_, ho.syncing_eq.trans h.not_syncing⟩
  rw [Ops.effects_append]
  have hbase := base_push tr.manager.unconfirmedUndos
    (tr.manager.view (K.effects tr.trimmed tr.synced)) (k, p)
  have hpar : ((tr.manager.view (K.effects tr.trimmed tr.synced)).log ++ [(k, p)]).map Prod.snd =
      params tr.manager.confirmedActionList ++ [p] := by
    simp [StoreManager.view, items, params, Function.comp_def]
  have hlen' : ((tr.manager.view (K.effects tr.trimmed tr.synced)).log ++ [(k, p)]).length =
      (params tr.manager.confirmedActionList ++ [p]).length := by
    rw [← hpar, List.length_map]
  rw [hpar, hlen'] at hbase
  rw [trimmedBy, hlen]
  exact hbase ▸ ho.inv

/-- Every allowed call succeeds and keeps the invariant. -/
theorem step_inv (h : tr.Inv) {call : Call K}
    (ha : Allowed tr.manager call) : ∃ tr', tr.step call = some tr' ∧ tr'.Inv := by
  have keep : ∀ {s' ledger posted}, StoreManager.Outcome tr.manager s'
      (K.effects tr.trimmed tr.synced) ledger posted → Inv { tr with manager := s' } :=
    fun ho => ⟨ho.inv, ho.syncing_eq.trans h.not_syncing⟩
  cases call with
  | dispatch draws p =>
    obtain ⟨k, hk⟩ := Option.isSome_iff_exists.1 ha
    obtain ⟨s', hs', ho⟩ := StoreManager.dispatch_spec h.replay hk p
    exact ⟨_, by simp only [step, hs']; rfl, keep ho⟩
  | undo k =>
    obtain ⟨s', hs', ho⟩ := StoreManager.undo_spec h.replay ha.1 ha.2
    exact ⟨_, by simp only [step, hs']; rfl, keep ho⟩
  | receiveAction k p =>
    obtain ⟨s', hs', ho⟩ := StoreManager.receiveAction_spec h.replay h.not_syncing ha p
    exact ⟨_, by simp only [step, hs']; rfl, inv_pushed h ho⟩
  | receiveActionConfirm k =>
    cases hU : tr.manager.unconfirmedActionList with
    | nil => simp [Allowed, hU] at ha
    | cons front rest =>
      have hk : front.key = k := by simpa [Allowed, hU] using ha
      subst hk
      have hfront : tr.manager.ledger.pending = (front.key, front.obj.param) :: items rest := by
        simp [StoreManager.ledger, hU]
      obtain ⟨s', hs', ho⟩ :=
        StoreManager.receiveActionConfirm_spec h.replay h.not_syncing hfront
      exact ⟨_, by simp only [step, hs', hU]; rfl, inv_pushed h ho⟩
  | receiveUndo k =>
    obtain ⟨s', hs', ho⟩ := StoreManager.receiveUndo_spec h.replay h.not_syncing ha
    exact ⟨_, by simp only [step, hs']; rfl, keep ho⟩
  | receiveUndoConfirm k =>
    exact ⟨_, rfl, keep (StoreManager.receiveUndoConfirm_spec h.replay h.not_syncing ha)⟩
  | receiveSync t actions kept =>
    obtain ⟨hn, hnk, hown⟩ := ha
    obtain ⟨s', hs', ho⟩ := StoreManager.receiveSync_spec tr.manager (t := t)
      (nodup_stillUnconfirmed hn hnk)
      fun a ha => hown a (List.mem_filter.1 ha).1
    exact ⟨⟨s', t, []⟩, by simp only [step, hs']; rfl, ho.inv,
      ho.syncing_eq.trans h.not_syncing⟩

/-- The replay invariant.  Every run of allowed calls from a blank store manager succeeds.  At its
end the tournament is the synced one followed by the trimmed actions and by the listed actions that
are not undone; the listed actions that are not undone are the done ones; the counter counts the
undone unconfirmed actions; and the maps name exactly the entries of the lists. -/
theorem run_replays (hK : K.toOps.Lawful) {s : StoreManager K} (hs : Blank s)
    (calls : List (Call K))
    (hc : Runs.Guarded step (fun tr => Allowed tr.manager) calls ⟨s, s.tournament, []⟩) :
    ∃ tr, Runs.run step calls ⟨s, s.tournament, []⟩ = some tr ∧
      tr.manager.tournament = K.effects (params
        ((tr.manager.confirmedActionList ++ tr.manager.unconfirmedActionList).filter fun e =>
          decide (e.key ∉ tr.manager.unconfirmedUndos))) (K.effects tr.trimmed tr.synced) ∧
      (∀ e ∈ tr.manager.confirmedActionList ++ tr.manager.unconfirmedActionList,
        e.obj.done = true ↔ e.key ∉ tr.manager.unconfirmedUndos) ∧
      tr.manager.undoneUnconfirmedActions =
        (tr.manager.unconfirmedActionList.filter fun e =>
          decide (e.key ∈ tr.manager.unconfirmedUndos)).length ∧
      Indexed tr.manager.confirmedActionMap tr.manager.confirmedActionList ∧
      Indexed tr.manager.unconfirmedActionMap tr.manager.unconfirmedActionList := by
  obtain ⟨tr, hrun, hinv⟩ := Runs.run_total (fun _ _ h ha => step_inv h ha) (inv_of_blank hs) hc
  refine ⟨tr, hrun, hinv.replay.tournament_eq hK, hinv.replay.marked, ?_,
    hinv.replay.books.confirmedIndex, hinv.replay.books.unconfirmedIndex⟩
  rw [hinv.replay.books.count_eq, undoneIn, keys, List.countP_map, List.countP_eq_length_filter]
  rfl

/-- A run with each of the seven calls, in which an unconfirmed action is undone, confirmed while
undone, and erased by the confirmation of its undo. -/
def mixedCalls : List (Call scoreActions) :=
  [.receiveSync (10 : ℤ) [(⟨7, 5⟩, (1 : ℤ))] [(⟨7, 5⟩, (1 : ℤ)), (⟨7, 0⟩, (2 : ℤ))],
    .dispatch [0, 1] (4 : ℤ), .undo ⟨7, 0⟩, .receiveAction ⟨2, 0⟩ (8 : ℤ),
    .receiveActionConfirm ⟨7, 0⟩, .receiveUndo ⟨7, 5⟩, .receiveUndoConfirm ⟨7, 0⟩]

theorem run_replays_mixedCalls :
    ∃ tr, Runs.run step mixedCalls ⟨StoreManager.init scoreActions 7 (0 : ℤ), (0 : ℤ), []⟩ =
        some tr ∧
      tr.manager.tournament = scoreActions.effects (params
        ((tr.manager.confirmedActionList ++ tr.manager.unconfirmedActionList).filter fun e =>
          decide (e.key ∉ tr.manager.unconfirmedUndos)))
        (scoreActions.effects tr.trimmed tr.synced) :=
  have h := run_replays scoreActions_lawful (blank_init 7 (0 : ℤ)) mixedCalls (by decide)
  h.imp fun _ h => ⟨h.1, h.2.1⟩

end Traced

end JudoAssistant
