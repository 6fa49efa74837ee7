import JudoAssistant.Lib.Roll
import JudoAssistant.Lib.Run
import JudoAssistant.Network.InFlight

/-!
# The ids that a client lists

A client undoes nothing by itself, so all actions in the lists of its store manager are done
(`StoreManager.Plain`).  What a signal does to the ids of such a store manager splits into two parts:
`receiveRoll` is about the confirmed list and its map, `receivePending` about the unconfirmed list.
Nothing is assumed about the ids; an id may be listed twice.
-/

namespace JudoAssistant

open Undoable

variable {T : Type} {K : ActionModel T}

/-- What a signal does to the confirmed ids; `none` if it undoes an action that is not there. -/
def receiveRoll (r : Roll ClientActionId) : Signal K → Option (Roll ClientActionId)
  | .actionReceived k _ => some (r.push maxActionStackSize k)
  | .actionConfirmReceived k => some (r.push maxActionStackSize k)
  | .undoReceived k => if r.mapped k = true ∧ k ∈ r.ids then some (r.erase k) else none
  | .syncReceived _ actions _ => some (.ofList (actions.map Prod.fst))
  | .undoConfirmReceived _ => none
  | .syncConfirmed => none

/-- What a signal does to the unconfirmed ids of the client `id`; `none` if it confirms anything but
the first one or brings ids that are not distinct ones of the client. -/
def receivePending (id : ℕ) (pending : List ClientActionId) : Signal K → Option (List ClientActionId)
  | .actionConfirmReceived k => if pending.head? = some k then some pending.tail else none
  | .syncReceived _ _ unconfirmed =>
    if (∀ a ∈ unconfirmed, a.1.clientId = id) ∧ (unconfirmed.map Prod.fst).Nodup then
      some (unconfirmed.map Prod.fst)
    else none
  | _ => some pending

namespace StoreManager

/-- The confirmed ids. -/
def roll (s : StoreManager K) : Roll ClientActionId :=
  ⟨keys s.confirmedActionList, fun k => (s.confirmedActionMap k).isSome⟩

/-- The unconfirmed ids. -/
def pendingIds (s : StoreManager K) : List ClientActionId := keys s.unconfirmedActionList

/-- Nothing is undone, no sync of the local user is under way, and the map names the unconfirmed ids. -/
structure Plain (s : StoreManager K) : Prop where
  syncing : s.syncing = 0
  undos : s.unconfirmedUndos = ∅
  confirmed : ∀ e ∈ s.confirmedActionList, e.obj.done = true
  unconfirmed : ∀ e ∈ s.unconfirmedActionList, e.obj.done = true
  nodup : s.pendingIds.Nodup
  indexed : ∀ k ∈ s.pendingIds, s.containsUnconfirmedAction k = true

variable {s s' : StoreManager K}

/-- A plain store manager with the given unconfirmed ids. -/
theorem plain_of {ids : List ClientActionId} (hs : s.syncing = 0) (hu : s.unconfirmedUndos = ∅)
    (hC : ∀ e ∈ s.confirmedActionList, e.obj.done = true)
    (hU : ∀ e ∈ s.unconfirmedActionList, e.obj.done = true) (hids : s.pendingIds = ids)
    (hn : ids.Nodup) (hi : ∀ k ∈ ids, (s.unconfirmedActionMap k).isSome = true) : s.Plain := by
  subst hids
  exact ⟨hs, hu, hC, hU, hn, hi⟩

theorem plain_init (id : ℕ) (t : T) : (init K id t).Plain := by
  refine ⟨rfl, rfl, ?_, ?_, ?_, ?_⟩ <;> simp [init, pendingIds]

theorem done_of_marked {l : ActionList K} (h : Marked (∅ : Finset ClientActionId) l) :
    ∀ e ∈ l, e.obj.done = true := fun e he => (h e he).2 (Finset.notMem_empty _)

/-- `trim` on a list of done actions. -/
theorem trim_plain (h : ∀ e ∈ s.confirmedActionList, e.obj.done = true) :
    ∃ C m undoId em, s.trim = some { s with
        confirmedActionList := C
        confirmedActionMap := m
        undoActionId := undoId
        emitted := em } ∧
      (∀ e ∈ C, e.obj.done = true) ∧
      (⟨keys C, fun k => (m k).isSome⟩ : Roll ClientActionId) =
        s.roll.trim maxActionStackSize := by
  have hlen : (keys s.confirmedActionList).length = s.confirmedActionList.length := by simp [keys]
  by_cases hfull : s.confirmedActionList.length > maxActionStackSize
  · cases hl : s.confirmedActionList with
    | nil => simp [hl] at hfull
    | cons front rest =>
      rw [hl] at h
      have hd := h front (by simp)
      have hroll : (⟨keys rest,
          fun k => (Function.update s.confirmedActionMap front.key none k).isSome⟩ :
            Roll ClientActionId) = s.roll.trim maxActionStackSize := by
        rw [Table.isSome_update, Roll.trim, if_pos (by rwa [roll, hlen])]
        simp [roll, hl]
      refine ⟨rest, Function.update s.confirmedActionMap front.key none, ?_⟩
      simp only [trim, popActionListFront, if_true, hl, hd]
      rw [hl] at hfull
      simp only [hfull, if_true]
      split
      · exact ⟨_, _, rfl, fun e he => h e (by simp [he]), hroll⟩
      · exact ⟨_, _, rfl, fun e he => h e (by simp [he]), hroll⟩
  · refine ⟨s.confirmedActionList, s.confirmedActionMap, s.undoActionId, s.emitted, if_neg hfull,
      h, ?_⟩
    rw [Roll.trim, if_neg (by rwa [roll, hlen])]
    rfl

/-- The confirmed ids after an action has been appended to the confirmed list. -/
theorem roll_append (l : ActionList K) (m : ClientActionId → Option ℕ)
    (e : Entry ClientActionId K.toOps) (n : ℕ) :
    (⟨keys (l ++ [e]), fun k => (Function.update m e.key (some n) k).isSome⟩ :
      Roll ClientActionId) =
      ⟨keys l ++ [e.key], Function.update (fun k => (m k).isSome) e.key true⟩ := by
  rw [Table.isSome_update]
  simp

theorem dispatch_plain (h : s.Plain) {draws : List ℕ} {p : K.Param}
    (hd : s.dispatch draws p = some s') {k : ClientActionId} (hk : s.drawActionId draws = some k) :
    s'.Plain ∧ s'.roll = s.roll ∧ s'.pendingIds = s.pendingIds ++ [k] := by
  simp only [dispatch, hk, Obj.redo_of_not_done (Obj.fresh_done p), Option.bind_eq_bind,
    Option.bind_some, Option.pure_def, Option.some.injEq] at hd
  have hnew := List.find?_some hk
  simp only [Bool.and_eq_true, Bool.not_eq_true'] at hnew
  have hnd : (s.pendingIds ++ [k]).Nodup := by
    refine List.nodup_append.2 ⟨h.nodup, List.nodup_singleton _, ?_⟩
    rintro a ha b hb rfl
    rw [List.mem_singleton.1 hb] at ha
    simp [h.indexed k ha] at hnew
  have hindex : ∀ k' ∈ s.pendingIds ++ [k],
      (Function.update s.unconfirmedActionMap k (some s.nextNode) k').isSome = true := by
    intro k' hk'
    by_cases hkk : k' = k
    · simp [hkk]
    · have := h.indexed k' (by simpa [hkk] using hk')
      simpa [hkk, containsUnconfirmedAction] using this
  have hdone : ∀ e ∈ s.unconfirmedActionList ++ [newEntry s.nextNode k
      ⟨p, (K.redo p K.init s.tournament).1, true⟩], e.obj.done = true := by
    intro e he
    rcases List.mem_append.1 he with he | he
    · exact h.unconfirmed e he
    · rw [List.mem_singleton.1 he]
      rfl
  have hids : keys (s.unconfirmedActionList ++ [newEntry s.nextNode k
      ⟨p, (K.redo p K.init s.tournament).1, true⟩]) = s.pendingIds ++ [k] := by
    simp [pendingIds, newEntry]
  subst hd
  split
  · exact ⟨plain_of h.syncing h.undos h.confirmed hdone hids hnd hindex, rfl, hids⟩
  · exact ⟨plain_of h.syncing h.undos h.confirmed hdone hids hnd hindex, rfl, hids⟩

theorem receiveAction_plain (h : s.Plain) (k : ClientActionId) (p : K.Param) :
    ∃ s', s.receiveAction k p = some s' ∧ s'.Plain ∧
      s'.roll = s.roll.push maxActionStackSize k ∧ s'.pendingIds = s.pendingIds := by
  have hsy : ¬ s.syncing > 0 := by
    rw [h.syncing]
    omega
  let r := rewind s.unconfirmedActionList s.tournament
  let e : Entry ClientActionId K.toOps := newEntry s.nextNode k ⟨p, (K.redo p K.init r.2).1, true⟩
  let s₁ : StoreManager K := { s.emit (.actionAboutToBeAdded k (s.confirmedActionList.length -
      (s.unconfirmedUndos.card - s.undoneUnconfirmedActions))) with
    tournament := (K.redo p K.init r.2).2
    unconfirmedActionList := r.1
    confirmedActionList := s.confirmedActionList ++ [e]
    confirmedActionMap := Function.update s.confirmedActionMap k (some s.nextNode)
    nextNode := s.nextNode + 1 }
  have hdone : ∀ e' ∈ s₁.confirmedActionList, e'.obj.done = true := by
    intro e' he'
    rcases List.mem_append.1 he' with he' | he'
    · exact h.confirmed e' he'
    · rw [List.mem_singleton.1 he']
      rfl
  obtain ⟨C, m, uid, em, htrim, hC, hroll⟩ := trim_plain hdone
  obtain ⟨U, t, hrep, hsig, -, hmark⟩ := replay_chain (∅ : Finset ClientActionId)
    (not_done_rewind s.unconfirmedActionList s.tournament) s₁.tournament
  have hrun : s.receiveAction k p = some ({ s₁ with
      confirmedActionList := C
      confirmedActionMap := m
      undoActionId := uid
      emitted := em
      unconfirmedActionList := U
      tournament := t }.emit (.actionAdded k (s.confirmedActionList.length -
        (s.unconfirmedUndos.card - s.undoneUnconfirmedActions)))) := by
    unfold receiveAction
    rw [if_neg hsy]
    simp only [Obj.redo_of_not_done (Obj.fresh_done p), Option.bind_eq_bind, Option.bind_some]
    change s₁.trim.bind _ = _
    rw [htrim, Option.bind_some]
    change (replay s.unconfirmedUndos r.1 s₁.tournament).bind _ = _
    rw [h.undos, hrep]
    rfl
  have hids : keys U = s.pendingIds := (keys_of_sigs hsig).trans (keys_of_sigs (sigs_rewind _ _))
  refine ⟨_, hrun, plain_of h.syncing h.undos hC (done_of_marked hmark) hids h.nodup h.indexed, ?_,
    hids⟩
  refine Eq.trans ?_ (hroll.trans ?_)
  · rfl
  · exact congrArg (Roll.trim maxActionStackSize)
      (roll_append s.confirmedActionList s.confirmedActionMap e s.nextNode)

theorem receiveActionConfirm_plain (h : s.Plain) {k : ClientActionId}
    (hk : s.pendingIds.head? = some k) :
    ∃ s', s.receiveActionConfirm k = some s' ∧ s'.Plain ∧
      s'.roll = s.roll.push maxActionStackSize k ∧ s'.pendingIds = s.pendingIds.tail := by
  have hsy : ¬ s.syncing > 0 := by
    rw [h.syncing]
    omega
  have hunconfirmed := h.unconfirmed
  cases hU : s.unconfirmedActionList with
  | nil => simp [pendingIds, hU] at hk
  | cons front rest =>
    rw [hU] at hunconfirmed
    obtain rfl : front.key = k := by simpa [pendingIds, hU] using hk
    have hd := hunconfirmed front (by simp)
    let s₁ : StoreManager K := { s with
      unconfirmedActionList := rest
      unconfirmedActionMap := Function.update s.unconfirmedActionMap front.key none
      undoneUnconfirmedActions := s.undoneUnconfirmedActions
      confirmedActionList := s.confirmedActionList ++ [{ front with node := s.nextNode }]
      confirmedActionMap := Function.update s.confirmedActionMap front.key (some s.nextNode)
      nextNode := s.nextNode + 1 }
    have hdone : ∀ e' ∈ s₁.confirmedActionList, e'.obj.done = true := by
      intro e' he'
      rcases List.mem_append.1 he' with he' | he'
      · exact h.confirmed e' he'
      · rw [List.mem_singleton.1 he']
        exact hd
    obtain ⟨C, m, uid, em, htrim, hC, hroll⟩ := trim_plain hdone
    have hrun : s.receiveActionConfirm front.key = s₁.trim := by
      simp [receiveActionConfirm, h.syncing, hU, hd, s₁]
    have hnd := h.nodup
    rw [pendingIds, hU, keys_cons, List.nodup_cons] at hnd
    have hindex : ∀ k ∈ keys rest,
        (Function.update s.unconfirmedActionMap front.key none k).isSome = true := by
      intro k hk
      have hne : k ≠ front.key := fun he => hnd.1 (he ▸ hk)
      have := h.indexed k (by simp [pendingIds, hU, hk])
      simpa [hne, containsUnconfirmedAction] using this
    refine ⟨_, hrun.trans htrim, plain_of h.syncing h.undos hC
      (fun e he => hunconfirmed e (List.mem_cons_of_mem _ he)) rfl hnd.2 hindex, ?_,
      by simp [pendingIds, hU, s₁]⟩
    refine hroll.trans ?_
    exact congrArg (Roll.trim maxActionStackSize)
      (roll_append s.confirmedActionList s.confirmedActionMap { front with node := s.nextNode }
        s.nextNode)

theorem receiveUndo_plain (h : s.Plain) {k : ClientActionId} (hk : s.roll.mapped k = true)
    (hids : k ∈ s.roll.ids) :
    ∃ s', s.receiveUndo k = some s' ∧ s'.Plain ∧ s'.roll = s.roll.erase k ∧
      s'.pendingIds = s.pendingIds := by
  have hsy : ¬ s.syncing > 0 := by
    rw [h.syncing]
    omega
  obtain ⟨below, target, above, hsplit, hC, hkey⟩ := exists_splitLast hids
  have hconf := h.confirmed
  rw [hC] at hconf
  have hd := hconf target (by simp)
  let r := rewind s.unconfirmedActionList s.tournament
  let r' := rewind above r.2
  obtain ⟨C, t, hrepC, hsigC, -, hmarkC⟩ := replay_chain (∅ : Finset ClientActionId)
    (not_done_rewind above r.2) (target.obj.unroll r'.2).2
  obtain ⟨U, t', hrepU, hsigU, -, hmarkU⟩ := replay_chain (∅ : Finset ClientActionId)
    (not_done_rewind s.unconfirmedActionList s.tournament) t
  have hrun : ∃ uid em, s.receiveUndo k = some { s with
      confirmedActionMap := Function.update s.confirmedActionMap k none
      unconfirmedUndos := ∅
      undoActionId := uid
      tournament := t'
      confirmedActionList := below ++ C
      unconfirmedActionList := U
      emitted := em } := by
    have hundos : s.unconfirmedUndos.erase k = ∅ := by rw [h.undos]; rfl
    have hne : ¬ target.obj.done = decide (k ∈ s.unconfirmedUndos) := by simp [hd, h.undos]
    unfold receiveUndo
    have hcontains : s.containsConfirmedAction k = true := hk
    rw [if_neg hsy, if_neg (by simp [hcontains])]
    simp only [hsplit, Option.bind_eq_bind, Option.bind_some, if_neg hne, hundos]
    rw [hrepC, Option.bind_some, hrepU, Option.bind_some]
    simp only [Option.pure_def, Option.some.injEq]
    split
    · split <;> exact ⟨_, _, rfl⟩
    · exact ⟨_, _, rfl⟩
  obtain ⟨uid, em, hrun⟩ := hrun
  have hids : keys U = s.pendingIds :=
    (keys_of_sigs hsigU).trans (keys_of_sigs (sigs_rewind _ _))
  refine ⟨_, hrun, plain_of h.syncing rfl ?_ (done_of_marked hmarkU) hids h.nodup h.indexed, ?_,
    hids⟩
  · intro e he
    rcases List.mem_append.1 he with he | he
    · exact hconf e (by simp [he])
    · exact done_of_marked hmarkC e he
  · have hkeys : keys C = keys above := (keys_of_sigs hsigC).trans (keys_of_sigs (sigs_rewind _ _))
    simp only [roll, Roll.erase, Table.isSome_update, splitLast_keys hsplit, keys_append, hkeys,
      Option.isSome_none]

theorem done_redoAll (n : ℕ) (l : List (ClientActionId × K.Param)) (t : T) :
    (∀ e ∈ (number n (redoAll K l t).1 : ActionList K), e.obj.done = true) ∧
      keys (number n (redoAll K l t).1) = l.map Prod.fst := by
  induction l generalizing n t with
  | nil => exact ⟨by simp [redoAll, number], rfl⟩
  | cons a l ih =>
    obtain ⟨hdone, hkeys⟩ := ih (n + 1) (K.redo a.2 K.init t).2
    constructor
    · intro e he
      rcases List.mem_cons.1 he with rfl | he
      · rfl
      · exact hdone e he
    · simp only [redoAll, number, keys_cons, hkeys, List.map_cons]

theorem receiveSync_plain (h : s.Plain) (t : T)
    {actions unconfirmed : List (ClientActionId × K.Param)}
    (hown : ∀ a ∈ unconfirmed, a.1.clientId = s.id) (hnd : (unconfirmed.map Prod.fst).Nodup) :
    ∃ s', s.receiveSync (.build K t actions unconfirmed) = some s' ∧ s'.Plain ∧
      s'.roll = .ofList (actions.map Prod.fst) ∧ s'.pendingIds = unconfirmed.map Prod.fst := by
  let c := redoAll K actions t
  let u := redoAll K unconfirmed c.2
  obtain ⟨hcdone, hckeys⟩ := done_redoAll s.nextNode actions t
  obtain ⟨hudone, hukeys⟩ := done_redoAll (s.nextNode + c.1.length) unconfirmed c.2
  have hguard : ¬ ∃ e ∈ (number (s.nextNode + c.1.length) u.1 : ActionList K),
      e.key.clientId ≠ s.id := by
    rintro ⟨e, he, hne⟩
    have hk : e.key ∈ keys (number (s.nextNode + c.1.length) u.1) := List.mem_map_of_mem he
    rw [hukeys] at hk
    obtain ⟨a, ha, hak⟩ := List.mem_map.1 hk
    exact hne (hak ▸ hown a ha)
  have hindex : ∀ k ∈ unconfirmed.map Prod.fst,
      (index (number (s.nextNode + c.1.length) u.1 : ActionList K) k).isSome = true := by
    intro k hk
    rw [isSome_index]
    exact decide_eq_true (hukeys ▸ hk)
  refine ⟨_, if_neg hguard, plain_of h.syncing rfl hcdone hudone hukeys hnd hindex, ?_, hukeys⟩
  show (⟨keys (number s.nextNode c.1),
      fun k => (index (number s.nextNode c.1 : ActionList K) k).isSome⟩ : Roll ClientActionId) = _
  simp only [isSome_index, hckeys, Roll.ofList, c]

/-- What a signal does to a plain store manager, if it fits. -/
theorem receive_plain (h : s.Plain) {signal : Signal K} {r : Roll ClientActionId}
    {pending : List ClientActionId} (hr : receiveRoll s.roll signal = some r)
    (hp : receivePending s.id s.pendingIds signal = some pending) :
    ∃ s', s.receive signal = some s' ∧ s'.Plain ∧ s'.roll = r ∧ s'.pendingIds = pending := by
  cases signal with
  | actionReceived k p =>
    cases hr
    cases hp
    exact receiveAction_plain h k p
  | actionConfirmReceived k =>
    simp only [receivePending] at hp
    split at hp
    · rename_i hk
      cases hr
      cases hp
      exact receiveActionConfirm_plain h hk
    · cases hp
  | undoReceived k =>
    simp only [receiveRoll] at hr
    split at hr
    · rename_i hk
      cases hr
      cases hp
      exact receiveUndo_plain h hk.1 hk.2
    · cases hr
  | syncReceived t actions unconfirmed =>
    simp only [receivePending] at hp
    split at hp
    · rename_i hown
      cases hr
      cases hp
      exact receiveSync_plain h t hown.1 hown.2
    · cases hp
  | undoConfirmReceived k => cases hr
  | syncConfirmed => cases hr

end StoreManager

/-! ## The server -/

namespace NetworkServer

variable {server server' : NetworkServer K}

/-- What a push does to the stack. -/
theorem push_actions {k : ClientActionId} {p : K.Param} (h : server.push k p = some server') :
    server'.actions = if (server.actions.push k (Obj.fresh p)).entries.length > maxActionStackSize
      then (server.actions.push k (Obj.fresh p)).popFront
      else server.actions.push k (Obj.fresh p) := by
  unfold push at h
  simp only at h
  split at h
  · rename_i hfull
    obtain ⟨front, -, h⟩ := Option.bind_eq_some_iff.1 h
    obtain ⟨done, -, h⟩ := Option.bind_eq_some_iff.1 h
    cases h
    rw [if_pos hfull]
  · rename_i hfull
    cases h
    rw [if_neg hfull]

theorem push_roll {k : ClientActionId} {p : K.Param} (h : server.push k p = some server') :
    server'.actions.roll = server.actions.roll.push maxActionStackSize k := by
  rw [push_actions h]
  exact Table.roll_push _ _ _ _

theorem push_lastIndexed {k : ClientActionId} {p : K.Param} (h : server.push k p = some server')
    (hi : server.actions.LastIndexed) : server'.actions.LastIndexed := by
  rw [push_actions h]
  split
  · exact (hi.push k _).popFront
  · exact hi.push k _

end NetworkServer

/-! ## Queues of signals -/

/-- The signal brings no action of the client `id` itself. -/
def Signal.Outside (id : ℕ) : Signal K → Prop
  | .actionReceived k _ => k.clientId ≠ id
  | .syncReceived _ actions _ => actions = []
  | _ => True

variable {id : ℕ} {l : List (Signal K)}

/-- New confirmed ids of the local client come from confirmations. -/
theorem mem_run_receiveRoll (ho : ∀ signal ∈ l, signal.Outside id) {r r' : Roll ClientActionId}
    (h : Runs.run receiveRoll l r = some r') {k : ClientActionId} (hk : k.clientId = id)
    (hk' : k ∈ r'.ids) : k ∈ r.ids ∨ k ∈ l.filterMap Signal.confirmId := by
  induction l generalizing r with
  | nil =>
    cases h
    exact .inl hk'
  | cons signal l ih =>
    obtain ⟨r₁, hr₁, h⟩ := Runs.run_cons h
    have hsignal := ho signal (by simp)
    rcases ih (fun s hs => ho s (List.mem_cons_of_mem _ hs)) h with hmem | hmem
    · cases signal with
      | actionReceived k' p =>
        cases hr₁
        rcases List.mem_append.1 ((Roll.ids_push_sublist _ r k').subset hmem) with hmem | hmem
        · exact .inl hmem
        · exact absurd (List.mem_singleton.1 hmem ▸ hk) hsignal
      | actionConfirmReceived k' =>
        cases hr₁
        rcases List.mem_append.1 ((Roll.ids_push_sublist _ r k').subset hmem) with hmem | hmem
        · exact .inl hmem
        · exact .inr (by simp [Signal.confirmId, List.mem_singleton.1 hmem])
      | undoReceived k' =>
        simp only [receiveRoll] at hr₁
        split at hr₁
        · cases hr₁
          exact .inl ((eraseLast_sublist k' r.ids).subset hmem)
        · cases hr₁
      | syncReceived t actions unconfirmed =>
        cases hr₁
        rw [show actions = [] from hsignal] at hmem
        simp [Roll.ofList] at hmem
      | undoConfirmReceived k' => cases hr₁
      | syncConfirmed => cases hr₁
    · refine .inr ?_
      rw [List.filterMap_cons]
      split
      · exact hmem
      · exact List.mem_cons_of_mem _ hmem

/-- Ids dispatched before a queue without a sync stay behind the unconfirmed ones. -/
theorem run_receivePending_extend (hs : ∀ signal ∈ l, signal.isSync = false)
    {pending pending' : List ClientActionId}
    (h : Runs.run (receivePending id) l pending = some pending') (new : List ClientActionId) :
    Runs.run (receivePending id) l (pending ++ new) = some (pending' ++ new) ∧
      ∀ k ∈ pending', k ∈ pending := by
  induction l generalizing pending with
  | nil =>
    cases h
    exact ⟨rfl, fun _ hk => hk⟩
  | cons signal l ih =>
    obtain ⟨p₁, hp₁, h⟩ := Runs.run_cons h
    obtain ⟨hrun, hmem⟩ := ih (fun s hsl => hs s (List.mem_cons_of_mem _ hsl)) h
    have key : receivePending id (pending ++ new) signal = some (p₁ ++ new) ∧
        ∀ k ∈ p₁, k ∈ pending := by
      cases signal with
      | actionConfirmReceived k =>
        simp only [receivePending] at hp₁
        split at hp₁
        · rename_i hk
          cases hp₁
          cases pending with
          | nil => simp at hk
          | cons a rest => exact ⟨if_pos hk, fun k hk => List.mem_cons_of_mem _ hk⟩
        · cases hp₁
      | syncReceived t actions unconfirmed =>
        have := hs (.syncReceived t actions unconfirmed) (by simp)
        simp [Signal.isSync] at this
      | actionReceived k p =>
        cases hp₁
        exact ⟨rfl, fun _ hk => hk⟩
      | undoReceived k =>
        cases hp₁
        exact ⟨rfl, fun _ hk => hk⟩
      | undoConfirmReceived k =>
        cases hp₁
        exact ⟨rfl, fun _ hk => hk⟩
      | syncConfirmed =>
        cases hp₁
        exact ⟨rfl, fun _ hk => hk⟩
    refine ⟨?_, fun k hk => key.2 k (hmem k hk)⟩
    rw [Runs.run, key.1, Option.bind_some]
    exact hrun

end JudoAssistant
