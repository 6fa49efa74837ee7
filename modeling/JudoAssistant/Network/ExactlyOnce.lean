import JudoAssistant.Network.Frame
import JudoAssistant.Network.Steps
import JudoAssistant.Network.SyncAck

/-!
# Actions are executed once

An action of a client can be sent several times: after a reconnect `connectSync` resends what it
still keeps as unconfirmed and does not find in the snapshot of the server.  `Client.Once` follows
the ids that may still be executed.  A resend is harmless if, when the snapshot is taken, the kept
actions that the server has executed are still on its stack and none of them is left unread on an
old connection.
-/

namespace JudoAssistant

open Undoable

variable {T : Type} {K : ActionModel T}

/-- The ids of the actions in a queue of messages. -/
def actionIds (up : List (ℕ × ClientMessage K)) : List ClientActionId :=
  up.filterMap fun m => match m.2 with
    | .action k _ => some k
    | _ => none

/-- The messages after the first `SYNC_ACK`. -/
def afterAck : List (ℕ × ClientMessage K) → List (ℕ × ClientMessage K)
  | [] => []
  | m :: up => if isAck m then up else afterAck up

/-- The ids of the actions that a store manager has posted. -/
def postedIds (posted : List (Post K)) : List ClientActionId :=
  posted.filterMap fun call => match call with
    | .postAction k _ => some k
    | _ => none

/-- The ids in the first `SYNC` of a queue of messages. -/
def firstSync : List (ServerMessage K) → Option (List ClientActionId)
  | [] => none
  | .sync _ actions :: _ => some (actions.map Prod.fst)
  | _ :: down => firstSync down

/-- The ids of the actions on a connection that the server would accept. -/
def Connection.acceptable (l : Connection K) : List ClientActionId :=
  match l.participant with
  | .left => []
  | .joined false => actionIds l.up
  | _ => actionIds (afterAck l.up)

section Queues

variable {up up' : List (ℕ × ClientMessage K)} {m : ℕ × ClientMessage K}

@[simp] theorem actionIds_nil : actionIds ([] : List (ℕ × ClientMessage K)) = [] := rfl

@[simp] theorem actionIds_append : actionIds (up ++ up') = actionIds up ++ actionIds up' :=
  List.filterMap_append

@[simp] theorem postedIds_append (l l' : List (Post K)) :
    postedIds (l ++ l') = postedIds l ++ postedIds l' := List.filterMap_append

theorem actionIds_sublist (h : up.Sublist up') : (actionIds up).Sublist (actionIds up') :=
  h.filterMap _

theorem afterAck_sublist (up : List (ℕ × ClientMessage K)) : (afterAck up).Sublist up := by
  induction up with
  | nil => exact List.Sublist.slnil
  | cons m up ih =>
    simp only [afterAck]
    split
    · exact List.sublist_cons_self m up
    · exact ih.trans (List.sublist_cons_self m up)

/-- What is sent later is after the first `SYNC_ACK`, if there is one. -/
theorem afterAck_append_sublist (up up' : List (ℕ × ClientMessage K)) :
    (afterAck (up ++ up')).Sublist (afterAck up ++ up') := by
  induction up with
  | nil => exact afterAck_sublist up'
  | cons m up ih =>
    simp only [List.cons_append, afterAck]
    split
    · exact List.Sublist.refl _
    · exact ih

theorem afterAck_eq_nil (h : ∀ m ∈ up, isAck m = false) : afterAck up = [] := by
  induction up with
  | nil => rfl
  | cons m up ih =>
    simp only [afterAck, h m (by simp), Bool.false_eq_true, if_false]
    exact ih fun m' hm' => h m' (by simp [hm'])

theorem afterAck_append_ack (h : ∀ m ∈ up, isAck m = false) (n : ℕ) :
    afterAck (up ++ (n, .syncAck) :: up') = up' := by
  induction up with
  | nil => rfl
  | cons m up ih =>
    simp only [List.cons_append, afterAck, h m (by simp), Bool.false_eq_true, if_false]
    exact ih fun m' hm' => h m' (by simp [hm'])

theorem afterAck_take_sublist (up : List (ℕ × ClientMessage K)) (n : ℕ) :
    (afterAck (up.take n)).Sublist (afterAck up) := by
  induction up generalizing n with
  | nil => simp [afterAck]
  | cons m up ih =>
    cases n with
    | zero => simp [afterAck]
    | succ n =>
      simp only [List.take_succ_cons, afterAck]
      split
      · exact List.take_sublist n up
      · exact ih n

theorem actionIds_cons_of_not_action (h : isAction m = false) :
    actionIds (m :: up) = actionIds up := by
  obtain ⟨n, m⟩ := m
  cases m with
  | action k p => simp [isAction] at h
  | _ => rfl

end Queues

namespace Connection

variable {l l' : Connection K}

/-- What the server may accept grows by the sent action at most. -/
theorem acceptable_send (l : Connection K) (m : ClientMessage K) :
    (l.send m).acceptable.Sublist (l.acceptable ++ actionIds [(l.processed, m)]) := by
  rcases l with ⟨up, down, participant, processed, delivered, removed⟩
  have hlate : (actionIds (afterAck (up ++ [(processed, m)]))).Sublist
      (actionIds (afterAck up) ++ actionIds [(processed, m)]) := by
    rw [← actionIds_append]
    exact actionIds_sublist (afterAck_append_sublist _ _)
  cases participant with
  | left => exact List.nil_sublist _
  | waiting => exact hlate
  | joined b =>
    cases b with
    | true => exact hlate
    | false =>
      simp only [acceptable, send, actionIds_append]
      exact List.Sublist.refl _

theorem acceptable_deliver (l : Connection K) (m : ServerMessage K) :
    (l.deliver m).acceptable = l.acceptable := by
  unfold deliver
  split <;> rfl

theorem acceptable_deliverSync (l : Connection K) (m : ServerMessage K) :
    (l.deliverSync m).acceptable.Sublist l.acceptable := by
  cases hl : l.inParticipants with
  | false =>
    rw [deliverSync_of_not_mem hl]
  | true =>
    obtain ⟨⟨b, hb⟩, -⟩ := inParticipants_iff.1 hl
    rw [deliverSync_of_mem hl]
    rcases l with ⟨up, down, participant, processed, delivered, removed⟩
    obtain rfl : participant = .joined b := hb
    cases b with
    | false => exact actionIds_sublist (afterAck_sublist up)
    | true => exact List.Sublist.refl _

/-- Messages that have not left the client are not accepted. -/
theorem acceptable_take (l : Connection K) (down : List (ServerMessage K)) (sent : ℕ) :
    (acceptable { l with up := l.up.take sent, down := down }).Sublist l.acceptable := by
  rcases l with ⟨up, down', participant, processed, delivered, removed⟩
  cases participant with
  | left => exact List.nil_sublist _
  | waiting => exact actionIds_sublist (afterAck_take_sublist up sent)
  | joined b =>
    cases b with
    | false => exact actionIds_sublist (List.take_sublist sent up)
    | true => exact actionIds_sublist (afterAck_take_sublist up sent)

theorem acceptable_read {server : NetworkServer K} (h : Reads server l (.done l')) :
    l'.acceptable.Sublist l.acceptable := by
  rcases l with ⟨up, down, participant, processed, delivered, removed⟩
  generalize hr : Reading.done l' = r at h
  cases h with
  | start hp hup =>
    cases hr
    obtain rfl : participant = .waiting := hp
    obtain rfl : up = _ := hup
    exact List.Sublist.refl _
  | kick hup =>
    cases hr
    exact List.nil_sublist _
  | @ack b m up' hp hup hm =>
    cases hr
    obtain rfl : participant = .joined b := hp
    obtain rfl : up = m :: up' := hup
    cases b with
    | false => exact actionIds_sublist (List.sublist_cons_self _ _)
    | true =>
      simp only [acceptable, afterAck, hm, if_true]
      exact List.Sublist.refl _
  | @skip b m up' hp hup hm ha =>
    cases hr
    obtain rfl : participant = .joined b := hp
    obtain rfl : up = m :: up' := hup
    cases b with
    | false =>
      simp only [acceptable, actionIds_cons_of_not_action (ha rfl)]
      exact List.Sublist.refl _
    | true =>
      simp only [acceptable, afterAck, hm, Bool.false_eq_true, if_false]
      exact List.Sublist.refl _
  | accept => cases hr

theorem acceptable_accept {server : NetworkServer K} {a : Acceptance} {p : K.Param}
    (h : Reads server l (.accept l' a p)) :
    l.acceptable = a.actionId :: l'.acceptable ∧ l.participant = .joined false := by
  rcases l with ⟨up, down, participant, processed, delivered, removed⟩
  cases h with
  | accept hp hup =>
    obtain rfl : participant = .joined false := hp
    obtain rfl : up = _ := hup
    exact ⟨rfl, rfl⟩

end Connection

theorem firstSync_append {down : List (ServerMessage K)} {A : List ClientActionId}
    (h : firstSync down = some A) (d : List (ServerMessage K)) :
    firstSync (down ++ d) = some A := by
  induction down with
  | nil => simp [firstSync] at h
  | cons m down ih =>
    cases m with
    | sync t actions => exact h
    | _ => exact ih h

/-! ## The ids of a client -/

/-- Is the client before its first `SYNC` on this connection? -/
def Phase.connecting : Phase → Bool
  | .connectJoin | .connectSynchronizeClocks | .connectSync => true
  | _ => false

namespace Client

/-- The actions that the server may still accept from closed connections. -/
def staleIds (c : Client K) : List ClientActionId := c.stale.flatMap (·.acceptable)

/-- The actions that the server may still accept from the connection. -/
def liveIds (c : Client K) : List ClientActionId := c.connection.elim [] (·.acceptable)

/-- The actions that `NetworkClient` keeps as unconfirmed. -/
def keptIds (c : Client K) : List ClientActionId := keys c.unconfirmed.entries

/-- The actions that may be executed without another resend. -/
def openIds (c : Client K) : List ClientActionId :=
  c.staleIds ++ c.liveIds ++ postedIds c.ui.posted

/-- A connection on which the client has not read its first `SYNC`: none of its actions will be
accepted, and the snapshot under way holds the kept actions that the server has executed. -/
structure Connecting (executed : List ClientActionId) (c : Client K) (l : Connection K) : Prop where
  noAck : ∀ m ∈ l.up, isAck m = false
  notSynced : l.participant ≠ .joined false
  unread : l.participant = .waiting → l.down = []
  snapshot : l.participant = .joined true → (firstSync l.down).isSome
  covered : ∀ A, firstSync l.down = some A → ∀ k ∈ c.keptIds, (k ∈ executed → k ∈ A) ∧ k ∉ c.staleIds

/-- No id of the client is open twice, and no open one has been executed. -/
structure Once (executed drawn : List ClientActionId) (c : Client K) : Prop where
  wf : c.unconfirmed.WF
  nodup : c.openIds.Nodup
  fresh : ∀ k ∈ c.openIds, k ∉ executed
  apart : ∀ k ∈ c.keptIds, k ∉ postedIds c.ui.posted
  owned : ∀ k ∈ c.openIds ++ c.keptIds, k.clientId = c.ui.id ∧ k ∈ drawn
  connecting : ∀ l, c.connection = some l → c.phase.connecting = true → Connecting executed c l

variable {executed drawn : List ClientActionId} {c c' : Client K} {l l' : Connection K}

/-- A connecting client whose open and kept ids shrink. -/
theorem Connecting.mono (h : Connecting executed c l) (hN : ∀ k ∈ c'.keptIds, k ∈ c.keptIds)
    (hs : ∀ k ∈ c'.staleIds, k ∈ c.staleIds) : Connecting executed c' l where
  noAck := h.noAck
  notSynced := h.notSynced
  unread := h.unread
  snapshot := h.snapshot
  covered A hA k hk := ⟨(h.covered A hA k (hN k hk)).1,
    fun hk' => (h.covered A hA k (hN k hk)).2 (hs k hk')⟩

theorem Connecting.liveIds_eq (h : Connecting executed c l) : l.acceptable = [] := by
  obtain ⟨hno, hsync, -, -, -⟩ := h
  rcases l with ⟨up, down, participant, processed, delivered, removed⟩
  cases participant with
  | left => rfl
  | waiting => exact congrArg actionIds (afterAck_eq_nil hno)
  | joined b =>
    cases b with
    | false => exact absurd rfl hsync
    | true => exact congrArg actionIds (afterAck_eq_nil hno)

/-- The server delivers a message to a connecting client. -/
theorem Connecting.deliver (h : Connecting executed c l) (m : ServerMessage K) :
    Connecting executed c (l.deliver m) := by
  cases hl : l.inParticipants with
  | false =>
    rw [Connection.deliver_of_not_mem hl]
    exact h
  | true =>
    rw [Connection.deliver_of_mem hl]
    obtain ⟨⟨b, hb⟩, -⟩ := Connection.inParticipants_iff.1 hl
    obtain ⟨hno, hsync, hunread, hsnap, hcov⟩ := h
    rcases l with ⟨up, down, participant, processed, delivered, removed⟩
    obtain rfl : participant = .joined b := hb
    cases b with
    | false => exact absurd rfl hsync
    | true =>
      obtain ⟨A, hA⟩ := Option.isSome_iff_exists.1 (hsnap rfl)
      have hA' : firstSync (down ++ [m]) = some A := firstSync_append hA [m]
      refine ⟨hno, hsync, nofun, fun _ => ?_, fun B hB => ?_⟩
      · exact Option.isSome_iff_exists.2 ⟨A, hA'⟩
      · rw [show firstSync (down ++ [m]) = some B from hB] at hA'
        cases hA'
        exact hcov _ hA

theorem Connecting.deliverSync (h : Connecting executed c l) (m : ServerMessage K) :
    Connecting executed c (l.deliverSync m) := by
  cases hl : l.inParticipants with
  | false =>
    rw [Connection.deliverSync_of_not_mem hl]
    exact h
  | true =>
    have hd := h.deliver m
    rw [Connection.deliver_of_mem hl] at hd
    rw [Connection.deliverSync_of_mem hl]
    obtain ⟨⟨b, hb⟩, -⟩ := Connection.inParticipants_iff.1 hl
    cases b with
    | false => exact absurd hb h.notSynced
    | true =>
      exact ⟨hd.noAck, (by rintro ⟨⟩), (by rintro ⟨⟩), fun _ => hd.snapshot hb, hd.covered⟩

/-- The client sends a message other than `SYNC_ACK`. -/
theorem Connecting.send (h : Connecting executed c l) {m : ClientMessage K}
    (hm : ∀ n, isAck (n, m) = false) : Connecting executed c (l.send m) where
  noAck m' hm' := by
    rcases List.mem_append.1 hm' with hm' | hm'
    · exact h.noAck m' hm'
    · rw [List.mem_singleton.1 hm']
      exact hm _
  notSynced := h.notSynced
  unread := h.unread
  snapshot := h.snapshot
  covered := h.covered

/-- A step in which the open ids and the kept ids shrink. -/
theorem Once.shrink (h : c.Once executed drawn) (hwf : c'.unconfirmed.WF)
    (hid : c'.ui.id = c.ui.id) (hopen : c'.openIds.Sublist c.openIds)
    (hkept : ∀ k ∈ c'.keptIds, k ∈ c.keptIds)
    (hposted : postedIds c'.ui.posted = postedIds c.ui.posted)
    (hconn : ∀ l, c'.connection = some l → c'.phase.connecting = true → Connecting executed c' l) :
    c'.Once executed drawn where
  wf := hwf
  nodup := hopen.nodup h.nodup
  fresh k hk := h.fresh k (hopen.subset hk)
  apart k hk := by
    rw [hposted]
    exact h.apart k (hkept k hk)
  owned k hk := by
    rw [hid]
    refine h.owned k ?_
    rcases List.mem_append.1 hk with hk | hk
    · exact List.mem_append_left _ (hopen.subset hk)
    · exact List.mem_append_right _ (hkept k hk)
  connecting := hconn

theorem openIds_sublist (hs : c'.staleIds.Sublist c.staleIds) (hl : c'.liveIds.Sublist c.liveIds)
    (hp : postedIds c'.ui.posted = postedIds c.ui.posted) : c'.openIds.Sublist c.openIds := by
  rw [openIds, openIds, hp]
  exact (hs.append hl).append (List.Sublist.refl _)

/-! ## Steps of the client -/

/-- Replacing the connection by one on which no more can be accepted. -/
theorem Once.setConnection (h : c.Once executed drawn) (hl : c.connection = some l)
    (hacc : l'.acceptable.Sublist l.acceptable)
    (hconn : c.phase.connecting = true → Connecting executed c l → Connecting executed c l') :
    Once executed drawn { c with connection := some l' } := by
  refine h.shrink h.wf rfl ?_ (fun _ hk => hk) rfl ?_
  · refine openIds_sublist (List.Sublist.refl _) ?_ rfl
    simpa [liveIds, hl] using hacc
  · rintro _ ⟨⟩ hp
    exact (hconn hp (h.connecting l hl hp)).mono (fun _ hk => hk) fun _ hk => hk

/-- A message of the server. -/
theorem Once.broadcast (h : c.Once executed drawn) (m : ServerMessage K) :
    (c.broadcast m).Once executed drawn := by
  cases hl : c.connection with
  | none =>
    have : c.broadcast m = c := by
      rcases c
      simp_all [Client.broadcast]
    rwa [this]
  | some l =>
    have : c.broadcast m = { c with connection := some (l.deliver m) } := by
      simp [Client.broadcast, hl]
    rw [this]
    refine h.setConnection hl ?_ fun _ hc => hc.deliver m
    rw [Connection.acceptable_deliver]

/-- The client sends a message that is neither an action nor a `SYNC_ACK`, possibly in another
phase. -/
theorem Once.deliver (h : c.Once executed drawn) {m : ClientMessage K} {phase : Phase}
    (hm : ∀ n, isAction (n, m) = false) (hack : ∀ n, isAck (n, m) = false)
    (hp : phase.connecting = true → c.phase.connecting = true) :
    (Client.deliver { c with phase := phase } m).Once executed drawn := by
  refine h.shrink h.wf rfl ?_ (fun _ hk => hk) rfl ?_
  · refine openIds_sublist (List.Sublist.refl _) ?_ rfl
    cases hl : c.connection with
    | none => simp [liveIds, Client.deliver, hl]
    | some l =>
      have := l.acceptable_send m
      rw [actionIds_cons_of_not_action (hm _), actionIds_nil, List.append_nil] at this
      simpa [liveIds, Client.deliver, hl] using this
  · intro l' hl' hp'
    obtain ⟨l, hl, rfl⟩ := Option.map_eq_some_iff.1 hl'
    exact ((h.connecting l hl (hp hp')).send hack).mono (fun _ hk => hk) fun _ hk => hk

/-- An action is dispatched. -/
theorem Once.dispatch (h : c.Once executed drawn) {draws : List ℕ} {p : K.Param}
    {ui : StoreManager K} (hd : c.ui.dispatch draws p = some ui) {k : ClientActionId}
    (hk : c.ui.drawActionId draws = some k) (hnew : k ∉ drawn) (hex : k ∉ executed) :
    Once executed (drawn ++ [k]) { c with ui := ui } := by
  obtain ⟨k', hk', hown, hid, hposted⟩ := StoreManager.dispatch_posted hd
  obtain rfl : k = k' := Option.some.inj (hk.symm.trans hk')
  have hopen : Client.openIds { c with ui := ui } = c.openIds ++ [k] := by
    simp only [openIds, hposted, postedIds_append, ← List.append_assoc]
    rfl
  have hno : k ∉ c.openIds := fun hk => hnew (h.owned k (List.mem_append_left _ hk)).2
  constructor
  · exact h.wf
  · rw [hopen]
    refine List.nodup_append.2 ⟨h.nodup, List.nodup_singleton k, ?_⟩
    rintro a ha b hb rfl
    exact hno (List.mem_singleton.1 hb ▸ ha)
  · rw [hopen]
    intro a ha
    rcases List.mem_append.1 ha with ha | ha
    · exact h.fresh a ha
    · rwa [List.mem_singleton.1 ha]
  · intro a ha
    simp only [hposted, postedIds_append, List.mem_append, not_or]
    refine ⟨h.apart a ha, fun ha' => ?_⟩
    have ha' : a = k := by simpa [postedIds] using ha'
    exact hnew (ha' ▸ (h.owned a (List.mem_append_right _ ha)).2)
  · rw [hopen, hid]
    intro a ha
    simp only [List.append_assoc, List.mem_append, List.mem_singleton] at ha
    have hmem : a ∈ c.openIds ++ c.keptIds ∨ a = k := by
      simp only [List.mem_append]
      tauto
    rcases hmem with ha | rfl
    · exact ⟨(h.owned a ha).1, List.mem_append_left _ (h.owned a ha).2⟩
    · exact ⟨hown, by simp⟩
  · intro l hl hp
    exact (h.connecting l hl hp).mono (fun _ hk => hk) fun _ hk => hk

/-- The network thread runs a posted action. -/
theorem Once.post (h : c.Once executed drawn) {k : ClientActionId} {p : K.Param}
    {posted : List (Post K)} (hposted : c.ui.posted = .postAction k p :: posted) :
    (Client.postAction { c with ui := { c.ui with posted := posted } } k p).Once executed drawn := by
  have hids : postedIds c.ui.posted = k :: postedIds posted := by
    rw [hposted]
    rfl
  have hkept : ∀ k' ∈ (Client.postAction { c with ui := { c.ui with posted := posted } } k p).keptIds,
      k' ∈ c.keptIds ∨ k' = k := by
    intro k' hk'
    simpa [keptIds, Client.postAction, Client.deliver, Table.push] using hk'
  have hopen : (Client.postAction { c with ui := { c.ui with posted := posted } } k p).openIds.Sublist
      c.openIds := by
    have hlive : (Client.postAction { c with ui := { c.ui with posted := posted } } k p).liveIds.Sublist
        (c.liveIds ++ [k]) := by
      cases hl : c.connection with
      | none => simp [liveIds, Client.postAction, Client.deliver, hl]
      | some l =>
        have := l.acceptable_send (.action k p)
        simpa [liveIds, Client.postAction, Client.deliver, hl, actionIds] using this
    have : c.openIds = c.staleIds ++ (c.liveIds ++ [k]) ++ postedIds posted := by
      simp [openIds, hids]
    rw [this]
    exact ((List.Sublist.refl _).append hlive).append (List.Sublist.refl _)
  have hk : k ∈ c.openIds := by simp [openIds, hids]
  have hkN : k ∉ c.keptIds := fun hk' => h.apart k hk' (by simp [hids])
  have hnd : k ∉ postedIds posted ∧ k ∉ c.staleIds := by
    have := h.nodup
    simp only [openIds, hids, List.append_assoc, List.nodup_append, List.nodup_cons] at this
    exact ⟨this.2.1.2.1.1, fun hk' => this.2.2 k hk' k (by simp) rfl⟩
  constructor
  · exact h.wf.push hkN _
  · exact hopen.nodup h.nodup
  · exact fun k' hk' => h.fresh k' (hopen.subset hk')
  · intro k' hk'
    rcases hkept k' hk' with hk' | rfl
    · exact fun hp => h.apart k' hk' (by rw [hids]; exact List.mem_cons_of_mem _ hp)
    · exact hnd.1
  · intro k' hk'
    refine h.owned k' ?_
    rcases List.mem_append.1 hk' with hk' | hk'
    · exact List.mem_append_left _ (hopen.subset hk')
    · rcases hkept k' hk' with hk' | rfl
      · exact List.mem_append_right _ hk'
      · exact List.mem_append_left _ hk
  · intro l' hl' hp'
    obtain ⟨l, hl, rfl⟩ := Option.map_eq_some_iff.1 hl'
    have hc := (h.connecting l hl hp').send (m := .action k p) fun _ => rfl
    refine ⟨hc.noAck, hc.notSynced, hc.unread, hc.snapshot, fun A hA k' hk' => ?_⟩
    rcases hkept k' hk' with hk' | rfl
    · exact hc.covered A hA k' hk'
    · exact ⟨fun hex => absurd hex (h.fresh k' hk), hnd.2⟩

/-- The client has closed its connection `l`, of which `l'` is left. -/
theorem Once.close (h : c.Once executed drawn) (hl : c.connection = some l)
    (hacc : l'.acceptable.Sublist l.acceptable) :
    Once executed drawn
      { c with phase := .notConnected, connection := none, stale := c.stale ++ [l'] } := by
  refine h.shrink h.wf rfl ?_ (fun _ hk => hk) rfl nofun
  simp only [openIds, staleIds, liveIds, hl, List.flatMap_append, List.flatMap_singleton,
    Option.elim_none, Option.elim_some, List.append_nil]
  exact ((List.Sublist.refl _).append hacc).append (List.Sublist.refl _)

theorem Once.kill (h : c.Once executed drawn) (sent : ℕ) :
    (c.killConnection sent).Once executed drawn := by
  unfold killConnection
  split
  · exact h
  · rename_i l hl
    exact h.close hl (l.acceptable_take [] sent)

/-- The client takes a message other than its first `SYNC` from the connection. -/
theorem Once.received (h : c.Once executed drawn) {m : ServerMessage K}
    {down : List (ServerMessage K)} (hl : c.connection = some l)
    (hconn : c.phase.connecting = true → Connecting executed c l →
      ∀ l', (c.received l m down).connection = some l' → Connecting executed c l') :
    (c.received l m down).Once executed drawn := by
  refine h.setConnection hl (List.Sublist.refl _) fun hp hc => hconn hp hc _ rfl

/-- The client empties or shortens its list of unconfirmed actions outside the connecting phases. -/
theorem Once.setKept (h : c.Once executed drawn) {unconfirmed : Table ClientActionId K.toOps}
    (hwf : unconfirmed.WF) (hN : ∀ k ∈ keys unconfirmed.entries, k ∈ c.keptIds) :
    Once executed drawn { c with unconfirmed := unconfirmed } :=
  h.shrink hwf rfl (List.Sublist.refl _) hN rfl fun l hl hp =>
    (h.connecting l hl hp).mono hN fun _ hk => hk

theorem Once.signal (h : c.Once executed drawn) (signal : Signal K) :
    (c.signal signal).Once executed drawn :=
  h.shrink h.wf rfl (List.Sublist.refl _) (fun _ hk => hk) rfl fun l hl hp =>
    (h.connecting l hl hp).mono (fun _ hk => hk) fun _ hk => hk

/-- The `SYNC_ACK` of a client that is not connecting. -/
theorem Once.ack (h : c.Once executed drawn) (hp : c.phase.connecting = false) :
    (c.deliver .syncAck).Once executed drawn := by
  refine h.shrink h.wf rfl ?_ (fun _ hk => hk) rfl fun _ _ hp' => ?_
  · refine openIds_sublist (List.Sublist.refl _) ?_ rfl
    cases hl : c.connection with
    | none => simp [liveIds, Client.deliver, hl]
    | some l => simpa [liveIds, Client.deliver, hl, actionIds] using l.acceptable_send .syncAck
  · exact absurd hp' (by simp [Client.deliver, hp])

theorem Once.handleIdle (h : c.Once executed drawn) (hp : c.phase.connecting = false)
    (m : ServerMessage K) : (c.handleIdle m).Once executed drawn := by
  cases m with
  | sync t actions =>
    have := ((h.ack hp).signal (.syncReceived t actions [])).setKept (c.unconfirmed.wf_clear)
      (by simp [Table.clear])
    exact this
  | action k p => exact h.signal _
  | actionAck k =>
    simp only [Client.handleIdle]
    split
    · refine Once.signal ?_ _
      refine h.setKept (h.wf.erase k) fun k' hk' => ?_
      rw [h.wf.keys_erase k] at hk'
      exact (List.mem_filter.1 hk').1
    · exact h
  | undo k => exact h.signal _
  | clockSync => exact h

/-- Actions sent one after the other. -/
theorem resend_eq (kept : List (ClientActionId × K.Param)) (c : Client K) :
    kept.foldl (fun (c : Client K) a => c.deliver (.action a.1 a.2)) c =
      { c with connection := c.connection.map fun l =>
          { l with up := l.up ++ kept.map fun a => (l.processed, .action a.1 a.2) } } := by
  induction kept generalizing c with
  | nil =>
    rcases c with ⟨ui, signals, phase, unconfirmed, connection, stale⟩
    cases connection <;> simp
  | cons a kept ih =>
    rw [List.foldl_cons, ih]
    rcases c with ⟨ui, signals, phase, unconfirmed, connection, stale⟩
    cases connection <;> simp [Client.deliver, Connection.send]

theorem actionIds_actions (n : ℕ) (kept : List (ClientActionId × K.Param)) :
    actionIds (kept.map fun a => ((n, .action a.1 a.2) : ℕ × ClientMessage K)) =
      kept.map Prod.fst := by
  induction kept with
  | nil => rfl
  | cons a kept ih => exact congrArg (a.1 :: ·) ih

/-- The list of unconfirmed actions that connecting makes from the snapshot. -/
theorem wf_stillUnconfirmed (h : c.unconfirmed.WF) (actions : List (ClientActionId × K.Param)) :
    let kept := stillUnconfirmed actions (items c.unconfirmed.entries)
    let table := c.unconfirmed.clear.pushAll
      (kept.map fun (a : ClientActionId × K.Param) => (a.1, Obj.fresh a.2))
    table.WF ∧ keys table.entries = kept.map Prod.fst ∧ (kept.map Prod.fst).Nodup ∧
      ∀ k ∈ kept.map Prod.fst, k ∈ c.keptIds ∧ k ∉ actions.map Prod.fst := by
  intro kept table
  have hsub : (kept.map Prod.fst).Sublist c.keptIds := by
    rw [keptIds, ← keys_items]
    exact List.filter_sublist.map _
  have hnd := hsub.nodup h.nodup
  obtain ⟨hwf, hitems⟩ := c.unconfirmed.wf_clear.pushAll
    (l := kept.map fun (a : ClientActionId × K.Param) => (a.1, Obj.fresh a.2))
    (by simpa [Table.clear, Function.comp_def] using hnd)
  refine ⟨hwf, ?_, hnd, fun k hk => ⟨hsub.subset hk, ?_⟩⟩
  · rw [← keys_items, hitems]
    simp [Table.clear, Function.comp_def]
  · obtain ⟨a, ha, rfl⟩ := List.mem_map.1 hk
    exact of_decide_eq_true (List.mem_filter.1 ha).2

/-- The client after the snapshot. -/
theorem handleSync_eq (c : Client K) (l : Connection K) (t : T)
    (actions : List (ClientActionId × K.Param)) (down : List (ServerMessage K)) :
    (c.received l (.sync t actions) down).handleSync t actions =
      let kept := stillUnconfirmed actions (items c.unconfirmed.entries)
      { c with
        phase := .connectIdle
        unconfirmed := c.unconfirmed.clear.pushAll
          (kept.map fun (a : ClientActionId × K.Param) => (a.1, Obj.fresh a.2))
        signals := c.signals ++ [.syncReceived t actions kept]
        connection := some { l with
          down := down
          processed := l.processed + 1
          up := l.up ++ (l.processed + 1, .syncAck) ::
            kept.map fun a => (l.processed + 1, .action a.1 a.2) } } := by
  simp only [handleSync, resend_eq]
  simp only [Client.signal, Client.deliver, Client.received, Option.map_some,
    Connection.send, List.append_assoc, List.singleton_append]

/-- The client reads the snapshot and resends what it does not find there. -/
theorem Once.handleSync (h : c.Once executed drawn) (hl : c.connection = some l)
    (hp : c.phase.connecting = true) {t : T} {actions : List (ClientActionId × K.Param)}
    {down : List (ServerMessage K)} (hd : l.down = .sync t actions :: down) :
    ((c.received l (.sync t actions) down).handleSync t actions).Once executed drawn := by
  have hc := h.connecting l hl hp
  have hcov := hc.covered (actions.map Prod.fst) (by rw [hd]; rfl)
  obtain ⟨hwf, hkeys, hnd, hkept⟩ := wf_stillUnconfirmed h.wf actions
  rw [handleSync_eq c l]
  generalize hk : stillUnconfirmed actions (items c.unconfirmed.entries) = kept at *
  -- the resent actions are the only ones that become acceptable
  have hopen : (c.staleIds ++ kept.map Prod.fst ++ postedIds c.ui.posted).Nodup ∧
      ∀ k ∈ c.staleIds ++ kept.map Prod.fst ++ postedIds c.ui.posted, k ∉ executed := by
    have hold : c.openIds = c.staleIds ++ postedIds c.ui.posted := by
      simp [openIds, liveIds, hl, hc.liveIds_eq]
    have hnd' := h.nodup
    have hfresh := h.fresh
    rw [hold] at hnd' hfresh
    rw [List.nodup_append] at hnd'
    constructor
    · rw [List.append_assoc, List.nodup_append, List.nodup_append]
      refine ⟨hnd'.1, ⟨hnd, hnd'.2.1, ?_⟩, ?_⟩
      · rintro a ha b hb rfl
        exact h.apart a (hkept a ha).1 hb
      · rintro a ha b hb rfl
        rcases List.mem_append.1 hb with hb | hb
        · exact (hcov a (hkept a hb).1).2 ha
        · exact hnd'.2.2 a ha a hb rfl
    · intro k hk
      simp only [List.mem_append] at hk hfresh
      rcases hk with (hk | hk) | hk
      · exact hfresh k (.inl hk)
      · exact fun hex => (hkept k hk).2 ((hcov k (hkept k hk).1).1 hex)
      · exact hfresh k (.inr hk)
  have hlive : (Connection.acceptable { l with
      down := down
      processed := l.processed + 1
      up := l.up ++ (l.processed + 1, .syncAck) ::
        kept.map fun a => (l.processed + 1, .action a.1 a.2) }).Sublist (kept.map Prod.fst) := by
    rcases l with ⟨up, down', participant, processed, delivered, removed⟩
    have hacks : afterAck (up ++ (processed + 1, .syncAck) ::
        kept.map fun a => (processed + 1, .action a.1 a.2)) =
          kept.map fun a => (processed + 1, .action a.1 a.2) :=
      afterAck_append_ack hc.noAck (processed + 1)
    cases participant with
    | left => exact List.nil_sublist _
    | waiting => exact absurd (hd.symm.trans (hc.unread rfl)) (by simp)
    | joined b =>
      cases b with
      | false => exact absurd rfl hc.notSynced
      | true =>
        simp only [Connection.acceptable, hacks, actionIds_actions]
        exact List.Sublist.refl _
  have hsub := ((List.Sublist.refl c.staleIds).append hlive).append
    (List.Sublist.refl (postedIds c.ui.posted))
  constructor
  · exact hwf
  · exact hsub.nodup hopen.1
  · exact fun k hk => hopen.2 k (hsub.subset hk)
  · intro k hk
    have hk' : k ∈ kept.map Prod.fst := hkeys ▸ hk
    exact h.apart k (hkept k hk').1
  · intro k hk
    refine h.owned k ?_
    rcases List.mem_append.1 hk with hk | hk
    · have hk := hsub.subset hk
      simp only [List.mem_append, openIds] at hk ⊢
      rcases hk with (hk | hk) | hk
      · exact .inl (.inl (.inl hk))
      · exact .inr (hkept k hk).1
      · exact .inl (.inr hk)
    · exact List.mem_append_right _ (hkept k (hkeys ▸ hk)).1
  · intro _ _ hp
    simp [Phase.connecting] at hp

theorem Once.read (h : c.Once executed drawn) (hr : c.read = some c') : c'.Once executed drawn := by
  obtain ⟨l, m, down, hl, hd, hcases⟩ := Client.read_cases hr
  cases hcases with
  | clock hp hm =>
    subst hm
    have hc : Connecting executed c l := h.connecting l hl (by rw [hp]; rfl)
    refine h.shrink h.wf rfl ?_ (fun _ hk => hk) rfl ?_
    · refine openIds_sublist (List.Sublist.refl _) ?_ rfl
      rw [liveIds, liveIds, hl]
      exact List.Sublist.refl _
    · rintro _ ⟨⟩ -
      refine ⟨hc.noAck, hc.notSynced, fun hw => ?_, fun hj => ?_, fun A hA => ?_⟩
      · exact absurd (hc.unread hw) (by simp [hd])
      · have := hc.snapshot hj
        rwa [hd] at this
      · refine hc.covered A ?_
        rwa [hd]
  | kill hp sent => exact h.close hl (l.acceptable_take [] sent)
  | sync hp hm =>
    subst hm
    exact h.handleSync hl (by rw [hp]; rfl) hd
  | idle hp =>
    have hp' : c.phase.connecting = false := by rw [hp]; rfl
    exact (h.received hl fun hp => absurd hp (by simp [hp'])).handleIdle hp' m
  | last hp =>
    have hp' : c.phase.connecting = false := by rw [hp]; rfl
    have hreceived : (c.received l m down).Once executed drawn :=
      h.received hl fun hp => absurd hp (by simp [hp'])
    have hidle := hreceived.handleIdle hp' m
    exact hidle.shrink hidle.wf rfl (List.Sublist.refl _) (fun _ hk => hk) rfl nofun

/-! ## Steps of the server -/

/-- The server reads a message and executes nothing.  When it takes the snapshot, the kept actions
that it has executed are on its stack and none is unread on a closed connection. -/
theorem Once.serverRead (h : c.Once executed drawn) {server : NetworkServer K}
    (hl : c.connection = some l) (hr : Reads server l (.done l'))
    (hok : l.participant = .waiting → ∀ k ∈ c.keptIds,
      (k ∈ executed → k ∈ server.stack.map Prod.fst) ∧ k ∉ c.staleIds) :
    Once executed drawn { c with connection := some l' } := by
  refine h.setConnection hl (Connection.acceptable_read hr) fun _ hc => ?_
  obtain ⟨hno, hsync, hunread, hsnap, hcov⟩ := hc
  rcases l with ⟨up, down, participant, processed, delivered, removed⟩
  generalize hr' : Connection.Reading.done l' = r at hr
  cases hr with
  | start hp hup =>
    cases hr'
    obtain rfl : participant = .waiting := hp
    obtain rfl : up = _ := hup
    obtain rfl : down = [] := hunread rfl
    refine ⟨fun m hm => hno m (List.mem_cons_of_mem _ hm), nofun, nofun, fun _ => rfl, ?_⟩
    rintro _ ⟨⟩
    exact hok rfl
  | kick hup =>
    cases hr'
    obtain rfl : up = _ := hup
    exact ⟨fun m hm => hno m (List.mem_cons_of_mem _ hm), nofun, nofun, nofun, hcov⟩
  | @ack b m up' hp hup hm =>
    obtain rfl : up = m :: up' := hup
    have := hno m (List.mem_cons_self ..)
    simp [hm] at this
  | @skip b m up' hp hup hm =>
    cases hr'
    obtain rfl : up = m :: up' := hup
    exact ⟨fun m hm => hno m (List.mem_cons_of_mem _ hm), hsync, hunread, hsnap, hcov⟩
  | accept => cases hr'

/-- Another party's action has been executed. -/
theorem Once.foreign (h : c.Once executed drawn) {k : ClientActionId} (hk : k.clientId ≠ c.ui.id) :
    c.Once (executed ++ [k]) drawn where
  wf := h.wf
  nodup := h.nodup
  fresh k' hk' := by
    have : k' ≠ k := fun he => hk (he ▸ (h.owned k' (List.mem_append_left _ hk')).1)
    simpa [this] using h.fresh k' hk'
  apart := h.apart
  owned := h.owned
  connecting l hl hp := by
    have hc := h.connecting l hl hp
    refine ⟨hc.noAck, hc.notSynced, hc.unread, hc.snapshot, fun A hA k' hk' => ?_⟩
    have : k' ≠ k := fun he => hk (he ▸ (h.owned k' (List.mem_append_right _ hk')).1)
    simpa [this] using hc.covered A hA k' hk'

/-- One open action of the client has been executed and is not open any more. -/
theorem Once.execute (h : c.Once executed drawn) {k : ClientActionId}
    (hopen : (k :: c'.openIds).Perm c.openIds) (hkept : c'.unconfirmed = c.unconfirmed)
    (hui : c'.ui = c.ui)
    (hconn : ∀ l, c'.connection = some l → c'.phase.connecting = true →
      Connecting (executed ++ [k]) c' l) : c'.Once (executed ++ [k]) drawn := by
  obtain ⟨hk, hnd⟩ := List.nodup_cons.1 (hopen.nodup_iff.2 h.nodup)
  have hsub : ∀ k' ∈ c'.openIds, k' ∈ c.openIds := fun k' hk' =>
    hopen.subset (List.mem_cons_of_mem _ hk')
  refine ⟨by rw [hkept]; exact h.wf, hnd, fun k' hk' => ?_, ?_, ?_, hconn⟩
  · have : k' ≠ k := fun he => hk (he ▸ hk')
    simpa [this] using h.fresh k' (hsub k' hk')
  · rw [keptIds, hkept, hui]
    exact h.apart
  · rw [keptIds, hkept, hui]
    intro k' hk'
    refine h.owned k' ?_
    rcases List.mem_append.1 hk' with hk' | hk'
    · exact List.mem_append_left _ (hsub k' hk')
    · exact List.mem_append_right _ hk'

/-- The server accepts an action from the connection. -/
theorem Once.accept (h : c.Once executed drawn) {server : NetworkServer K} {a : Acceptance}
    {p : K.Param} (hl : c.connection = some l) (hr : Reads server l (.accept l' a p)) :
    Once (executed ++ [a.actionId]) drawn
      { c with connection := some (l'.deliver (.actionAck a.actionId)) } := by
  obtain ⟨hacc, hp⟩ := Connection.acceptable_accept hr
  refine h.execute ?_ rfl rfl fun l₁ hl₁ hconn => ?_
  · simp only [openIds, staleIds, liveIds, hl, Option.elim_some, Connection.acceptable_deliver, hacc]
    simp only [List.append_assoc, List.cons_append]
    exact List.perm_middle.symm
  · exact absurd hp (h.connecting l hl hconn).notSynced

theorem staleIds_set {n : ℕ} {stale : List (Connection K)} (hn : stale[n]? = some l) :
    ∃ pre post, stale.flatMap (·.acceptable) = pre ++ l.acceptable ++ post ∧
      ∀ l', (stale.set n l').flatMap (·.acceptable) = pre ++ l'.acceptable ++ post := by
  obtain ⟨hlt, rfl⟩ := List.getElem?_eq_some_iff.1 hn
  refine ⟨(stale.take n).flatMap (·.acceptable), (stale.drop (n + 1)).flatMap (·.acceptable), ?_,
    fun l' => ?_⟩
  · have hsplit : stale = stale.take n ++ stale[n] :: stale.drop (n + 1) := by
      rw [← List.drop_eq_getElem_cons hlt, List.take_append_drop]
    have := congrArg (List.flatMap (·.acceptable)) hsplit
    simpa only [List.flatMap_append, List.flatMap_cons, ← List.append_assoc] using this
  · rw [List.set_eq_take_append_cons_drop, if_pos hlt]
    simp

/-- A closed connection loses acceptable actions. -/
theorem Once.setStale (h : c.Once executed drawn) {n : ℕ} (hn : c.stale[n]? = some l)
    (hacc : l'.acceptable.Sublist l.acceptable) :
    Once executed drawn { c with stale := c.stale.set n l' } := by
  obtain ⟨pre, post, hold, hnew⟩ := staleIds_set hn
  have hsub : (Client.staleIds { c with stale := c.stale.set n l' }).Sublist c.staleIds := by
    simp only [staleIds, hold, hnew]
    exact ((List.Sublist.refl _).append hacc).append (List.Sublist.refl _)
  exact h.shrink h.wf rfl (openIds_sublist hsub (List.Sublist.refl _) rfl) (fun _ hk => hk) rfl
    fun l hl hp => (h.connecting l hl hp).mono (fun _ hk => hk) hsub.subset

/-- A `SYNC` for every participant. -/
theorem Once.broadcastSync (h : c.Once executed drawn) (m : ServerMessage K) :
    (c.broadcastSync m).Once executed drawn := by
  have hsub : (c.broadcastSync m).staleIds.Sublist c.staleIds := by
    simp only [staleIds, Client.broadcastSync]
    induction c.stale with
    | nil => exact List.Sublist.refl _
    | cons l stale ih => exact (l.acceptable_deliverSync m).append ih
  refine h.shrink h.wf rfl (openIds_sublist hsub ?_ rfl) (fun _ hk => hk) rfl ?_
  · cases hl : c.connection with
    | none => simp [liveIds, Client.broadcastSync, hl]
    | some l => simpa [liveIds, Client.broadcastSync, hl] using l.acceptable_deliverSync m
  · intro l' hl' hp
    obtain ⟨l, hl, rfl⟩ := Option.map_eq_some_iff.1 hl'
    exact ((h.connecting l hl hp).deliverSync m).mono (fun _ hk => hk) hsub.subset

/-- The server accepts an action from a closed connection. -/
theorem Once.acceptStale (h : c.Once executed drawn) {server : NetworkServer K} {a : Acceptance}
    {p : K.Param} {n : ℕ} (hn : c.stale[n]? = some l) (hr : Reads server l (.accept l' a p)) :
    Once (executed ++ [a.actionId]) drawn { c with stale := c.stale.set n l' } := by
  obtain ⟨hacc, -⟩ := Connection.acceptable_accept hr
  obtain ⟨pre, post, hold, hnew⟩ := staleIds_set hn
  have hk : a.actionId ∈ c.staleIds := by simp [staleIds, hold, hacc]
  have hsub : (Client.staleIds { c with stale := c.stale.set n l' }).Sublist c.staleIds := by
    simp only [staleIds, hold, hnew, hacc]
    exact ((List.Sublist.refl _).append (List.sublist_cons_self _ _)).append (List.Sublist.refl _)
  refine h.execute ?_ rfl rfl fun l₁ hl₁ hconn => ?_
  · simp only [openIds, staleIds, liveIds, hold, hnew, hacc]
    simp only [List.append_assoc, List.cons_append]
    exact List.perm_middle.symm
  · have hc := h.connecting l₁ hl₁ hconn
    refine ⟨hc.noAck, hc.notSynced, hc.unread, hc.snapshot, fun A hA k' hk' => ?_⟩
    obtain ⟨hex, hst⟩ := hc.covered A hA k' hk'
    have : k' ≠ a.actionId := fun he => hst (he ▸ hk)
    exact ⟨fun hk'' => hex (by simpa [this] using hk''), fun hk'' => hst (hsub.subset hk'')⟩

end Client

/-! ## Runs -/

variable {ι : Type}

namespace System

/-- The executed ids. -/
def executed (s : System ι K) : List ClientActionId := s.history.map (·.actionId)

/-- The client whose connection the server answers with its snapshot. -/
def snapshots (s : System ι K) : Event ι K → Option ι
  | .serverRead i =>
    if (s.clients i).connection.map (·.participant) = some .waiting then some i else none
  | _ => none

/-- Drawn ids are new.  When the server takes the snapshot for a client, the actions that the client
keeps as unconfirmed and that have been executed are on the stack, and none of them is unread on a
closed connection. -/
def SafeResend (s : System ι K) (e : Event ι K) : Prop :=
  (∀ k ∈ s.draws e, k ∉ s.drawn) ∧
    ∀ i ∈ s.snapshots e, ∀ k ∈ (s.clients i).keptIds,
      (k ∈ s.executed → k ∈ s.server.stack.map Prod.fst) ∧ k ∉ (s.clients i).staleIds

instance (s : System ι K) (e : Event ι K) : Decidable (s.SafeResend e) :=
  inferInstanceAs (Decidable ((∀ k ∈ s.draws e, k ∉ s.drawn) ∧
    ∀ i ∈ s.snapshots e, ∀ k ∈ (s.clients i).keptIds,
      (k ∈ s.executed → k ∈ s.server.stack.map Prod.fst) ∧ k ∉ (s.clients i).staleIds))

/-- No id has been executed twice, and none will be from what is under way. -/
structure ExactlyOnce (s : System ι K) : Prop where
  executed_nodup : s.executed.Nodup
  executed_drawn : ∀ k ∈ s.executed, k ∈ s.drawn
  master_nodup : (postedIds s.master.posted).Nodup
  master_fresh : ∀ k ∈ postedIds s.master.posted,
    k ∉ s.executed ∧ k ∈ s.drawn ∧ k.clientId = s.master.id
  ids_ne : ∀ i j, i ≠ j → (s.clients i).ui.id ≠ (s.clients j).ui.id
  master_ne : ∀ i, (s.clients i).ui.id ≠ s.master.id
  clients : ∀ j, (s.clients j).Once s.executed s.drawn

end System

/-- Reading a message leaves the store manager alone. -/
theorem Client.read_ui {c c' : Client K} (h : c.read = some c') : c'.ui = c.ui := by
  obtain ⟨l, m, down, hl, hd, hcases⟩ := Client.read_cases h
  have hidle : ∀ c : Client K, (c.handleIdle m).ui = c.ui := by
    intro c
    cases m <;> simp only [handleIdle] <;> try rfl
    split <;> rfl
  cases hcases with
  | clock => rfl
  | kill => rfl
  | sync hp hm =>
    subst hm
    rw [Client.handleSync_eq]
  | idle => exact hidle _
  | last => exact hidle _

theorem clientStep_id {s : System ι K} {j : ι} {e : Event ι K} {server' : NetworkServer K}
    {new : List Acceptance} {c' : Client K} (h : ClientStep s j e server' new c') :
    c'.ui.id = (s.clients j).ui.id := by
  cases h with
  | dispatch h =>
    obtain ⟨k, -, -, hid, -⟩ := StoreManager.dispatch_posted h
    exact hid
  | signal h hu => exact (StoreManager.receive_posted hu).1
  | read h => rw [Client.read_ui h]
  | kill h =>
    unfold Client.killConnection
    split <;> rfl
  | _ => rfl

theorem masterStep_id {s : System ι K} {e : Event ι K} {master : StoreManager K}
    (h : MasterStep s e master) : master.id = s.master.id := by
  cases h with
  | dispatch h =>
    obtain ⟨k, -, -, hid, -⟩ := StoreManager.dispatch_posted h
    exact hid
  | undo h => exact (StoreManager.undo_posted h).1
  | signal h hm => exact (StoreManager.receive_posted hm).1
  | _ => rfl

theorem Client.Once.drawn_mono {executed drawn : List ClientActionId} {c : Client K}
    (h : c.Once executed drawn) (ks : List ClientActionId) : c.Once executed (drawn ++ ks) where
  wf := h.wf
  nodup := h.nodup
  fresh := h.fresh
  apart := h.apart
  owned k hk := ⟨(h.owned k hk).1, List.mem_append_left _ (h.owned k hk).2⟩
  connecting := h.connecting

namespace System

variable {s s' : System ι K}

/-- The id of an executed action was open for its sender and not executed before. -/
theorem executes_open (hs : s.ExactlyOnce) {e : Event ι K} {new : List Acceptance}
    (h : Executes s e new) : ∀ a ∈ new, a.actionId ∉ s.executed ∧ a.actionId ∈ s.drawn := by
  intro a ha
  have hopen : ∀ i : ι, a.actionId ∈ (s.clients i).openIds →
      a.actionId ∉ s.executed ∧ a.actionId ∈ s.drawn := fun i hi =>
    ⟨(hs.clients i).fresh _ hi, ((hs.clients i).owned _ (List.mem_append_left _ hi)).2⟩
  cases h with
  | nothing => simp at ha
  | @master k p posted hp =>
    obtain rfl := List.mem_singleton.1 ha
    have := hs.master_fresh k (by simp [hp, postedIds])
    exact ⟨this.1, this.2.1⟩
  | @live i l l' a' p hl hr =>
    obtain rfl := List.mem_singleton.1 ha
    refine hopen i ?_
    obtain ⟨hacc, -⟩ := Connection.acceptable_accept (Connection.read_cases hr)
    simp [Client.openIds, Client.liveIds, hl, hacc]
  | @stale i n l l' a' p hl hr =>
    obtain rfl := List.mem_singleton.1 ha
    refine hopen i ?_
    obtain ⟨hacc, -⟩ := Connection.acceptable_accept (Connection.read_cases hr)
    obtain ⟨pre, post, hold, -⟩ := Client.staleIds_set hl
    simp [Client.openIds, Client.staleIds, hold, hacc]

/-- An action accepted from the client `i` belongs to it. -/
theorem executes_owner (hs : s.ExactlyOnce) {i : ι} {l l' : Connection K} {a : Acceptance}
    {p : K.Param} (hl : (s.clients i).connection = some l ∨ ∃ n : ℕ, (s.clients i).stale[n]? = some l)
    (hr : l.read s.server = some (.accept l' a p)) :
    a.actionId.clientId = (s.clients i).ui.id := by
  obtain ⟨hacc, -⟩ := Connection.acceptable_accept (Connection.read_cases hr)
  refine ((hs.clients i).owned a.actionId (List.mem_append_left _ ?_)).1
  rcases hl with hl | ⟨n, hl⟩
  · simp [Client.openIds, Client.liveIds, hl, hacc]
  · obtain ⟨pre, post, hold, -⟩ := Client.staleIds_set hl
    simp [Client.openIds, Client.staleIds, hold, hacc]

theorem clientStep_once (hs : s.ExactlyOnce) {e : Event ι K} (hok : s.SafeResend e) {j : ι}
    {server' : NetworkServer K} {new : List Acceptance} {c' : Client K}
    (h : ClientStep s j e server' new c') :
    c'.Once (s.executed ++ new.map (·.actionId)) (s.drawn ++ (s.draws e).toList) := by
  have hc := hs.clients j
  -- the steps that execute nothing and draw nothing
  have quiet : ∀ {c₁ : Client K}, c₁.Once s.executed s.drawn →
      c₁.Once (s.executed ++ ([] : List Acceptance).map (·.actionId))
        (s.drawn ++ (s.draws e).toList) := by
    intro c₁ h₁
    rw [List.map_nil, List.append_nil]
    exact h₁.drawn_mono _
  cases h with
  | stay => exact quiet hc
  | @dispatch draws p ui hd =>
    obtain ⟨k, hk, -⟩ := StoreManager.dispatch_posted hd
    have hnew : k ∉ s.drawn := hok.1 k hk
    have := hc.dispatch hd hk hnew fun hex => hnew (hs.executed_drawn k hex)
    simpa [System.draws, hk] using this
  | post hp => exact quiet (hc.post hp)
  | signal hsig hu =>
    obtain ⟨hid, hposted⟩ := StoreManager.receive_posted hu
    refine quiet (hc.shrink hc.wf hid ?_ (fun _ hk => hk) (by rw [hposted]) ?_)
    · exact Client.openIds_sublist (List.Sublist.refl _) (List.Sublist.refl _) (by rw [hposted])
    · exact fun l hl hp => (hc.connecting l hl hp).mono (fun _ hk => hk) fun _ hk => hk
  | connect hn =>
    refine quiet (hc.shrink hc.wf rfl ?_ (fun _ hk => hk) rfl ?_)
    · refine Client.openIds_sublist (List.Sublist.refl _) ?_ rfl
      exact List.nil_sublist _
    · rintro _ ⟨⟩ -
      exact ⟨by simp [Connection.init], (by rintro ⟨⟩), fun _ => rfl, (by rintro ⟨⟩), (by rintro _ ⟨⟩)⟩
  | join hp =>
    exact quiet (hc.deliver (fun _ => rfl) (fun _ => rfl) fun _ => by rw [hp]; rfl)
  | read hr => exact quiet (hc.read hr)
  | quit hp => exact quiet (hc.deliver (fun _ => rfl) (fun _ => rfl) (by rintro ⟨⟩))
  | kill => exact quiet (hc.kill _)
  | @serverRead l l' hl hr =>
    refine quiet (hc.serverRead hl (Connection.read_cases hr) fun hw => ?_)
    exact hok.2 j (by simp [snapshots, hl, hw])
  | accept hl hr hp =>
    have := hc.accept hl (Connection.read_cases hr)
    exact this.drawn_mono _
  | serverReadStale hn hr =>
    have hacc := Connection.acceptable_read (Connection.read_cases hr)
    exact quiet (hc.setStale hn hacc)
  | acceptStale hn hr hp =>
    have := hc.acceptStale hn (Connection.read_cases hr)
    exact (this.broadcast _).drawn_mono _
  | leave hl =>
    refine quiet (hc.setConnection hl (List.nil_sublist _) fun _ h => ?_)
    exact ⟨h.noAck, (by rintro ⟨⟩), (by rintro ⟨⟩), (by rintro ⟨⟩), h.covered⟩
  | leaveStale hn => exact quiet (hc.setStale hn (List.nil_sublist _))
  | remove hl =>
    refine quiet (hc.setConnection hl (List.Sublist.refl _) fun _ h => ?_)
    exact ⟨h.noAck, h.notSynced, h.unread, h.snapshot, h.covered⟩
  | removeStale hn => exact quiet (hc.setStale hn (List.Sublist.refl _))
  | @masterAction k p posted server' hp =>
    have hown := (hs.master_fresh k (by simp [hp, postedIds])).2.2
    have := hc.foreign (k := k) fun he => hs.master_ne j (he.symm.trans hown)
    exact (this.broadcast _).drawn_mono _
  | masterUndo => exact quiet (hc.broadcast _)
  | masterSync => exact quiet (hc.broadcastSync _)
  | otherAction hi hl hr hp =>
    have hown := executes_owner hs (.inl hl) hr
    have := hc.foreign fun he => hs.ids_ne _ _ hi (hown.symm.trans he)
    exact (this.broadcast _).drawn_mono _
  | otherStaleAction hi hl hr hp =>
    have hown := executes_owner hs (.inr ⟨_, hl⟩) hr
    have := hc.foreign fun he => hs.ids_ne _ _ hi (hown.symm.trans he)
    exact (this.broadcast _).drawn_mono _

/-- An executed action that is not the master's belongs to a client. -/
theorem executes_ne_master (hs : s.ExactlyOnce) {e : Event ι K} {new : List Acceptance}
    (h : Executes s e new) (he : e ≠ .serverPost) :
    ∀ a ∈ new, a.actionId.clientId ≠ s.master.id := by
  intro a ha
  cases h with
  | nothing => simp at ha
  | master => exact absurd rfl he
  | live hl hr =>
    obtain rfl := List.mem_singleton.1 ha
    rw [executes_owner hs (.inl hl) hr]
    exact hs.master_ne _
  | stale hl hr =>
    obtain rfl := List.mem_singleton.1 ha
    rw [executes_owner hs (.inr ⟨_, hl⟩) hr]
    exact hs.master_ne _

/-- The actions that the master has posted stay fresh. -/
theorem masterStep_fresh (hs : s.ExactlyOnce) {e : Event ι K} (hok : s.SafeResend e)
    {master : StoreManager K} {new : List Acceptance} (hm : MasterStep s e master)
    (hnew : Executes s e new) :
    (postedIds master.posted).Nodup ∧ ∀ k ∈ postedIds master.posted,
      k ∉ s.executed ++ new.map (·.actionId) ∧ k ∈ s.drawn ++ (s.draws e).toList ∧
        k.clientId = s.master.id := by
  -- a posted action of the master is not executed by a step that is not the master's
  have other : e ≠ .serverPost → ∀ k, k.clientId = s.master.id → k ∉ new.map (·.actionId) := by
    intro he k hk hmem
    obtain ⟨a, ha, rfl⟩ := List.mem_map.1 hmem
    exact executes_ne_master hs hnew he a ha hk
  have same : e ≠ .serverPost → postedIds master.posted = postedIds s.master.posted →
      (postedIds master.posted).Nodup ∧ ∀ k ∈ postedIds master.posted,
        k ∉ s.executed ++ new.map (·.actionId) ∧ k ∈ s.drawn ++ (s.draws e).toList ∧
          k.clientId = s.master.id := by
    intro he hp
    rw [hp]
    refine ⟨hs.master_nodup, fun k hk => ?_⟩
    obtain ⟨hex, hd, hid⟩ := hs.master_fresh k hk
    refine ⟨?_, List.mem_append_left _ hd, hid⟩
    rw [List.mem_append, not_or]
    exact ⟨hex, other he k hid⟩
  cases hm with
  | stay he => exact same he rfl
  | @dispatch draws p _ h =>
    obtain ⟨k, hk, hown, -, hposted⟩ := StoreManager.dispatch_posted h
    have hnewk : k ∉ s.drawn := hok.1 k hk
    have hids : postedIds master.posted = postedIds s.master.posted ++ [k] := by
      simp [hposted, postedIds]
    have hkex : k ∉ s.executed := fun hex => hnewk (hs.executed_drawn k hex)
    rw [hids]
    constructor
    · refine List.nodup_append.2 ⟨hs.master_nodup, List.nodup_singleton k, ?_⟩
      rintro a ha b hb rfl
      exact hnewk (List.mem_singleton.1 hb ▸ (hs.master_fresh a ha).2.1)
    · intro a ha
      rcases List.mem_append.1 ha with ha | ha
      · obtain ⟨hex, hd, hid⟩ := hs.master_fresh a ha
        refine ⟨?_, List.mem_append_left _ hd, hid⟩
        rw [List.mem_append, not_or]
        exact ⟨hex, other (by rintro ⟨⟩) a hid⟩
      · obtain rfl := List.mem_singleton.1 ha
        refine ⟨?_, by simp [System.draws, hk], hown⟩
        rw [List.mem_append, not_or]
        exact ⟨hkex, other (by rintro ⟨⟩) a hown⟩
  | undo h =>
    rcases (StoreManager.undo_posted h).2 with hp | hp
    · exact same (by rintro ⟨⟩) (by rw [hp])
    · exact same (by rintro ⟨⟩) (by simp [hp, postedIds])
  | sync t =>
      exact same (by rintro ⟨⟩) (by simp [StoreManager.sync, StoreManager.post, StoreManager.emit, postedIds])
  | signal h hm => exact same (by rintro ⟨⟩) (by rw [(StoreManager.receive_posted hm).2])
  | @post call posted hp =>
    have hsub : (postedIds posted).Sublist (postedIds s.master.posted) := by
      rw [hp]
      exact (List.sublist_cons_self call posted).filterMap _
    refine ⟨hsub.nodup hs.master_nodup, fun k hk => ?_⟩
    obtain ⟨hex, hd, hid⟩ := hs.master_fresh k (hsub.subset hk)
    refine ⟨?_, List.mem_append_left _ hd, hid⟩
    rw [List.mem_append, not_or]
    refine ⟨hex, ?_⟩
    cases hnew with
    | nothing => simp
    | @master k' p' posted' hp' =>
      rw [hp] at hp'
      obtain ⟨rfl, rfl⟩ := List.cons.inj hp'
      have hnd := hs.master_nodup
      rw [hp] at hnd
      have hk' : k' ∉ postedIds posted := (List.nodup_cons.1 hnd).1
      intro hmem
      obtain rfl : k = k' := List.mem_singleton.1 hmem
      exact hk' hk

theorem step_exactlyOnce [DecidableEq ι] {e : Event ι K} (hs : s.ExactlyOnce)
    (hok : s.SafeResend e) (h : s.step e = some s') : s'.ExactlyOnce := by
  obtain ⟨new, hnew, hh, hcl⟩ := step_affects h
  obtain ⟨hm, hd⟩ := step_master h
  have hex : s'.executed = s.executed ++ new.map (·.actionId) := by
    simp [executed, hh]
  have hopen := executes_open hs hnew
  have hid : ∀ j, (s'.clients j).ui.id = (s.clients j).ui.id := fun j => clientStep_id (hcl j)
  have hmid := masterStep_id hm
  have hmaster := masterStep_fresh hs hok hm hnew
  constructor
  · rw [hex]
    refine List.nodup_append.2 ⟨hs.executed_nodup, ?_, ?_⟩
    · cases hnew <;> simp
    · rintro k hk k' hk' rfl
      obtain ⟨a, ha, rfl⟩ := List.mem_map.1 hk'
      exact (hopen a ha).1 hk
  · rw [hex, hd]
    intro k hk
    refine List.mem_append_left _ ?_
    rcases List.mem_append.1 hk with hk | hk
    · exact hs.executed_drawn k hk
    · obtain ⟨a, ha, rfl⟩ := List.mem_map.1 hk
      exact (hopen a ha).2
  · exact hmaster.1
  · rw [hex, hd, hmid]
    exact hmaster.2
  · intro i j hij
    rw [hid, hid]
    exact hs.ids_ne i j hij
  · intro i
    rw [hid, hmid]
    exact hs.master_ne i
  · intro j
    rw [hex, hd]
    exact clientStep_once hs hok (hcl j)

theorem init_exactlyOnce {masterId : ℕ} {ids : ι → ℕ} (hids : Function.Injective ids)
    (hm : ∀ i, ids i ≠ masterId) (t : T) (ts : ι → T) :
    (init K masterId t ids ts).ExactlyOnce where
  executed_nodup := List.nodup_nil
  executed_drawn := by simp [executed, init]
  master_nodup := List.nodup_nil
  master_fresh := by simp [init, StoreManager.init, postedIds]
  ids_ne i j hij he := hij (hids he)
  master_ne i := hm i
  clients j := {
    wf := Table.wf_empty
    nodup := List.nodup_nil
    fresh := by simp [Client.openIds, Client.staleIds, Client.liveIds, init, Client.init,
      StoreManager.init, postedIds]
    apart := by simp [Client.keptIds, init, Client.init, Table.empty]
    owned := by simp [Client.openIds, Client.staleIds, Client.liveIds, Client.keptIds, init,
      Client.init, StoreManager.init, postedIds, Table.empty]
    connecting := by simp [init, Client.init] }

/-- In every run in which drawn ids are new and the server takes the snapshot for a client only when
the executed actions among those that the client keeps are on the stack and none of them is unread on
a closed connection, no action is executed twice. -/
theorem run_executes_once [DecidableEq ι] {masterId : ℕ} {ids : ι → ℕ}
    (hids : Function.Injective ids) (hm : ∀ i, ids i ≠ masterId) (t : T) (ts : ι → T)
    (es : List (Event ι K)) (hes : Runs.Guarded step SafeResend es (init K masterId t ids ts))
    {s : System ι K} (hrun : Runs.run step es (init K masterId t ids ts) = some s) :
    s.executed.Nodup :=
  (Runs.run_inv (fun _ _ _ => step_exactlyOnce) (init_exactlyOnce hids hm t ts) hes
    hrun).executed_nodup

/-- An action of the client is executed, but the connection breaks before the acknowledgement is
read. -/
def unacknowledged : List (Event (Fin 1) scoreActions) :=
  connecting ++ [.clientDispatch 0 [0] (1 : ℤ), .clientPost 0, .serverRead 0, .clientKill 0 0]

/-- The client connects again; the action is on the stack and is not resent. -/
theorem run_executes_once_reconnect :
    ∃ s, Runs.run step (unacknowledged ++ connecting) pair = some s ∧ s.executed = [⟨1, 0⟩] ∧
      s.executed.Nodup := by
  have h : (Runs.run step (unacknowledged ++ connecting) pair).map (·.executed) =
      some [⟨1, 0⟩] := by decide
  obtain ⟨s, hs, hh⟩ := Option.map_eq_some_iff.1 h
  exact ⟨s, hs, hh, run_executes_once (fun _ _ _ => Subsingleton.elim _ _) (by decide) (0 : ℤ)
    (fun _ => (0 : ℤ)) (unacknowledged ++ connecting) (by decide) hs⟩

/-- The master undoes the action before the client connects again. -/
def undoneMeanwhile : List (Event (Fin 1) scoreActions) :=
  unacknowledged ++ [.masterSignal, .masterUndo ⟨1, 0⟩, .serverPost] ++ connecting ++
    [.serverRead 0]

/-- The undone action is resent and executed again. -/
theorem undone_action_executed_again :
    ∃ s, Runs.run step undoneMeanwhile pair = some s ∧ s.executed = [⟨1, 0⟩, ⟨1, 0⟩] ∧
      ¬ s.executed.Nodup := by
  have h : (Runs.run step undoneMeanwhile pair).map (·.executed) = some [⟨1, 0⟩, ⟨1, 0⟩] := by
    decide
  obtain ⟨s, hs, hh⟩ := Option.map_eq_some_iff.1 h
  exact ⟨s, hs, hh, by rw [hh]; decide⟩

end System

end JudoAssistant
