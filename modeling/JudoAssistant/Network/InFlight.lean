import JudoAssistant.Network.Replica
import JudoAssistant.Network.Steps

/-!
# What is under way to a store manager

Everything under way to a store manager is a queue of signals.  `Client.Agrees` says that taking this
queue leads the store manager of a client to the tournament and the action stack of the server, with
the actions on top that the client still has to hand in; `StoreManager.Leads` says the same of the
master, which also has undos to hand in.  Both are kept by every step without a sync.
-/

namespace JudoAssistant

open Undoable

variable {T : Type} {K : ActionModel T}

/-! ## What is under way -/

/-- The signal that the handler of `NetworkClient::connectIdle` queues for a message. -/
def ServerMessage.toSignal : ServerMessage K → Option (Signal K)
  | .clockSync => none
  | .sync t actions => some (.syncReceived t actions [])
  | .action k p => some (.actionReceived k p)
  | .actionAck k => some (.actionConfirmReceived k)
  | .undo k => some (.undoReceived k)

/-- The action that a message of a client carries. -/
def sentAction : ℕ × ClientMessage K → Option (ClientActionId × K.Param)
  | (_, .action k p) => some (k, p)
  | _ => none

/-- The action of a posted call. -/
def Post.action : Post K → Option (ClientActionId × K.Param)
  | .postAction k p => some (k, p)
  | _ => none

/-- The action that a posted call undoes. -/
def Post.undo : Post K → Option ClientActionId
  | .postUndo k => some k
  | _ => none

/-- The id of an acknowledgement. -/
def ServerMessage.ackId : ServerMessage K → Option ClientActionId
  | .actionAck k => some k
  | _ => none

/-- The confirmed id of a signal. -/
def Signal.confirmId : Signal K → Option ClientActionId
  | .actionConfirmReceived k => some k
  | _ => none

/-- The actions of a client on their way to the server. -/
def Client.outgoing (c : Client K) (l : Connection K) : List (ClientActionId × K.Param) :=
  l.up.filterMap sentAction ++ c.ui.posted.filterMap Post.action

/-- Everything under way to the store manager of a client that is idle. -/
def Client.incoming (c : Client K) (l : Connection K) : List (Signal K) :=
  c.signals ++ l.down.filterMap ServerMessage.toSignal

namespace Replica

variable {r r' R : Replica K} {signal : Signal K}

/-- A confirmation takes the first pending action, other signals leave the pending ones alone. -/
theorem Receives.pending_eq (h : Receives r signal r') :
    r.pending.map Prod.fst = signal.confirmId.toList ++ r'.pending.map Prod.fst := by
  cases h with
  | confirm hp => simp [hp, Signal.confirmId]
  | _ => rfl

theorem receiveAll_pending {l : List (Signal K)} (hs : ∀ signal ∈ l, signal.isSync = false)
    (h : receiveAll l r = some R) :
    r.pending.map Prod.fst = l.filterMap Signal.confirmId ++ R.pending.map Prod.fst := by
  induction l generalizing r with
  | nil =>
    cases h
    rfl
  | cons signal l ih =>
    obtain ⟨r', hr', h⟩ := receiveAll_cons h
    have hr := receive_cases hr' (hs signal (by simp))
    rw [hr.pending_eq, ih (fun s hsl => hs s (List.mem_cons_of_mem _ hsl)) h]
    cases hid : signal.confirmId <;> simp [hid]

end Replica

/-! ## Clients -/

namespace Client

/-- The client is idle, and taking everything under way leads its store manager to the view `v` of
the server with its outgoing actions on top. -/
structure Agrees (v : View K) (l : Connection K) (base : T) (c : Client K) : Prop where
  phase : c.phase = .connectIdle
  connection : c.connection = some l
  joined : l.participant = .joined false
  listed : l.removed = false
  replay : StoreManager.ReplayInv base c.ui
  syncing : c.ui.syncing = 0
  queue : Replica.receiveAll (c.incoming l) (c.ui.replica base) =
    some ⟨c.ui.id, v, c.outgoing l, ∅⟩
  foreign : ∀ signal ∈ c.incoming l, signal.isSync = false ∧ signal.Foreign c.ui.id
  owned : ∀ a ∈ c.outgoing l, a.1.clientId = c.ui.id
  acked : ∀ k ∈ l.down.filterMap ServerMessage.ackId, c.unconfirmed.contains k = true
  kept : ∀ a ∈ l.up.filterMap sentAction, c.unconfirmed.contains a.1 = true
  sent : ∀ m ∈ l.up, isAction m = true
  posted : ∀ call ∈ c.ui.posted, call.action.isSome = true

variable {v : View K} {l : Connection K} {base : T} {c : Client K}

theorem Agrees.inParticipants (h : c.Agrees v l base) : l.inParticipants = true :=
  Connection.inParticipants_iff.2 ⟨⟨_, h.joined⟩, h.listed⟩

/-- The handler of the idle loop in terms of the signal that it queues. -/
theorem handleIdle_eq {m : ServerMessage K} (hm : isSync m = false)
    (hk : ∀ k, m.ackId = some k → c.unconfirmed.contains k = true) :
    c.handleIdle m = { c with
      signals := c.signals ++ m.toSignal.toList
      unconfirmed := m.ackId.elim c.unconfirmed c.unconfirmed.erase } := by
  cases m with
  | sync t actions => simp [isSync] at hm
  | actionAck k => simp [handleIdle, hk k rfl, signal, ServerMessage.toSignal, ServerMessage.ackId]
  | clockSync => simp [handleIdle, ServerMessage.toSignal, ServerMessage.ackId]
  | action k p => simp [handleIdle, signal, ServerMessage.toSignal, ServerMessage.ackId]
  | undo k => simp [handleIdle, signal, ServerMessage.toSignal, ServerMessage.ackId]

namespace Agrees

/-- The actions that are pending or outgoing, in order. -/
theorem pending_eq (h : c.Agrees v l base) :
    keys c.ui.unconfirmedActionList = (c.incoming l).filterMap Signal.confirmId ++
      (c.outgoing l).map Prod.fst := by
  have := Replica.receiveAll_pending (fun s hs => (h.foreign s hs).1) h.queue
  rw [← this]
  exact (keys_items _).symm

/-- Nothing is sent or acknowledged twice. -/
theorem ids_nodup (h : c.Agrees v l base) : (l.down.filterMap ServerMessage.ackId ++
    (l.up.filterMap sentAction).map Prod.fst).Nodup := by
  have hack : (fun m : ServerMessage K => m.toSignal.bind Signal.confirmId) =
      ServerMessage.ackId := by
    funext m
    cases m <;> rfl
  have hU : (keys c.ui.unconfirmedActionList).Nodup :=
    (List.sublist_append_right _ _).nodup (by simpa only [keys_append] using h.replay.books.nodup)
  rw [h.pending_eq, incoming, outgoing, List.filterMap_append, List.filterMap_filterMap, hack,
    List.map_append, List.append_assoc, ← List.append_assoc (List.filterMap _ l.down)] at hU
  exact (List.nodup_append.1 (List.nodup_append.1 hU).2.1).1

theorem listed_nodup (h : c.Agrees v l base) : (v.ids ++ (c.outgoing l).map Prod.fst).Nodup :=
  Replica.receiveAll_nodup (fun s hs => (h.foreign s hs).1) h.queue
    (StoreManager.listed_nodup h.replay)

theorem dispatch (h : c.Agrees v l base) {draws : List ℕ}
    (hd : (c.ui.drawActionId draws).isSome = true) (p : K.Param) :
    ∃ ui, c.ui.dispatch draws p = some ui ∧ ui.id = c.ui.id ∧
      Agrees v l base { c with ui := ui } := by
  obtain ⟨k, hk⟩ := Option.isSome_iff_exists.1 hd
  obtain ⟨ui, hui, ho⟩ := StoreManager.dispatch_spec h.replay hk p
  have hown : k.clientId = c.ui.id := (StoreManager.drawActionId_spec h.replay hk).1
  have hnew : ∀ a ∈ [(k, p)], a.1.clientId = c.ui.id := by simpa using hown
  have hout : outgoing { c with ui := ui } l = c.outgoing l ++ [(k, p)] := by
    simp [outgoing, ho.posted_eq, Post.action]
  refine ⟨ui, hui, ho.id_eq, ?_⟩
  exact {
    phase := h.phase
    connection := h.connection
    joined := h.joined
    listed := h.listed
    replay := ho.inv
    syncing := ho.syncing_eq.trans h.syncing
    queue := by
      have := Replica.receiveAll_extend h.foreign h.queue hnew
      rw [hout, ho.id_eq, ho.replica_eq]
      exact this
    foreign := by
      rw [ho.id_eq]
      exact h.foreign
    owned := by
      rw [hout, ho.id_eq]
      intro a ha
      rcases List.mem_append.1 ha with ha | ha
      · exact h.owned a ha
      · exact hnew a ha
    acked := h.acked
    kept := h.kept
    sent := h.sent
    posted := by
      rw [ho.posted_eq]
      intro call hcall
      rcases List.mem_append.1 hcall with hcall | hcall
      · exact h.posted call hcall
      · rw [List.mem_singleton.1 hcall]
        rfl }

theorem post (h : c.Agrees v l base) {k : ClientActionId} {p : K.Param} {posted : List (Post K)}
    (hp : c.ui.posted = .postAction k p :: posted) :
    ∃ l', Agrees v l' base
      ({ c with ui := { c.ui with posted := posted } }.postAction k p) := by
  have hout : outgoing { c with ui := { c.ui with posted := posted } } (l.send (.action k p)) =
      c.outgoing l := by
    simp [outgoing, hp, Connection.send, Post.action, sentAction]
  refine ⟨l.send (.action k p), ?_⟩
  exact {
    phase := h.phase
    connection := by simp [postAction, Client.deliver, h.connection]
    joined := h.joined
    listed := h.listed
    replay := ⟨h.replay.chain, h.replay.marked, h.replay.books⟩
    syncing := h.syncing
    queue := hout ▸ h.queue
    foreign := h.foreign
    owned := hout ▸ h.owned
    acked := fun k' hk' => by simp [postAction, Client.deliver, Table.contains_push, h.acked k' hk']
    kept := by
      intro a ha
      simp only [Connection.send, List.filterMap_append, List.mem_append] at ha
      rcases ha with ha | ha
      · simp [postAction, Client.deliver, Table.contains_push, h.kept a ha]
      · simp only [sentAction, List.filterMap_cons, List.filterMap_nil, List.mem_singleton] at ha
        simp [postAction, Client.deliver, Table.contains_push, ha]
    sent := by
      intro m hm
      rcases List.mem_append.1 hm with hm | hm
      · exact h.sent m hm
      · rw [List.mem_singleton.1 hm]
        rfl
    posted := fun call hcall => h.posted call (hp ▸ List.mem_cons_of_mem _ hcall) }

theorem signal (h : c.Agrees v l base) {signal : Signal K} {signals : List (Signal K)}
    (hs : c.signals = signal :: signals) :
    ∃ ui base', c.ui.receive signal = some ui ∧ ui.id = c.ui.id ∧
      Agrees v l base' { c with ui := ui, signals := signals } := by
  have hin : c.incoming l = signal :: incoming { c with signals := signals } l := by
    simp [incoming, hs]
  have hq := h.queue
  have hf := h.foreign
  rw [hin] at hq hf
  obtain ⟨r', hr', hq⟩ := Replica.receiveAll_cons hq
  obtain ⟨ui, base', hui, hinv, rfl, hposted, hsy⟩ :=
    StoreManager.receive_refines h.replay h.syncing hr'
  have hid : ui.id = c.ui.id := (StoreManager.receive_posted hui).1
  have hout : outgoing { c with ui := ui, signals := signals } l = c.outgoing l := by
    simp [outgoing, hposted]
  refine ⟨ui, base', hui, hid, ?_⟩
  exact {
    phase := h.phase
    connection := h.connection
    joined := h.joined
    listed := h.listed
    replay := hinv
    syncing := hsy
    queue := by
      rw [hout, hid]
      exact hq
    foreign := by
      rw [hid]
      exact fun s hsl => hf s (List.mem_cons_of_mem _ hsl)
    owned := by
      rw [hout, hid]
      exact h.owned
    acked := h.acked
    kept := h.kept
    sent := h.sent
    posted := hposted ▸ h.posted }

/-- A message of the server is sent to the client, which has got rid of some outgoing actions. -/
theorem deliver (h : c.Agrees v l base) {m : ServerMessage K} {signal : Signal K} {v' : View K}
    {up : List (ℕ × ClientMessage K)} (hm : m.toSignal = some signal)
    (hf : signal.isSync = false ∧ signal.Foreign c.ui.id) (hup : up.Sublist l.up)
    (hr : Replica.receive ⟨c.ui.id, v, c.outgoing l, ∅⟩ signal =
      some ⟨c.ui.id, v', c.outgoing { l with up := up }, ∅⟩)
    (hk : ∀ k, m.ackId = some k → c.unconfirmed.contains k = true) :
    Agrees v' { l with up := up, down := l.down ++ [m] } base
      { c with connection := some { l with up := up, down := l.down ++ [m] } } := by
  have hin : c.incoming { l with up := up, down := l.down ++ [m] } = c.incoming l ++ [signal] := by
    simp [incoming, hm]
  have hsub := hup.filterMap sentAction
  exact {
    phase := h.phase
    connection := rfl
    joined := h.joined
    listed := h.listed
    replay := h.replay
    syncing := h.syncing
    queue := by
      refine Eq.trans ?_ hr
      exact hin ▸ Replica.receiveAll_concat h.queue signal
    foreign := by
      intro s hs
      rcases List.mem_append.1 ((congrArg (s ∈ ·) hin).mp hs) with hs | hs
      · exact h.foreign s hs
      · exact List.mem_singleton.1 hs ▸ hf
    owned := fun a ha => h.owned a ((hsub.append_right _).subset ha)
    acked := by
      intro k hk'
      rw [List.filterMap_append, List.mem_append] at hk'
      rcases hk' with hk' | hk'
      · exact h.acked k hk'
      · obtain ⟨m', hm', hk'⟩ := List.mem_filterMap.1 hk'
        exact hk k (List.mem_singleton.1 hm' ▸ hk')
    kept := fun a ha => h.kept a (hsub.subset ha)
    sent := fun m hm => h.sent m (hup.subset hm)
    posted := h.posted }

/-- The server accepts the next outgoing action. -/
theorem accept (h : c.Agrees v l base) {n : ℕ} {k : ClientActionId} {p : K.Param}
    {up : List (ℕ × ClientMessage K)} (hup : l.up = (n, .action k p) :: up) :
    ∃ l', Agrees (v.push ∅ (k, p)) l' base { c with
      connection := some (({ l with up := up } : Connection K).deliver (.actionAck k)) } := by
  have hdeliver : ({ l with up := up } : Connection K).deliver (.actionAck k) =
      { l with up := up, down := l.down ++ [.actionAck k] } :=
    Connection.deliver_of_mem (l := { l with up := up }) h.inParticipants _
  have hout : c.outgoing l = (k, p) :: c.outgoing { l with up := up } := by
    simp [outgoing, hup, sentAction]
  rw [hdeliver]
  refine ⟨_, h.deliver (m := .actionAck k) rfl ⟨rfl, trivial⟩ ?_ ?_ ?_⟩
  · rw [hup]
    exact List.sublist_cons_self _ _
  · simp [Replica.receive, hout]
  · rintro k' ⟨⟩
    exact h.kept (k, p) (by simp [hup, sentAction])

/-- The server has executed an action of another party. -/
theorem broadcastAction (h : c.Agrees v l base) {k : ClientActionId} (p : K.Param)
    (hk : k.clientId ≠ c.ui.id) (hv : k ∉ v.ids) :
    ∃ l', Agrees (v.push ∅ (k, p)) l' base (c.broadcast (.action k p)) := by
  have hbroadcast : c.broadcast (.action k p) =
      { c with connection := some { l with up := l.up, down := l.down ++ [.action k p] } } := by
    simp [Client.broadcast, h.connection, Connection.deliver_of_mem h.inParticipants]
  rw [hbroadcast]
  refine ⟨_, h.deliver (m := .action k p) rfl ⟨rfl, hk⟩ (.refl _) (if_neg ?_) nofun⟩
  intro hk'
  rcases List.mem_append.1 hk' with hk' | hk'
  · exact hv hk'
  · obtain ⟨a, ha, rfl⟩ := List.mem_map.1 hk'
    exact hk (h.owned a ha)

/-- The server has undone an action. -/
theorem broadcastUndo (h : c.Agrees v l base) {k : ClientActionId} (hk : k ∈ v.ids) :
    ∃ l', Agrees (v.erase k) l' base (c.broadcast (.undo k)) := by
  have hbroadcast : c.broadcast (.undo k) =
      { c with connection := some { l with up := l.up, down := l.down ++ [.undo k] } } := by
    simp [Client.broadcast, h.connection, Connection.deliver_of_mem h.inParticipants]
  rw [hbroadcast]
  exact ⟨_, h.deliver (m := .undo k) rfl ⟨rfl, trivial⟩ (.refl _) (if_pos hk) nofun⟩

/-- The client reads a message. -/
theorem read (h : c.Agrees v l base) (hd : l.down ≠ []) :
    ∃ c' l', c.read = some c' ∧ c'.ui = c.ui ∧ Agrees v l' base c' := by
  cases hdown : l.down with
  | nil => exact absurd hdown hd
  | cons m down =>
    have hin : c.incoming l = c.signals ++ m.toSignal.toList ++
        down.filterMap ServerMessage.toSignal := by
      cases hm : m.toSignal <;> simp [incoming, hdown, hm]
    have hm : isSync m = false := by
      cases m with
      | sync t actions =>
        have := (h.foreign (.syncReceived t actions []) (by simp [hin, ServerMessage.toSignal])).1
        simp [Signal.isSync] at this
      | _ => rfl
    have hack : ∀ k, m.ackId = some k → c.unconfirmed.contains k = true := fun k hk =>
      h.acked k (List.mem_filterMap.2 ⟨m, by simp [hdown], hk⟩)
    have hread : c.read = some { c with
        signals := c.signals ++ m.toSignal.toList
        unconfirmed := m.ackId.elim c.unconfirmed c.unconfirmed.erase
        connection := some { l with down := down } } := by
      have hreceived : c.received l m down =
          { c with connection := some { l with down := down } } := by
        cases m with
        | sync t actions => simp [isSync] at hm
        | _ => rfl
      rw [← handleIdle_eq (c := { c with connection := some { l with down := down } }) hm hack,
        ← hreceived]
      simp [Client.read, h.connection, hdown, h.phase]
    -- what stays to be acknowledged is not what has just been
    have hstay : ∀ k ∈ down.filterMap ServerMessage.ackId ++
        (l.up.filterMap sentAction).map Prod.fst, c.unconfirmed.contains k = true →
        (m.ackId.elim c.unconfirmed c.unconfirmed.erase).contains k = true := by
      intro k hk hc
      cases hid : m.ackId with
      | none => exact hc
      | some k' =>
        have hnd := h.ids_nodup
        rw [hdown, List.filterMap_cons_some hid, List.cons_append, List.nodup_cons] at hnd
        have hne : k ≠ k' := fun he => hnd.1 (he ▸ hk)
        exact (c.unconfirmed.contains_erase_of_ne hne).trans hc
    refine ⟨_, { l with down := down }, hread, rfl, ?_⟩
    exact {
      phase := h.phase
      connection := rfl
      joined := h.joined
      listed := h.listed
      replay := h.replay
      syncing := h.syncing
      queue := by
        have := h.queue
        rw [hin] at this
        exact this
      foreign := by
        have := h.foreign
        rw [hin] at this
        exact this
      owned := h.owned
      acked := by
        intro k hk
        refine hstay k (List.mem_append_left _ hk) (h.acked k ?_)
        rw [hdown]
        exact ((List.sublist_cons_self m down).filterMap _).subset hk
      kept := fun a ha => hstay a.1 (List.mem_append_right _ (List.mem_map_of_mem ha)) (h.kept a ha)
      sent := h.sent
      posted := h.posted }

end Agrees

end Client

/-! ## The master -/

namespace StoreManager

/-- Taking the queued signals leads the master to the view `v` of the server, with the posted actions
and undos on top. -/
structure Leads (v : View K) (signals : List (Signal K)) (base : T) (m : StoreManager K) : Prop where
  replay : ReplayInv base m
  syncing : m.syncing = 0
  queue : Replica.receiveAll signals (m.replica base) = some ⟨m.id, v,
    m.posted.filterMap Post.action, (m.posted.filterMap Post.undo).toFinset⟩
  foreign : ∀ signal ∈ signals, signal.isSync = false ∧ signal.Foreign m.id
  owned : ∀ a ∈ m.posted.filterMap Post.action, a.1.clientId = m.id
  undone : ∀ k ∈ m.posted.filterMap Post.undo,
    k ∈ v.ids ++ (m.posted.filterMap Post.action).map Prod.fst
  ordered : m.posted.Pairwise fun a b => ∀ k, a.undo = some k →
    b.undo ≠ some k ∧ ∀ p, b.action ≠ some (k, p)
  posted : ∀ call ∈ m.posted, call.action.isSome = true ∨ call.undo.isSome = true

variable {v : View K} {signals : List (Signal K)} {base : T} {m : StoreManager K}

/-- No posted undo is about the front of a full log. -/
def FrontKept (v : View K) (m : StoreManager K) : Prop :=
  maxActionStackSize ≤ v.log.length → ∀ a ∈ v.log.head?, a.1 ∉ m.posted.filterMap Post.undo

namespace Leads

theorem listed_nodup (h : m.Leads v signals base) :
    (v.ids ++ (m.posted.filterMap Post.action).map Prod.fst).Nodup :=
  Replica.receiveAll_nodup (fun s hs => (h.foreign s hs).1) h.queue
    (StoreManager.listed_nodup h.replay)

theorem dispatch (h : m.Leads v signals base) {draws : List ℕ}
    (hd : (m.drawActionId draws).isSome = true) (p : K.Param) :
    ∃ m', m.dispatch draws p = some m' ∧ m'.id = m.id ∧ m'.Leads v signals base := by
  obtain ⟨k, hk⟩ := Option.isSome_iff_exists.1 hd
  obtain ⟨m', hm', ho⟩ := dispatch_spec h.replay hk p
  obtain ⟨hown, hfresh⟩ := drawActionId_spec h.replay hk
  have hnew : ∀ a ∈ [(k, p)], a.1.clientId = m.id := by simpa using hown
  have hact : m'.posted.filterMap Post.action = m.posted.filterMap Post.action ++ [(k, p)] := by
    simp [ho.posted_eq, Post.action]
  have hundo : m'.posted.filterMap Post.undo = m.posted.filterMap Post.undo := by
    simp [ho.posted_eq, Post.undo]
  have hlisted : k ∉ v.ids ++ (m.posted.filterMap Post.action).map Prod.fst := fun hk' =>
    hfresh (replica_listed m base ▸ Replica.receiveAll_mem_listed h.foreign h.queue hown hk')
  refine ⟨m', hm', ho.id_eq, ?_⟩
  exact {
    replay := ho.inv
    syncing := ho.syncing_eq.trans h.syncing
    queue := by
      rw [hact, hundo, ho.id_eq, ho.replica_eq]
      exact Replica.receiveAll_extend h.foreign h.queue hnew
    foreign := by
      rw [ho.id_eq]
      exact h.foreign
    owned := by
      rw [hact, ho.id_eq]
      intro a ha
      rcases List.mem_append.1 ha with ha | ha
      · exact h.owned a ha
      · exact hnew a ha
    undone := by
      rw [hact, hundo, List.map_append, ← List.append_assoc]
      exact fun k' hk' => List.mem_append_left _ (h.undone k' hk')
    ordered := by
      rw [ho.posted_eq]
      refine List.pairwise_append.2 ⟨h.ordered, List.pairwise_singleton _ _, ?_⟩
      intro a ha b hb k' hk'
      rw [List.mem_singleton.1 hb]
      refine ⟨nofun, ?_⟩
      rintro p' ⟨⟩
      exact hlisted (h.undone _ (List.mem_filterMap.2 ⟨a, ha, hk'⟩))
    posted := by
      rw [ho.posted_eq]
      intro call hcall
      rcases List.mem_append.1 hcall with hcall | hcall
      · exact h.posted call hcall
      · rw [List.mem_singleton.1 hcall]
        exact .inl rfl }

theorem undo (h : m.Leads v signals base) {k : ClientActionId} (hk : m.KeepsListed k signals)
    (hu : k ∉ m.unconfirmedUndos) :
    ∃ m', m.undo k = some m' ∧ m'.id = m.id ∧ m'.Leads v signals base := by
  obtain ⟨m', hm', ho⟩ := undo_spec h.replay hk.mem hu
  obtain ⟨hqueue, hnew, hlisted⟩ := receiveAll_undo h.replay h.syncing
    (fun s hs => (h.foreign s hs).1) hk hu h.queue
  have hact : m'.posted.filterMap Post.action = m.posted.filterMap Post.action := by
    simp [ho.posted_eq, Post.action]
  have hundo : m'.posted.filterMap Post.undo = m.posted.filterMap Post.undo ++ [k] := by
    simp [ho.posted_eq, Post.undo]
  refine ⟨m', hm', ho.id_eq, ?_⟩
  exact {
    replay := ho.inv
    syncing := ho.syncing_eq.trans h.syncing
    queue := by
      have hset : (m.posted.filterMap Post.undo ++ [k]).toFinset =
          insert k (m.posted.filterMap Post.undo).toFinset := by
        ext k'
        simp
      rw [hact, hundo, hset, ho.id_eq, ho.replica_eq]
      exact hqueue
    foreign := by
      rw [ho.id_eq]
      exact h.foreign
    owned := by
      rw [hact, ho.id_eq]
      exact h.owned
    undone := by
      rw [hact, hundo]
      intro k' hk'
      rcases List.mem_append.1 hk' with hk' | hk'
      · exact h.undone k' hk'
      · exact List.mem_singleton.1 hk' ▸ hlisted
    ordered := by
      rw [ho.posted_eq]
      refine List.pairwise_append.2 ⟨h.ordered, List.pairwise_singleton _ _, ?_⟩
      intro a ha b hb k' hk'
      rw [List.mem_singleton.1 hb]
      refine ⟨?_, nofun⟩
      rintro ⟨⟩
      exact hnew (List.mem_toFinset.2 (List.mem_filterMap.2 ⟨a, ha, hk'⟩))
    posted := by
      rw [ho.posted_eq]
      intro call hcall
      rcases List.mem_append.1 hcall with hcall | hcall
      · exact h.posted call hcall
      · rw [List.mem_singleton.1 hcall]
        exact .inr rfl }

theorem signal {signal : Signal K} (h : m.Leads v (signal :: signals) base) :
    ∃ m' base', m.receive signal = some m' ∧ m'.id = m.id ∧ m'.Leads v signals base' := by
  obtain ⟨r', hr', hq⟩ := Replica.receiveAll_cons h.queue
  obtain ⟨m', base', hm', hinv, rfl, hposted, hsy⟩ := receive_refines h.replay h.syncing hr'
  have hid : m'.id = m.id := (receive_posted hm').1
  refine ⟨m', base', hm', hid, ?_⟩
  exact {
    replay := hinv
    syncing := hsy
    queue := by
      rw [hid, hposted]
      exact hq
    foreign := by
      rw [hid]
      exact fun s hsl => h.foreign s (List.mem_cons_of_mem _ hsl)
    owned := by
      rw [hid, hposted]
      exact h.owned
    undone := hposted ▸ h.undone
    ordered := hposted ▸ h.ordered
    posted := hposted ▸ h.posted }

/-- The server pushes an action and queues a signal for it. -/
theorem push (h : m.Leads v signals base) {signal : Signal K} {a : ClientActionId × K.Param}
    {posted : List (Post K)} (hf : signal.isSync = false ∧ signal.Foreign m.id)
    (hr : Replica.receive ⟨m.id, v, m.posted.filterMap Post.action,
        (m.posted.filterMap Post.undo).toFinset⟩ signal =
      some ⟨m.id, v.push (m.posted.filterMap Post.undo).toFinset a, posted.filterMap Post.action,
        (m.posted.filterMap Post.undo).toFinset⟩)
    (hp : posted.Sublist m.posted)
    (hu : posted.filterMap Post.undo = m.posted.filterMap Post.undo)
    (ha : ∀ k ∈ (m.posted.filterMap Post.action).map Prod.fst,
      k = a.1 ∨ k ∈ (posted.filterMap Post.action).map Prod.fst)
    (hfront : m.FrontKept v) :
    Leads (v.push ∅ a) (signals ++ [signal]) base { m with posted := posted } := by
  have hhead : maxActionStackSize ≤ v.log.length →
      ∀ b ∈ (v.log ++ [a]).head?, b.1 ∉ m.posted.filterMap Post.undo := by
    intro hlen b hb
    refine hfront hlen b ?_
    cases hl : v.log with
    | nil => simp [hl, maxActionStackSize] at hlen
    | cons c l => simpa [hl] using hb
  have hpush : v.push (m.posted.filterMap Post.undo).toFinset a = v.push ∅ a :=
    View.push_congr fun hlen b hb => by simp only [List.mem_toFinset, hhead hlen b hb,
      Finset.notMem_empty]
  exact {
    replay := ⟨h.replay.chain, h.replay.marked, h.replay.books⟩
    syncing := h.syncing
    queue := by
      refine (Replica.receiveAll_concat h.queue signal).trans (hr.trans ?_)
      rw [hpush, hu]
    foreign := by
      intro s hs
      rcases List.mem_append.1 hs with hs | hs
      · exact h.foreign s hs
      · exact List.mem_singleton.1 hs ▸ hf
    owned := fun b hb => h.owned b ((hp.filterMap _).subset hb)
    undone := by
      intro k hk
      have hk' : k ∈ m.posted.filterMap Post.undo := hu ▸ hk
      have hne : maxActionStackSize ≤ v.log.length → ∀ b ∈ (v.log ++ [a]).head?, b.1 ≠ k :=
        fun hlen b hb he => hhead hlen b hb (he ▸ hk')
      rcases List.mem_append.1 (h.undone k hk') with hv | hpost
      · exact List.mem_append_left _ (View.mem_ids_push ∅ (List.mem_append_left _ hv) hne)
      · rcases ha k hpost with rfl | hpost
        · exact List.mem_append_left _ (View.mem_ids_push ∅ (by simp) hne)
        · exact List.mem_append_right _ hpost
    ordered := h.ordered.sublist hp
    posted := fun call hcall => h.posted call (hp.subset hcall) }

theorem postAction (h : m.Leads v signals base) {k : ClientActionId} {p : K.Param}
    {posted : List (Post K)} (hp : m.posted = .postAction k p :: posted)
    (hfront : m.FrontKept v) :
    Leads (v.push ∅ (k, p)) (signals ++ [.actionConfirmReceived k]) base
      { m with posted := posted } := by
  refine h.push ⟨rfl, trivial⟩ ?_ ?_ ?_ ?_ hfront
  · simp [Replica.receive, hp, Post.action]
  · rw [hp]
    exact List.sublist_cons_self _ _
  · rw [hp]
    rfl
  · simp [hp, Post.action]

/-- The server executes an action of a client. -/
theorem received (h : m.Leads v signals base) {k : ClientActionId} (p : K.Param)
    (hk : k.clientId ≠ m.id) (hv : k ∉ v.ids) (hfront : m.FrontKept v) :
    Leads (v.push ∅ (k, p)) (signals ++ [.actionReceived k p]) base m := by
  refine h.push ⟨rfl, hk⟩ (if_neg ?_) (.refl _) rfl (fun _ hk => .inr hk) hfront
  intro hk'
  rcases List.mem_append.1 hk' with hk' | hk'
  · exact hv hk'
  · obtain ⟨a, ha, rfl⟩ := List.mem_map.1 hk'
    exact hk (h.owned a ha)

theorem postUndo (h : m.Leads v signals base) {k : ClientActionId} {posted : List (Post K)}
    (hp : m.posted = .postUndo k :: posted) :
    k ∈ v.ids ∧ Leads (v.erase k) (signals ++ [.undoConfirmReceived k]) base
      { m with posted := posted } := by
  have hord := h.ordered
  have hund := h.undone
  have hqueue := h.queue
  have hact : m.posted.filterMap Post.action = posted.filterMap Post.action := by
    rw [hp]
    rfl
  have hundo : m.posted.filterMap Post.undo = k :: posted.filterMap Post.undo := by
    simp [hp, Post.undo]
  rw [hp] at hord
  rw [hact, hundo] at hund hqueue
  obtain ⟨hlast, hord⟩ := List.pairwise_cons.1 hord
  have hnu : k ∉ posted.filterMap Post.undo := by
    intro hk
    obtain ⟨b, hb, hbk⟩ := List.mem_filterMap.1 hk
    exact (hlast b hb k rfl).1 hbk
  have hna : k ∉ (posted.filterMap Post.action).map Prod.fst := by
    intro hk
    obtain ⟨a, ha, rfl⟩ := List.mem_map.1 hk
    obtain ⟨b, hb, hba⟩ := List.mem_filterMap.1 ha
    exact (hlast b hb a.1 rfl).2 a.2 hba
  have hk : k ∈ v.ids := (List.mem_append.1 (hund k (by simp))).resolve_right hna
  refine ⟨hk, ?_⟩
  exact {
    replay := ⟨h.replay.chain, h.replay.marked, h.replay.books⟩
    syncing := h.syncing
    queue := by
      refine (Replica.receiveAll_concat hqueue _).trans ((if_pos ⟨by simp, hk⟩).trans ?_)
      simp [hnu]
    foreign := by
      intro s hs
      rcases List.mem_append.1 hs with hs | hs
      · exact h.foreign s hs
      · exact List.mem_singleton.1 hs ▸ ⟨rfl, trivial⟩
    owned := fun a ha => h.owned a (hact ▸ ha)
    undone := by
      intro k' hk'
      have hne : k' ≠ k := fun he => hnu (he ▸ hk')
      rcases List.mem_append.1 (hund k' (List.mem_cons_of_mem _ hk')) with hv | ha
      · refine List.mem_append_left _ ?_
        rw [View.ids_erase]
        exact List.mem_filter.2 ⟨hv, decide_eq_true hne⟩
      · exact List.mem_append_right _ ha
    ordered := hord
    posted := fun call hcall => h.posted call (hp ▸ List.mem_cons_of_mem _ hcall) }

end Leads

end StoreManager

end JudoAssistant
