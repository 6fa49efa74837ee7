import JudoAssistant.Network.ExactlyOnce
import JudoAssistant.Network.Mirror
import JudoAssistant.Network.SyncAck

/-!
# The two lists of a client

The store manager of a client and its `NetworkClient` both hold the unconfirmed actions, and a `SYNC`
rebuilds the two lists at different moments.  `Client.Safe` says that the lists are in step once the
queued signals are delivered, and that whatever the server has of the client is listed; here it is
proved for the steps of the client itself.
-/

namespace JudoAssistant

open Undoable

variable {T : Type} {K : ActionModel T}

/-! ## The confirmed ids -/

/-- Taking the signals leads the confirmed ids to those of the server as long as the server tells the
participant what it does, and of the actions of the client that the server still has it loses at most
the ones in `unacked`. -/
def Follows (server : Roll ClientActionId) (told : Bool) (unacked : List ClientActionId) (id : ℕ)
    (r : Roll ClientActionId) (signals : List (Signal K)) : Prop :=
  ∃ r', Runs.run receiveRoll signals r = some r' ∧ (told = true → r'.Covers server) ∧
    ∀ k ∈ server.ids, k.clientId = id → k ∈ r'.ids ++ unacked

namespace Follows

variable {server server' : Roll ClientActionId} {told told' : Bool} {unacked : List ClientActionId}
  {id : ℕ} {r : Roll ClientActionId} {signals : List (Signal K)}

theorem of_covers {r' : Roll ClientActionId} (h : Runs.run receiveRoll signals r = some r')
    (hc : r'.Covers server) : Follows server told unacked id r signals :=
  ⟨r', h, fun _ => hc, fun _ hk _ => List.mem_append_left _ (hc.1 ▸ hk)⟩

theorem leave (h : Follows server told unacked id r signals) :
    Follows server false unacked id r signals := by
  obtain ⟨r', hrun, -, hown⟩ := h
  exact ⟨r', hrun, nofun, hown⟩

/-- The server tells the participant what it does. -/
theorem tell (h : Follows server true unacked id r signals) {signal : Signal K}
    (hs : ∀ r', r'.Covers server → ∃ r'', receiveRoll r' signal = some r'' ∧ r''.Covers server') :
    Follows server' told' unacked id r (signals ++ [signal]) := by
  obtain ⟨r', hrun, hc, -⟩ := h
  obtain ⟨r'', hr'', hc''⟩ := hs r' (hc rfl)
  exact of_covers ((Runs.run_concat hrun signal).trans hr'') hc''

/-- The server goes on without telling the participant. -/
theorem shrink (h : Follows server false unacked id r signals) {unacked' : List ClientActionId}
    (hsub : unacked ⊆ unacked')
    (hids : ∀ k ∈ server'.ids, k.clientId = id → k ∈ server.ids ∨ k ∈ unacked') :
    Follows server' false unacked' id r signals := by
  obtain ⟨r', hrun, -, hown⟩ := h
  refine ⟨r', hrun, nofun, fun k hk hid => ?_⟩
  rcases hids k hk hid with hk | hk
  · exact (List.mem_append.1 (hown k hk hid)).elim (List.mem_append_left _)
      fun hk => List.mem_append_right _ (hsub hk)
  · exact List.mem_append_right _ hk

end Follows

/-! ## One client -/

namespace Client

/-- The kept actions are those with an acknowledgement under way, those that were accepted when no
participant was left to acknowledge them to, and those that the server may still accept. -/
structure Kept (server r : Roll ClientActionId) (c : Client K) (l : Connection K)
    (unacked tail : List ClientActionId) : Prop where
  split : c.keptIds = l.down.filterMap ServerMessage.ackId ++ (unacked ++ tail)
  tail_eq : l.participant ≠ .left → l.down.countP isSync = 0 → tail = l.acceptable
  acked : l.inParticipants = true ∨ l.down.countP isSync ≠ 0 → unacked = []
  follows : Follows server l.inParticipants unacked c.ui.id r
    (l.down.filterMap ServerMessage.toSignal)

/-- A connection on which the client has read its first `SYNC`.  `r` are the confirmed ids once the
queued signals are delivered. -/
structure Idle (server r : Roll ClientActionId) (c : Client K) (l : Connection K) : Prop where
  noStale : c.staleIds = []
  notWaiting : l.participant ≠ .waiting
  outside : ∀ m ∈ l.down, ∀ signal ∈ m.toSignal, signal.Outside c.ui.id
  lateAcks : ∀ pre m post, l.down = pre ++ m :: post → isSync m = true →
    post.filterMap ServerMessage.ackId = []
  kept : ∃ unacked tail, Kept server r c l unacked tail

/-- The snapshot that the server has sent for a new connection, with what it has sent since. -/
structure Snapshot (server : Roll ClientActionId) (c : Client K) (l : Connection K)
    (pre : List (ServerMessage K)) (actions : List (ClientActionId × K.Param))
    (rest : List (ServerMessage K)) : Prop where
  noStale : c.staleIds = []
  joined : l.participant ≠ .waiting
  before : ∀ m ∈ pre, isSync m = false
  after : ∀ m ∈ rest, isSync m = false ∧ m.ackId = none ∧
    ∀ signal ∈ m.toSignal, signal.Outside c.ui.id
  follows : Follows server l.inParticipants [] c.ui.id (.ofList (actions.map Prod.fst))
    (rest.filterMap ServerMessage.toSignal)

/-- A connection on which the client has not read its first `SYNC`. -/
structure Joining (server : Roll ClientActionId) (c : Client K) (l : Connection K) : Prop where
  noAck : ∀ m ∈ l.up, isAck m = false
  notSynced : l.participant ≠ .joined false
  down : l.down = [] ∧ l.participant ≠ .joined true ∨
    ∃ pre t actions rest, l.down = pre ++ .sync t actions :: rest ∧
      Snapshot server c l pre actions rest

/-- The connection of the client, in its phase. -/
structure Live (server r : Roll ClientActionId) (c : Client K) (l : Connection K) : Prop where
  joining : c.phase.connecting = true → Joining server c l
  idle : c.phase.connecting = false → Idle server r c l

/-- The unconfirmed actions of the store manager, once the queued signals are delivered, are the ones
that `NetworkClient` keeps and then the posted ones; and what the server has of the client is listed. -/
structure Safe (server : Roll ClientActionId) (c : Client K) : Prop where
  plain : c.ui.Plain
  owned : ∀ k ∈ c.keptIds ++ postedIds c.ui.posted, k.clientId = c.ui.id
  wf : c.unconfirmed.WF
  nodup : (c.keptIds ++ postedIds c.ui.posted).Nodup
  pending : Runs.run (receivePending c.ui.id) c.signals c.ui.pendingIds =
    some (c.keptIds ++ postedIds c.ui.posted)
  stale : ∀ k ∈ c.staleIds, k ∈ c.keptIds
  confirmed : ∃ r, Runs.run receiveRoll c.signals c.ui.roll = some r ∧
    (∀ k ∈ server.ids, k.clientId = c.ui.id →
      k ∈ r.ids ++ (c.keptIds ++ postedIds c.ui.posted)) ∧
    ∀ l, c.connection = some l → Live server r c l

variable {server server' r : Roll ClientActionId} {c c' : Client K} {l l' : Connection K}

/-- An idle client lists what the server has of it. -/
theorem Idle.listed (h : Idle server r c l) {k : ClientActionId} (hk : k ∈ server.ids)
    (hid : k.clientId = c.ui.id) : k ∈ r.ids ++ c.keptIds := by
  obtain ⟨unacked, tail, hkept⟩ := h.kept
  obtain ⟨r', hrun, -, hown⟩ := hkept.follows
  have hout : ∀ signal ∈ l.down.filterMap ServerMessage.toSignal, signal.Outside c.ui.id := by
    intro signal hs
    obtain ⟨m, hm, hs⟩ := List.mem_filterMap.1 hs
    exact h.outside m hm signal hs
  have hack : (fun m : ServerMessage K => m.toSignal.bind Signal.confirmId) =
      ServerMessage.ackId := by
    funext m
    cases m <;> rfl
  rw [hkept.split]
  rcases List.mem_append.1 (hown k hk hid) with hk | hk
  · rcases mem_run_receiveRoll hout hrun hid hk with hr | hr
    · exact List.mem_append_left _ hr
    · rw [List.filterMap_filterMap, hack] at hr
      exact List.mem_append_right _ (List.mem_append_left _ hr)
  · exact List.mem_append_right _ (List.mem_append_right _ (List.mem_append_left _ hk))

/-- Nothing of a joining client is accepted. -/
theorem Joining.acceptable_eq (h : Joining server c l) : l.acceptable = [] := by
  rcases l with ⟨up, down, participant, processed, delivered, removed⟩
  have hnone : afterAck up = [] := afterAck_eq_nil h.noAck
  cases participant with
  | left => rfl
  | waiting => simp only [Connection.acceptable, hnone, actionIds_nil]
  | joined b =>
    cases b with
    | false => exact absurd rfl h.notSynced
    | true => simp only [Connection.acceptable, hnone, actionIds_nil]

/-- What the server may accept from an idle client is kept. -/
theorem Idle.acceptable_subset (h : Idle server r c l) (ht : l.Tracked) :
    ∀ k ∈ l.acceptable, k ∈ c.keptIds := by
  obtain ⟨unacked, tail, hkept⟩ := h.kept
  have htail := hkept.tail_eq
  intro k hk
  rw [hkept.split]
  refine List.mem_append_right _ (List.mem_append_right _ ?_)
  rcases l with ⟨up, down, participant, processed, delivered, removed⟩
  cases participant with
  | left => simp [Connection.acceptable] at hk
  | waiting => exact absurd rfl h.notWaiting
  | joined b =>
    cases b with
    | false =>
      rw [htail (by rintro ⟨⟩) ht.1]
      exact hk
    | true =>
      rcases ht with ⟨hno, -⟩ | ⟨-, hcount, -⟩
      · simp [Connection.acceptable, afterAck_eq_nil hno] at hk
      · rw [htail (by rintro ⟨⟩) hcount]
        exact hk

theorem Live.acceptable_subset (h : Live server r c l) (ht : l.Tracked) :
    ∀ k ∈ l.acceptable, k ∈ c.keptIds := by
  cases hp : c.phase.connecting with
  | true => simp [(h.joining hp).acceptable_eq]
  | false => exact (h.idle hp).acceptable_subset ht

/-- The parts of a client that `Kept`, `Idle` and `Joining` speak of. -/
theorem Kept.congr {unacked tail : List ClientActionId} (h : Kept server r c l unacked tail)
    (hkept : c'.keptIds = c.keptIds) (hid : c'.ui.id = c.ui.id) :
    Kept server r c' l unacked tail where
  split := hkept.trans h.split
  tail_eq := h.tail_eq
  acked := h.acked
  follows := hid ▸ h.follows

theorem Idle.congr (h : Idle server r c l) (hkept : c'.keptIds = c.keptIds)
    (hstale : c.staleIds = [] → c'.staleIds = []) (hid : c'.ui.id = c.ui.id) :
    Idle server r c' l where
  noStale := hstale h.noStale
  notWaiting := h.notWaiting
  outside := hid ▸ h.outside
  lateAcks := h.lateAcks
  kept := by
    obtain ⟨unacked, tail, hk⟩ := h.kept
    exact ⟨unacked, tail, hk.congr hkept hid⟩

theorem Joining.congr (h : Joining server c l) (hstale : c.staleIds = [] → c'.staleIds = [])
    (hid : c'.ui.id = c.ui.id) : Joining server c' l where
  noAck := h.noAck
  notSynced := h.notSynced
  down := h.down.imp_right fun ⟨pre, t, actions, rest, hd, hs⟩ =>
    ⟨pre, t, actions, rest, hd, hstale hs.noStale, hs.joined, hs.before, hid ▸ hs.after,
      hid ▸ hs.follows⟩

theorem Live.congr (h : Live server r c l) (hphase : c'.phase = c.phase)
    (hkept : c'.keptIds = c.keptIds) (hstale : c.staleIds = [] → c'.staleIds = [])
    (hid : c'.ui.id = c.ui.id) : Live server r c' l where
  joining hp := (h.joining (hphase ▸ hp)).congr hstale hid
  idle hp := (h.idle (hphase ▸ hp)).congr hkept hstale hid

/-! ### Steps of the client -/

theorem afterAck_append {up : List (ℕ × ClientMessage K)} (h : ∃ m ∈ up, isAck m = true)
    (up' : List (ℕ × ClientMessage K)) : afterAck (up ++ up') = afterAck up ++ up' := by
  induction up with
  | nil => simp at h
  | cons m up ih =>
    simp only [List.cons_append, afterAck]
    split
    · rfl
    · rename_i hm
      refine ih ?_
      obtain ⟨m', hm', ha⟩ := h
      rcases List.mem_cons.1 hm' with rfl | hm'
      · exact absurd ha hm
      · exact ⟨m', hm', ha⟩

/-- When no `SYNC` is under way to the client, the server will accept what the client sends. -/
theorem acceptable_send_idle (ht : l.Tracked) (hw : l.participant ≠ .waiting)
    (hl : l.participant ≠ .left) (hcount : l.down.countP isSync = 0) (m : ClientMessage K) :
    (l.send m).acceptable = l.acceptable ++ actionIds [(l.processed, m)] := by
  rcases l with ⟨up, down, participant, processed, delivered, removed⟩
  cases participant with
  | left => exact absurd rfl hl
  | waiting => exact absurd rfl hw
  | joined b =>
    cases b with
    | false => exact actionIds_append
    | true =>
      rcases ht with ⟨-, hone, -⟩ | ⟨⟨pre, ack, post, hup, hack, -⟩, -⟩
      · omega
      · have hmem : ∃ m ∈ up, isAck m = true := ⟨ack, by simp [show up = _ from hup], hack⟩
        simp only [Connection.acceptable, Connection.send, afterAck_append hmem, actionIds_append]

theorem Idle.send (h : Idle server r c l) (ht : l.Tracked) (m : ClientMessage K)
    (hkept : c'.keptIds = c.keptIds ++ actionIds [(l.processed, m)])
    (hstale : c'.staleIds = c.staleIds) (hid : c'.ui.id = c.ui.id) :
    Idle server r c' (l.send m) where
  noStale := hstale ▸ h.noStale
  notWaiting := h.notWaiting
  outside := hid ▸ h.outside
  lateAcks := h.lateAcks
  kept := by
    obtain ⟨unacked, tail, hk⟩ := h.kept
    refine ⟨unacked, tail ++ actionIds [(l.processed, m)], ?_, fun hl hcount => ?_, hk.acked,
      hid ▸ hk.follows⟩
    · rw [hkept, hk.split]
      simp only [List.append_assoc]
      rfl
    · rw [hk.tail_eq hl hcount, acceptable_send_idle ht h.notWaiting hl hcount]

theorem Joining.send (h : Joining server c l) {m : ClientMessage K}
    (hm : isAck (l.processed, m) = false) (hstale : c'.staleIds = c.staleIds)
    (hid : c'.ui.id = c.ui.id) : Joining server c' (l.send m) where
  noAck := by
    intro m' hm'
    rcases List.mem_append.1 hm' with hm' | hm'
    · exact h.noAck m' hm'
    · rw [List.mem_singleton.1 hm']
      exact hm
  notSynced := h.notSynced
  down := h.down.imp_right fun ⟨pre, t, actions, rest, hd, hs⟩ =>
    ⟨pre, t, actions, rest, hd, hstale ▸ hs.noStale, hs.joined, hs.before, hid ▸ hs.after,
      hid ▸ hs.follows⟩

/-- The connection of a client that sends a message other than a `SYNC_ACK`. -/
theorem Live.send (h : Live server r c l) (ht : l.Tracked) {m : ClientMessage K}
    (hm : isAck (l.processed, m) = false)
    (hphase : c'.phase.connecting = c.phase.connecting)
    (hkept : c'.keptIds = c.keptIds ++ actionIds [(l.processed, m)])
    (hstale : c'.staleIds = c.staleIds) (hid : c'.ui.id = c.ui.id) : Live server r c' (l.send m) where
  joining hp := (h.joining (hphase ▸ hp)).send hm hstale hid
  idle hp := (h.idle (hphase ▸ hp)).send ht m hkept hstale hid

theorem Safe.dispatch (h : Safe server c) (hs : ∀ signal ∈ c.signals, signal.isSync = false)
    {draws : List ℕ} {p : K.Param} {ui : StoreManager K} (hd : c.ui.dispatch draws p = some ui) :
    Safe server { c with ui := ui } := by
  obtain ⟨k, hk, hown, hid, hposted⟩ := StoreManager.dispatch_posted hd
  obtain ⟨hplain, hroll, hids⟩ := StoreManager.dispatch_plain h.plain hd hk
  obtain ⟨hrun, hmem⟩ := run_receivePending_extend hs h.pending [k]
  have hpost : c.keptIds ++ postedIds ui.posted = c.keptIds ++ postedIds c.ui.posted ++ [k] := by
    rw [hposted, postedIds_append, List.append_assoc]
    rfl
  have hnew : k ∉ c.keptIds ++ postedIds c.ui.posted := fun hk' => by
    have hnd := hplain.nodup
    rw [hids, List.nodup_append] at hnd
    exact hnd.2.2 k (hmem k hk') k (by simp) rfl
  obtain ⟨r, hr, hlisted, hlive⟩ := h.confirmed
  exact {
    plain := hplain
    owned := by
      intro k' (hk' : k' ∈ c.keptIds ++ postedIds ui.posted)
      rw [hpost] at hk'
      rw [hid]
      rcases List.mem_append.1 hk' with hk' | hk'
      · exact h.owned k' hk'
      · rw [List.mem_singleton.1 hk', hown]
    wf := h.wf
    nodup := by
      refine (congrArg List.Nodup hpost).mpr (List.nodup_append.2 ⟨h.nodup, by simp, ?_⟩)
      rintro a ha b hb rfl
      exact hnew (List.mem_singleton.1 hb ▸ ha)
    pending := by
      refine Eq.trans ?_ (congrArg some hpost.symm)
      rw [hid, hids]
      exact hrun
    stale := h.stale
    confirmed := by
      refine ⟨r, hroll ▸ hr, fun k' hk' hid' => ?_, fun l hl => ?_⟩
      · have := hlisted k' hk' (hid ▸ hid')
        refine (congrArg (k' ∈ r.ids ++ ·) hpost).mpr ?_
        rw [← List.append_assoc]
        exact List.mem_append_left _ this
      · exact (hlive l hl).congr rfl rfl id hid }

/-- The network thread runs a posted action. -/
theorem Safe.post (h : Safe server c) (ht : ∀ l, c.connection = some l → l.Tracked)
    {k : ClientActionId} {p : K.Param} {posted : List (Post K)}
    (hp : c.ui.posted = .postAction k p :: posted) :
    Safe server ({ c with ui := { c.ui with posted := posted } }.postAction k p) := by
  have hids : c.keptIds ++ postedIds c.ui.posted = c.keptIds ++ [k] ++ postedIds posted := by
    rw [hp, List.append_assoc]
    rfl
  have hkept : ({ c with ui := { c.ui with posted := posted } }.postAction k p).keptIds =
      c.keptIds ++ [k] := by
    simp [keptIds, Client.postAction, Client.deliver, Table.push]
  have hnd := h.nodup
  have howned := h.owned
  have hpending := h.pending
  obtain ⟨r, hr, hlisted, hlive⟩ := h.confirmed
  rw [hids] at hnd howned hpending hlisted
  have hk : k ∉ c.keptIds := fun hk =>
    (List.nodup_append.1 (List.nodup_append.1 hnd).1).2.2 k hk k (by simp) rfl
  exact {
    plain := ⟨h.plain.syncing, h.plain.undos, h.plain.confirmed, h.plain.unconfirmed, h.plain.nodup,
      h.plain.indexed⟩
    owned := hkept ▸ howned
    wf := h.wf.push hk _
    nodup := hkept ▸ hnd
    pending := hkept ▸ hpending
    stale := fun k' hk' => hkept ▸ List.mem_append_left _ (h.stale k' hk')
    confirmed := by
      refine ⟨r, hr, hkept ▸ hlisted, fun l' hl' => ?_⟩
      obtain ⟨l, hl, rfl⟩ := Option.map_eq_some_iff.1 hl'
      exact (hlive l hl).send (ht l hl) rfl rfl hkept rfl rfl }

/-- The client sends a message that is neither an action nor a `SYNC_ACK`. -/
theorem Safe.deliver (h : Safe server c) (ht : ∀ l, c.connection = some l → l.Tracked)
    {m : ClientMessage K} (hm : ∀ n, isAck (n, m) = false) (ha : ∀ n, isAction (n, m) = false)
    {phase : Phase} (hp : phase.connecting = c.phase.connecting) :
    Safe server ({ c with phase := phase }.deliver m) := by
  obtain ⟨r, hr, hlisted, hlive⟩ := h.confirmed
  refine ⟨⟨h.plain.syncing, h.plain.undos, h.plain.confirmed, h.plain.unconfirmed, h.plain.nodup,
    h.plain.indexed⟩, h.owned, h.wf, h.nodup, h.pending, h.stale, r, hr, hlisted, fun l' hl' => ?_⟩
  obtain ⟨l, hl, rfl⟩ := Option.map_eq_some_iff.1 hl'
  have hids : actionIds [(l.processed, m)] = [] := actionIds_cons_of_not_action (ha _)
  exact (hlive l hl).send (ht l hl) (hm _) hp (by rw [hids, List.append_nil]; rfl) rfl rfl

theorem Safe.signal (h : Safe server c) {signal : Signal K} {signals : List (Signal K)}
    {ui : StoreManager K} (hs : c.signals = signal :: signals)
    (hu : c.ui.receive signal = some ui) : Safe server { c with ui := ui, signals := signals } := by
  obtain ⟨r, hr, hlisted, hlive⟩ := h.confirmed
  have hpending := h.pending
  rw [hs] at hr hpending
  obtain ⟨r₁, hr₁, hr⟩ := Runs.run_cons hr
  obtain ⟨p₁, hp₁, hpending⟩ := Runs.run_cons hpending
  obtain ⟨ui', hui', hplain, rfl, rfl⟩ := StoreManager.receive_plain h.plain hr₁ hp₁
  obtain rfl : ui' = ui := Option.some.inj (hui'.symm.trans hu)
  obtain ⟨hid, hposted⟩ := StoreManager.receive_posted hu
  exact {
    plain := hplain
    owned := by
      rw [hid, hposted]
      exact h.owned
    wf := h.wf
    nodup := by
      rw [hposted]
      exact h.nodup
    pending := by
      rw [hid, hposted]
      exact hpending
    stale := h.stale
    confirmed := by
      refine ⟨r, hr, ?_, fun l hl => (hlive l hl).congr rfl rfl id hid⟩
      rw [hid, hposted]
      exact hlisted }

theorem Safe.connect (h : Safe server c) :
    Safe server { c with phase := .connectJoin, connection := some (Connection.init K) } := by
  obtain ⟨r, hr, hlisted, -⟩ := h.confirmed
  refine ⟨h.plain, h.owned, h.wf, h.nodup, h.pending, h.stale, r, hr, hlisted, ?_⟩
  rintro l ⟨⟩
  refine ⟨fun _ => ⟨by simp [Connection.init], nofun, .inl ⟨rfl, nofun⟩⟩, nofun⟩

/-- The client closes its connection; what the server may still accept from it is kept. -/
theorem Safe.close (h : Safe server c) (hl : ∀ k ∈ l.acceptable, k ∈ c.keptIds) :
    Safe server { c with phase := .notConnected, connection := none, stale := c.stale ++ [l] } := by
  obtain ⟨r, hr, hlisted, -⟩ := h.confirmed
  refine ⟨h.plain, h.owned, h.wf, h.nodup, h.pending, ?_, r, hr, hlisted, nofun⟩
  intro k hk
  simp only [staleIds, List.flatMap_append, List.mem_append, List.flatMap_cons, List.flatMap_nil,
    List.append_nil] at hk
  rcases hk with hk | hk
  · exact h.stale k hk
  · exact hl k hk

theorem Safe.kill (h : Safe server c) (ht : ∀ l, c.connection = some l → l.Tracked) (sent : ℕ) :
    Safe server (c.killConnection sent) := by
  obtain ⟨r, hr, hlisted, hlive⟩ := h.confirmed
  unfold killConnection
  split
  · exact h
  · rename_i l hl
    exact h.close fun k hk =>
      (hlive l hl).acceptable_subset (ht l hl) k ((l.acceptable_take [] sent).subset hk)

/-! ### Reading -/

theorem Safe.setPhase (h : Safe server c) {phase : Phase}
    (hp : phase.connecting = c.phase.connecting) : Safe server { c with phase := phase } := by
  obtain ⟨r, hr, hlisted, hlive⟩ := h.confirmed
  refine ⟨h.plain, h.owned, h.wf, h.nodup, h.pending, h.stale, r, hr, hlisted, fun l hl => ?_⟩
  exact ⟨fun hp' => ((hlive l hl).joining (hp ▸ hp')).congr id rfl,
    fun hp' => ((hlive l hl).idle (hp ▸ hp')).congr rfl id rfl⟩

/-- An idle client reads a message other than a `SYNC`. -/
theorem Safe.readIdle (h : Safe server c) (hl : c.connection = some l)
    (hp : c.phase.connecting = false) {m : ServerMessage K} {down : List (ServerMessage K)}
    (hd : l.down = m :: down) (hm : isSync m = false) :
    Safe server ((c.received l m down).handleIdle m) := by
  obtain ⟨r, hr, hlisted, hlive⟩ := h.confirmed
  have hidle := (hlive l hl).idle hp
  obtain ⟨unacked, tail, hkeptOld⟩ := hidle.kept
  obtain ⟨r', hrun, hcovers, hown⟩ := hkeptOld.follows
  have hkept := hkeptOld.split
  have hids : l.down.filterMap ServerMessage.ackId =
      m.ackId.toList ++ down.filterMap ServerMessage.ackId := by
    cases hack : m.ackId <;> simp [hd, hack]
  have hsignals : l.down.filterMap ServerMessage.toSignal =
      m.toSignal.toList ++ down.filterMap ServerMessage.toSignal := by
    cases hs : m.toSignal <;> simp [hd, hs]
  rw [hids, List.append_assoc] at hkept
  rw [hsignals, Runs.run_append] at hrun
  obtain ⟨r₁, hr₁, hrun⟩ := Option.bind_eq_some_iff.1 hrun
  have hnd : c.keptIds.Nodup := (List.nodup_append.1 h.nodup).1
  have hreceived : c.received l m down = { c with connection := some { l with down := down } } := by
    cases m with
    | sync t actions => simp [isSync] at hm
    | _ => rfl
  have hcontains : ∀ k, m.ackId = some k → c.unconfirmed.contains k = true := by
    intro k hk
    rw [h.wf.contains_iff]
    show k ∈ c.keptIds
    simp [hkept, hk]
  have hresult : (c.received l m down).handleIdle m = { c with
      connection := some { l with down := down }
      signals := c.signals ++ m.toSignal.toList
      unconfirmed := m.ackId.elim c.unconfirmed c.unconfirmed.erase } := by
    rw [hreceived]
    exact handleIdle_eq (c := { c with connection := some { l with down := down } }) hm hcontains
  rw [hresult]
  -- an acknowledgement takes the first kept action
  have hkept' : keys (m.ackId.elim c.unconfirmed c.unconfirmed.erase).entries =
      down.filterMap ServerMessage.ackId ++ (unacked ++ tail) := by
    cases hack : m.ackId with
    | none =>
      show c.keptIds = _
      simp [hkept, hack]
    | some k =>
      rw [hack, Option.toList_some, List.singleton_append] at hkept
      rw [hkept, List.nodup_cons] at hnd
      rw [Option.elim_some, h.wf.keys_erase k]
      show c.keptIds.filter _ = _
      rw [hkept, List.filter_cons_of_neg (by simp), List.filter_eq_self]
      intro k' hk'
      exact decide_eq_true fun he => hnd.1 (he ▸ hk')
  have hpending : Runs.run (receivePending c.ui.id) (c.signals ++ m.toSignal.toList)
      c.ui.pendingIds = some (down.filterMap ServerMessage.ackId ++ (unacked ++ tail) ++
        postedIds c.ui.posted) := by
    have hold := h.pending
    rw [hkept] at hold
    cases m with
    | sync t actions => simp [isSync] at hm
    | clockSync => simpa [ServerMessage.toSignal, ServerMessage.ackId] using hold
    | action k p => exact Runs.run_concat hold _
    | undo k => exact Runs.run_concat hold _
    | actionAck k => exact (Runs.run_concat hold _).trans (if_pos rfl)
  have hsub : (down.filterMap ServerMessage.ackId ++ (unacked ++ tail) ++
      postedIds c.ui.posted).Sublist (c.keptIds ++ postedIds c.ui.posted) := by
    rw [hkept]
    exact (List.sublist_append_right _ _).append_right _
  have hidle' : Idle server r₁ { c with
      connection := some { l with down := down }
      signals := c.signals ++ m.toSignal.toList
      unconfirmed := m.ackId.elim c.unconfirmed c.unconfirmed.erase } { l with down := down } := {
    noStale := hidle.noStale
    notWaiting := hidle.notWaiting
    outside := fun m' hm' => hidle.outside m' (hd ▸ List.mem_cons_of_mem _ hm')
    lateAcks := fun pre m' post hdown => hidle.lateAcks (m :: pre) m' post (by
      rw [hd, show down = _ from hdown]
      rfl)
    kept := by
      have hcount : l.down.countP isSync = down.countP isSync := by simp [hd, hm]
      exact ⟨unacked, tail, hkept', fun hleft hc => hkeptOld.tail_eq hleft (hcount.trans hc),
        fun hc => hkeptOld.acked (hc.imp_right hcount.trans_ne), r', hrun, hcovers, hown⟩ }
  exact {
    plain := h.plain
    owned := by
      show ∀ k ∈ keys _ ++ _, _
      rw [hkept']
      exact fun k hk => h.owned k (hsub.subset hk)
    wf := by
      cases hack : m.ackId with
      | none => exact h.wf
      | some k => exact h.wf.erase k
    nodup := by
      show (keys _ ++ _).Nodup
      rw [hkept']
      exact hsub.nodup h.nodup
    pending := by
      refine hpending.trans ?_
      rw [← hkept']
      rfl
    stale := fun k hk => absurd (show k ∈ c.staleIds from hk) (by simp [hidle.noStale])
    confirmed := by
      refine ⟨r₁, ?_, fun k hk hid => ?_, ?_⟩
      · rw [Runs.run_append, hr]
        exact hr₁
      · rw [← List.append_assoc]
        exact List.mem_append_left _ (hidle'.listed hk hid)
      · rintro l' ⟨⟩
        exact ⟨fun hp' => absurd hp' (by simp [hp]), fun _ => hidle'⟩ }

/-- Of a client that has just acknowledged a `SYNC`, what it sends afterwards is accepted. -/
theorem acceptable_ack (hl : l.participant = .left ∨
    l.participant = .joined true ∧ ∀ m ∈ l.up, isAck m = false) (n : ℕ)
    (up : List (ℕ × ClientMessage K)) (down : List (ServerMessage K)) (hleft : l.participant ≠ .left) :
    Connection.acceptable { l with
      up := l.up ++ (n, .syncAck) :: up, down := down, processed := n } = actionIds up := by
  rcases l with ⟨up', down', participant, processed, delivered, removed⟩
  rcases hl with hl | ⟨hl, hno⟩
  · exact absurd hl hleft
  · obtain rfl : participant = .joined true := hl
    have : afterAck (up' ++ (n, .syncAck) :: up) = up := afterAck_append_ack hno n
    simp only [Connection.acceptable, this]

/-- An idle client reads a `SYNC` while nothing waits to be posted. -/
theorem Safe.readSync (h : Safe server c) (hl : c.connection = some l) (ht : l.Tracked)
    (hp : c.phase.connecting = false) {t : T} {actions : List (ClientActionId × K.Param)}
    {down : List (ServerMessage K)} (hd : l.down = .sync t actions :: down)
    (hposted : c.ui.posted = []) :
    Safe server ((c.received l (.sync t actions) down).handleIdle (.sync t actions)) := by
  obtain ⟨r, hr, hlisted, hlive⟩ := h.confirmed
  have hidle := (hlive l hl).idle hp
  obtain rfl : actions = [] :=
    hidle.outside (.sync t actions) (by simp [hd]) (.syncReceived t actions []) rfl
  obtain ⟨unacked, tail, hkept⟩ := hidle.kept
  obtain ⟨r', hrun, hcovers, hown⟩ := hkept.follows
  obtain rfl : unacked = [] := hkept.acked (.inr (by simp [hd, isSync]))
  rw [hd] at hrun
  obtain ⟨r₁, hr₁, hrun⟩ := Runs.run_cons hrun
  have hlate : down.filterMap ServerMessage.ackId = [] := hidle.lateAcks [] _ down hd rfl
  have hpart : l.participant = .left ∨
      l.participant = .joined true ∧ ∀ m ∈ l.up, isAck m = false := by
    rcases l with ⟨up, down', participant, processed, delivered, removed⟩
    obtain rfl : down' = _ := hd
    cases participant with
    | left => exact .inl rfl
    | waiting => exact absurd rfl hidle.notWaiting
    | joined b =>
      cases b with
      | false => exact absurd ht.1 (by simp [isSync])
      | true =>
        rcases ht with ⟨hno, -⟩ | ⟨-, hcount, -⟩
        · exact .inr ⟨rfl, hno⟩
        · exact absurd hcount (by simp [isSync])
  have hacc := acceptable_ack hpart (l.processed + 1) [] down
  let l' : Connection K := { l with
    up := l.up ++ [(l.processed + 1, .syncAck)], down := down, processed := l.processed + 1 }
  have hresult : (c.received l (.sync t []) down).handleIdle (.sync t []) = { c with
      connection := some l'
      signals := c.signals ++ [.syncReceived t [] []]
      unconfirmed := c.unconfirmed.clear } := rfl
  rw [hresult]
  have hidle' : Idle server r₁ { c with
      connection := some l'
      signals := c.signals ++ [.syncReceived t [] []]
      unconfirmed := c.unconfirmed.clear } l' := {
    noStale := hidle.noStale
    notWaiting := hidle.notWaiting
    outside := fun m' hm' => hidle.outside m' (hd ▸ List.mem_cons_of_mem _ hm')
    lateAcks := fun pre m' post hdown => hidle.lateAcks (.sync t [] :: pre) m' post (by
      rw [hd, show down = _ from hdown]
      rfl)
    kept := by
      refine ⟨[], [], ?_, fun hleft _ => (hacc hleft).symm, fun _ => rfl, r', hrun, hcovers, hown⟩
      show ([] : List ClientActionId) = down.filterMap ServerMessage.ackId ++ []
      rw [hlate]
      rfl }
  have hnone : keptIds { c with
      connection := some l'
      signals := c.signals ++ [.syncReceived t [] []]
      unconfirmed := c.unconfirmed.clear } ++ postedIds c.ui.posted = [] := by
    rw [hposted]
    rfl
  exact {
    plain := h.plain
    owned := fun k hk => absurd hk (by
      show k ∉ _ ++ postedIds c.ui.posted
      rw [hnone]
      exact List.not_mem_nil)
    wf := c.unconfirmed.wf_clear
    nodup := by
      show (_ ++ postedIds c.ui.posted).Nodup
      rw [hnone]
      exact List.nodup_nil
    pending := by
      have hsync : receivePending c.ui.id (c.keptIds ++ postedIds c.ui.posted)
          (.syncReceived t [] [] : Signal K) = some [] := by simp [receivePending]
      exact (Runs.run_concat h.pending _).trans (hsync.trans (congrArg some hnone.symm))
    stale := fun k hk => absurd (show k ∈ c.staleIds from hk) (by simp [hidle.noStale])
    confirmed := by
      refine ⟨r₁, ?_, fun k hk hid => ?_, ?_⟩
      · exact (Runs.run_concat hr _).trans hr₁
      · rw [← List.append_assoc]
        exact List.mem_append_left _ (hidle'.listed hk hid)
      · rintro l'' ⟨⟩
        exact ⟨fun hp' => absurd hp' (by simp [hp]), fun _ => hidle'⟩ }

/-- A connecting client reads the snapshot while nothing waits to be posted. -/
theorem Safe.readSnapshot (h : Safe server c) (hl : c.connection = some l)
    (hp : c.phase.connecting = true) {t : T} {actions : List (ClientActionId × K.Param)}
    {down : List (ServerMessage K)} (hd : l.down = .sync t actions :: down)
    (hposted : c.ui.posted = []) :
    Safe server ((c.received l (.sync t actions) down).handleSync t actions) := by
  obtain ⟨r, hr, hlisted, hlive⟩ := h.confirmed
  have hjoin := (hlive l hl).joining hp
  -- the message is the snapshot
  obtain ⟨hnoStale, hwaiting, hrest, hfollows⟩ : c.staleIds = [] ∧ l.participant ≠ .waiting ∧
      (∀ m ∈ down, isSync m = false ∧ m.ackId = none ∧
        ∀ signal ∈ m.toSignal, signal.Outside c.ui.id) ∧
      Follows server l.inParticipants [] c.ui.id (.ofList (actions.map Prod.fst))
        (down.filterMap ServerMessage.toSignal) := by
    rcases hjoin.down with ⟨hnil, -⟩ | ⟨pre, t', actions', rest, hd', hs⟩
    · rw [hd] at hnil
      cases hnil
    · rw [hd] at hd'
      cases pre with
      | nil =>
        cases hd'
        exact ⟨hs.noStale, hs.joined, hs.after, hs.follows⟩
      | cons m pre =>
        cases hd'
        exact absurd (hs.before (.sync t actions) (by simp)) (by simp [isSync])
  have hpart : l.participant = .left ∨
      l.participant = .joined true ∧ ∀ m ∈ l.up, isAck m = false := by
    cases hp : l.participant with
    | left => exact .inl rfl
    | waiting => exact absurd hp hwaiting
    | joined b =>
      cases b with
      | false => exact absurd hp hjoin.notSynced
      | true => exact .inr ⟨rfl, hjoin.noAck⟩
  obtain ⟨hwf, hkeys, hnd, hkept⟩ := wf_stillUnconfirmed h.wf actions
  rw [handleSync_eq c l]
  generalize stillUnconfirmed actions (items c.unconfirmed.entries) = kept at *
  have hacc := acceptable_ack hpart (l.processed + 1)
    (kept.map fun a => (l.processed + 1, .action a.1 a.2)) down
  rw [actionIds_actions] at hacc
  have hlate : down.filterMap ServerMessage.ackId = [] :=
    List.filterMap_eq_nil_iff.2 fun m hm => (hrest m hm).2.1
  have hown : ∀ a ∈ kept, a.1.clientId = c.ui.id := fun a ha =>
    h.owned a.1 (List.mem_append_left _ (hkept a.1 (List.mem_map_of_mem ha)).1)
  have hids : keys (c.unconfirmed.clear.pushAll
      (kept.map fun (a : ClientActionId × K.Param) => (a.1, Obj.fresh a.2))).entries ++
        postedIds c.ui.posted = kept.map Prod.fst := by
    rw [hkeys, hposted]
    exact List.append_nil _
  have hidle : Idle server (.ofList (actions.map Prod.fst)) { c with
      phase := .connectIdle
      unconfirmed := c.unconfirmed.clear.pushAll
        (kept.map fun (a : ClientActionId × K.Param) => (a.1, Obj.fresh a.2))
      signals := c.signals ++ [.syncReceived t actions kept]
      connection := some { l with
        down := down
        processed := l.processed + 1
        up := l.up ++ (l.processed + 1, .syncAck) ::
          kept.map fun a => (l.processed + 1, .action a.1 a.2) } } { l with
        down := down
        processed := l.processed + 1
        up := l.up ++ (l.processed + 1, .syncAck) ::
          kept.map fun a => (l.processed + 1, .action a.1 a.2) } := {
    noStale := hnoStale
    notWaiting := hwaiting
    outside := fun m hm => (hrest m hm).2.2
    lateAcks := fun pre m post hdown hm => by
      have := (hrest m (by rw [show down = _ from hdown]; simp)).1
      rw [hm] at this
      cases this
    kept := by
      refine ⟨[], kept.map Prod.fst, ?_, fun hleft _ => (hacc hleft).symm, fun _ => rfl, hfollows⟩
      show keys _ = down.filterMap ServerMessage.ackId ++ _
      rw [hlate, hkeys]
      rfl }
  exact {
    plain := h.plain
    owned := by
      show ∀ k ∈ keys _ ++ postedIds c.ui.posted, _
      rw [hids]
      intro k hk
      obtain ⟨a, ha, rfl⟩ := List.mem_map.1 hk
      exact hown a ha
    wf := hwf
    nodup := by
      show (keys _ ++ postedIds c.ui.posted).Nodup
      rw [hids]
      exact hnd
    pending := by
      refine (Runs.run_concat h.pending _).trans ?_
      refine (if_pos ⟨hown, hnd⟩).trans ?_
      exact congrArg some hids.symm
    stale := fun k hk => absurd (show k ∈ c.staleIds from hk) (by simp [hnoStale])
    confirmed := by
      refine ⟨.ofList (actions.map Prod.fst), Runs.run_concat hr _, fun k hk hid => ?_, ?_⟩
      · rw [← List.append_assoc]
        exact List.mem_append_left _ (hidle.listed hk hid)
      · rintro l' ⟨⟩
        exact ⟨fun hconn => absurd hconn (by simp [Phase.connecting]), fun _ => hidle⟩ }

theorem Safe.read (h : Safe server c) (ht : ∀ l, c.connection = some l → l.Tracked)
    (hb : ∀ l m down, c.connection = some l → l.down = m :: down → isSync m = true →
      c.ui.posted = []) (hr : c.read = some c') : Safe server c' := by
  obtain ⟨l, m, down, hl, hd, hcases⟩ := Client.read_cases hr
  obtain ⟨r, hrun, hlisted, hlive⟩ := h.confirmed
  have hidle : c.phase.connecting = false → Safe server ((c.received l m down).handleIdle m) := by
    intro hp
    cases hm : isSync m with
    | false => exact h.readIdle hl hp hd hm
    | true =>
      cases m with
      | sync t actions => exact h.readSync hl (ht l hl) hp hd (hb l _ down hl hd rfl)
      | _ => cases hm
  cases hcases with
  | clock hp hm =>
    subst hm
    have hconn : c.phase.connecting = true := by rw [hp]; rfl
    have hjoin := (hlive l hl).joining hconn
    refine ⟨h.plain, h.owned, h.wf, h.nodup, h.pending, h.stale, r, hrun, hlisted, ?_⟩
    rintro l' ⟨⟩
    refine ⟨fun _ => ⟨hjoin.noAck, hjoin.notSynced, ?_⟩, nofun⟩
    rcases hjoin.down with ⟨hnil, -⟩ | ⟨pre, t, actions, rest, hd', hs⟩
    · rw [hd] at hnil
      cases hnil
    · rw [hd] at hd'
      cases pre with
      | nil => cases hd'
      | cons m pre =>
        cases hd'
        exact .inr ⟨pre, t, actions, rest, rfl, hs.noStale, hs.joined,
          fun m' hm' => hs.before m' (List.mem_cons_of_mem _ hm'), hs.after, hs.follows⟩
  | kill hp sent =>
    have hconn : c.phase.connecting = true := by
      rcases hp with ⟨hp, -⟩ | ⟨hp, -⟩ <;> rw [hp] <;> rfl
    have hjoin := (hlive l hl).joining hconn
    refine h.close fun k hk => ?_
    have hk : k ∈ l.acceptable := (Connection.acceptable_take _ [] sent).subset hk
    rw [hjoin.acceptable_eq] at hk
    cases hk
  | sync hp hm =>
    subst hm
    exact h.readSnapshot hl (by rw [hp]; rfl) hd (hb l _ down hl hd rfl)
  | idle hp => exact hidle (by rw [hp]; rfl)
  | last hp =>
    have hphase : ((c.received l m down).handleIdle m).phase = c.phase := by
      cases m <;> simp only [handleIdle] <;> try rfl
      split <;> rfl
    refine (hidle (by rw [hp]; rfl)).setPhase ?_
    rw [hphase, hp]
    rfl

end Client

end JudoAssistant
