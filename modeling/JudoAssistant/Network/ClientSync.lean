import JudoAssistant.Network.ClientLists

/-!
# Syncs of a client

If no action is dispatched or waits to be posted while a `SYNC` is handled, the two lists of a client
stay in step: every confirmation is about the first unconfirmed action, and whatever the server has
accepted from the client stays listed.  An action dispatched in between is sent and accepted, but the
store manager forgets it.
-/

namespace JudoAssistant

open Undoable

variable {T : Type} {K : ActionModel T}

namespace Client

variable {server server' r : Roll ClientActionId} {c c' : Client K} {l l' : Connection K}

/-! ## Steps of the server -/

/-- The connection of a client changes, and with it the ids of the server. -/
theorem Safe.setConnection (h : Safe server c) (hl : c.connection = some l)
    (hids : ∀ k ∈ server'.ids, k.clientId = c.ui.id → k ∈ server.ids ∨ k ∈ c.keptIds)
    (hlive : ∀ r, Live server r c l → Live server' r c l') :
    Safe server' { c with connection := some l' } := by
  obtain ⟨r, hr, hlisted, hlive'⟩ := h.confirmed
  refine ⟨h.plain, h.owned, h.wf, h.nodup, h.pending, h.stale, r, hr, fun k hk hid => ?_, ?_⟩
  · rcases hids k hk hid with hk | hk
    · exact hlisted k hk hid
    · exact List.mem_append_right _ (List.mem_append_left _ hk)
  · rintro l'' ⟨⟩
    exact (hlive r (hlive' l hl)).congr rfl rfl id rfl

theorem Live.leave (h : Live server r c l) {up : List (ℕ × ClientMessage K)}
    (hup : ∀ m ∈ up, m ∈ l.up) : Live server r c { l with up := up, participant := .left } := by
  constructor
  · intro hp
    have hj := h.joining hp
    refine ⟨fun m hm => hj.noAck m (hup m hm), nofun, ?_⟩
    rcases hj.down with ⟨hd, -⟩ | ⟨pre, t, actions, rest, hd, hs⟩
    · exact .inl ⟨hd, nofun⟩
    · exact .inr ⟨pre, t, actions, rest, hd, hs.noStale, nofun, hs.before, hs.after,
        hs.follows.leave⟩
  · intro hp
    have hi := h.idle hp
    obtain ⟨unacked, tail, hk⟩ := hi.kept
    refine ⟨hi.noStale, nofun, hi.outside, hi.lateAcks, unacked, tail, hk.split,
      fun hleft => absurd rfl hleft, fun hc => ?_, hk.follows.leave⟩
    exact hk.acked (.inr (hc.resolve_left Bool.false_ne_true))

/-- The participant is taken out of `mParticipants`. -/
theorem Live.remove (h : Live server r c l) : Live server r c { l with removed := true } := by
  have hnot : Connection.inParticipants { l with removed := true } = false := by
    cases hp : l.participant <;> simp [Connection.inParticipants]
  constructor
  · intro hp
    have hj := h.joining hp
    refine ⟨hj.noAck, hj.notSynced, hj.down.imp_right ?_⟩
    rintro ⟨pre, t, actions, rest, hd, hs⟩
    refine ⟨pre, t, actions, rest, hd, hs.noStale, hs.joined, hs.before, hs.after, ?_⟩
    rw [hnot]
    exact hs.follows.leave
  · intro hp
    have hi := h.idle hp
    obtain ⟨unacked, tail, hk⟩ := hi.kept
    refine ⟨hi.noStale, hi.notWaiting, hi.outside, hi.lateAcks, unacked, tail, hk.split,
      hk.tail_eq, fun hc => ?_, ?_⟩
    · exact hk.acked (.inr (hc.resolve_left (by simp [hnot])))
    · rw [hnot]
      exact hk.follows.leave

/-- The participant reads a message and accepts nothing. -/
theorem Live.read {net : NetworkServer K} (h : Live net.actions.roll r c l) (hcur : l.Current)
    (hnet : net.actions.LastIndexed) (hr : Reads net l (.done l'))
    (hsnap : l.participant = .waiting → c.staleIds = []) : Live net.actions.roll r c l' := by
  generalize hreading : Connection.Reading.done l' = reading at hr
  cases hr with
  | @start n up hp hup =>
    cases hreading
    refine ⟨fun hconn => ?_, fun hconn => absurd hp (h.idle hconn).notWaiting⟩
    have hj := h.joining hconn
    refine ⟨fun m hm => hj.noAck m (hup ▸ List.mem_cons_of_mem _ hm), (by rintro ⟨⟩), .inr ?_⟩
    have hd : l.down = [] := by
      rcases hj.down with ⟨hd, -⟩ | ⟨pre, t, actions, rest, hd, hs⟩
      · exact hd
      · exact absurd hp hs.joined
    refine ⟨[.clockSync], net.tournament, net.stack, [], by rw [hd]; rfl, hsnap hp, (by rintro ⟨⟩),
      by simp [isSync], by simp, .of_covers rfl ?_⟩
    have hids : net.stack.map Prod.fst = net.actions.roll.ids := keys_items _
    refine ⟨hids, fun k hk => ?_⟩
    exact decide_eq_true (hids ▸ hnet.mem_keys hk)
  | kick hup =>
    cases hreading
    exact h.leave fun m hm => hup ▸ List.mem_cons_of_mem _ hm
  | @ack b m up hp hup hm =>
    cases hreading
    constructor
    · intro hconn
      have := (h.joining hconn).noAck m (by simp [hup])
      rw [hm] at this
      cases this
    · intro hconn
      have hi := h.idle hconn
      obtain ⟨unacked, tail, hk⟩ := hi.kept
      have hleft : l.participant ≠ .left := by
        rw [hp]
        rintro ⟨⟩
      have hmem : Connection.inParticipants { l with up := up, participant := .joined false } =
          l.inParticipants := by simp [Connection.inParticipants, hp]
      have hacc : l.acceptable = actionIds up := by
        rcases l with ⟨up', down, participant, processed, delivered, removed⟩
        obtain rfl : participant = .joined b := hp
        obtain rfl : up' = m :: up := hup
        cases b with
        | false =>
          have := (hcur m (by simp)).1
          rw [hm] at this
          cases this
        | true => simp [Connection.acceptable, afterAck, hm]
      refine ⟨hi.noStale, (by rintro ⟨⟩), hi.outside, hi.lateAcks, unacked, tail, hk.split,
        fun _ hcount => (hk.tail_eq hleft hcount).trans hacc, ?_, ?_⟩
      · rw [hmem]
        exact hk.acked
      · rw [hmem]
        exact hk.follows
  | @skip b m up hp hup hm ha =>
    cases hreading
    constructor
    · intro hconn
      have hj := h.joining hconn
      refine ⟨fun m' hm' => hj.noAck m' (hup ▸ List.mem_cons_of_mem _ hm'), hj.notSynced, ?_⟩
      rcases hj.down with hd | ⟨pre, t, actions, rest, hd, hs⟩
      · exact .inl hd
      · exact .inr ⟨pre, t, actions, rest, hd, hs.noStale, hs.joined, hs.before, hs.after,
          hs.follows⟩
    · intro hconn
      have hi := h.idle hconn
      obtain ⟨unacked, tail, hk⟩ := hi.kept
      have hacc : l.acceptable = Connection.acceptable { l with up := up } := by
        rcases l with ⟨up', down, participant, processed, delivered, removed⟩
        obtain rfl : participant = .joined b := hp
        obtain rfl : up' = m :: up := hup
        cases b with
        | false => exact actionIds_cons_of_not_action (ha rfl)
        | true => simp [Connection.acceptable, afterAck, hm]
      exact ⟨hi.noStale, hi.notWaiting, hi.outside, hi.lateAcks, unacked, tail, hk.split,
        fun hleft hcount => (hk.tail_eq hleft hcount).trans hacc, hk.acked, hk.follows⟩
  | accept => cases hreading

/-- The participant accepts an action.  One that has been removed cannot acknowledge it. -/
theorem Live.accept {net : NetworkServer K} (h : Live server r c l) (ht : l.Tracked)
    {a : Acceptance} {p : K.Param} (hr : Reads net l (.accept l' a p)) :
    Live (server.push maxActionStackSize a.actionId) r c (l'.deliver (.actionAck a.actionId)) := by
  obtain ⟨hacc, hp⟩ := Connection.acceptable_accept hr
  refine ⟨fun hconn => absurd hp (h.joining hconn).notSynced, fun hconn => ?_⟩
  have hi := h.idle hconn
  obtain ⟨unacked, tail, hk⟩ := hi.kept
  have hcount : l.down.countP isSync = 0 := by
    rcases l with ⟨up, down, participant, processed, delivered, removed⟩
    obtain rfl : participant = .joined false := hp
    exact ht.1
  have hleft : l.participant ≠ .left := by
    rw [hp]
    nofun
  have htail := hk.tail_eq hleft hcount
  obtain ⟨up, rfl⟩ : ∃ up, l' = { l with up := up } := by
    cases hr with
    | accept hp hup => exact ⟨_, rfl⟩
  have hfollows := hk.follows
  cases hl : l.inParticipants with
  | false =>
    rw [Connection.deliver_of_not_mem (l := { l with up := up }) hl]
    rw [hl] at hfollows
    refine ⟨hi.noStale, hi.notWaiting, hi.outside, hi.lateAcks, unacked ++ [a.actionId],
      Connection.acceptable { l with up := up }, ?_, fun _ _ => rfl, ?_, ?_⟩
    · rw [hk.split, htail, hacc]
      simp
    · rintro (hc | hc)
      · rw [show Connection.inParticipants { l with up := up } = false from hl] at hc
        cases hc
      · exact absurd hcount hc
    · rw [show Connection.inParticipants { l with up := up } = false from hl]
      refine hfollows.shrink (List.subset_append_left _ _) fun k hk' _ => ?_
      refine (List.mem_append.1 ((Roll.ids_push_sublist _ server _).subset hk')).imp_right ?_
      exact fun hk' => List.mem_append_right _ hk'
  | true =>
    rw [Connection.deliver_of_mem (l := { l with up := up }) hl]
    rw [hl] at hfollows
    obtain rfl : unacked = [] := hk.acked (.inl hl)
    refine ⟨hi.noStale, hi.notWaiting, ?_, ?_, [], Connection.acceptable { l with up := up }, ?_,
      fun _ _ => rfl, fun _ => rfl, ?_⟩
    · intro m hm
      rcases List.mem_append.1 hm with hm | hm
      · exact hi.outside m hm
      · rw [List.mem_singleton.1 hm]
        rintro signal ⟨⟩
        trivial
    · intro pre m post hd hm
      have hmem : m ∈ l.down ++ [.actionAck a.actionId] := by
        rw [show l.down ++ [.actionAck a.actionId] = _ from hd]
        simp
      rcases List.mem_append.1 hmem with hmem | hmem
      · exact absurd hm (List.countP_eq_zero.1 hcount m hmem)
      · rw [List.mem_singleton.1 hmem] at hm
        cases hm
    · rw [hk.split, htail, hacc]
      simp [ServerMessage.ackId]
    · have : Follows (server.push maxActionStackSize a.actionId)
          (Connection.inParticipants { l with up := up, down := l.down ++ [.actionAck a.actionId] })
          [] c.ui.id r
          (l.down.filterMap ServerMessage.toSignal ++ [.actionConfirmReceived a.actionId]) :=
        hfollows.tell fun r' hr' => ⟨_, rfl, hr'.push maxActionStackSize a.actionId⟩
      simpa [ServerMessage.toSignal] using this

/-- The server goes on without telling the participant, if there is one. -/
theorem Live.untold (h : Live server r c l) (hl : l.inParticipants = false)
    (hids : ∀ k ∈ server'.ids, k.clientId = c.ui.id → k ∈ server.ids) : Live server' r c l := by
  constructor
  · intro hconn
    have hj := h.joining hconn
    refine ⟨hj.noAck, hj.notSynced, hj.down.imp_right ?_⟩
    rintro ⟨pre, t, actions, rest, hd, hs⟩
    have hfollows := hs.follows
    rw [hl] at hfollows
    refine ⟨pre, t, actions, rest, hd, hs.noStale, hs.joined, hs.before, hs.after, ?_⟩
    rw [hl]
    exact hfollows.shrink (List.Subset.refl _) fun k hk hid => .inl (hids k hk hid)
  · intro hconn
    have hi := h.idle hconn
    obtain ⟨unacked, tail, hk⟩ := hi.kept
    have hfollows := hk.follows
    rw [hl] at hfollows
    refine ⟨hi.noStale, hi.notWaiting, hi.outside, hi.lateAcks, unacked, tail, hk.split,
      hk.tail_eq, hk.acked, ?_⟩
    rw [hl]
    exact hfollows.shrink (List.Subset.refl _) fun k hk hid => .inl (hids k hk hid)

/-- The server tells a participant, if there is one, about a step that is not the client's. -/
theorem Live.deliver (h : Live server r c l) {m : ServerMessage K} {signal : Signal K}
    (hm : m.toSignal = some signal) (hack : m.ackId = none) (hsync : isSync m = false)
    (hout : signal.Outside c.ui.id)
    (hs : ∀ r', r'.Covers server → ∃ r'', receiveRoll r' signal = some r'' ∧ r''.Covers server')
    (hids : ∀ k ∈ server'.ids, k.clientId = c.ui.id → k ∈ server.ids) :
    Live server' r c (l.deliver m) := by
  cases hl : l.inParticipants with
  | false =>
    rw [Connection.deliver_of_not_mem hl]
    exact h.untold hl hids
  | true =>
    obtain ⟨⟨b, hp⟩, -⟩ := Connection.inParticipants_iff.1 hl
    rw [Connection.deliver_of_mem hl]
    constructor
    · intro hconn
      have hj := h.joining hconn
      rcases hj.down with hd | ⟨pre, t, actions, rest, hd, hs'⟩
      · cases b with
        | false => exact absurd hp hj.notSynced
        | true => exact absurd hp hd.2
      · have hfollows := hs'.follows
        rw [hl] at hfollows
        refine ⟨hj.noAck, hj.notSynced, .inr ⟨pre, t, actions, rest ++ [m], by simp [hd],
          hs'.noStale, hs'.joined, hs'.before, ?_, ?_⟩⟩
        · intro m' hm'
          rcases List.mem_append.1 hm' with hm' | hm'
          · exact hs'.after m' hm'
          · rw [List.mem_singleton.1 hm']
            refine ⟨hsync, hack, fun signal' hsignal' => ?_⟩
            rw [hm] at hsignal'
            cases hsignal'
            exact hout
        · have : Follows server' (Connection.inParticipants { l with down := l.down ++ [m] }) []
              c.ui.id (.ofList (actions.map Prod.fst))
              (rest.filterMap ServerMessage.toSignal ++ [signal]) := hfollows.tell hs
          simpa [hm] using this
    · intro hconn
      have hi := h.idle hconn
      obtain ⟨unacked, tail, hk⟩ := hi.kept
      obtain rfl : unacked = [] := hk.acked (.inl hl)
      have hfollows := hk.follows
      rw [hl] at hfollows
      refine ⟨hi.noStale, hi.notWaiting, ?_, ?_, [], tail, ?_, fun hleft hcount => ?_,
        fun _ => rfl, ?_⟩
      · intro m' hm'
        rcases List.mem_append.1 hm' with hm' | hm'
        · exact hi.outside m' hm'
        · rw [List.mem_singleton.1 hm']
          intro signal' hsignal'
          rw [hm] at hsignal'
          cases hsignal'
          exact hout
      · intro pre m' post hd hm'
        rcases List.eq_nil_or_concat post with rfl | ⟨post, m'', rfl⟩
        · rfl
        · have hd : l.down ++ [m] = pre ++ m' :: post ++ [m''] := by simpa using hd
          obtain ⟨hdown, hlast⟩ := List.append_inj' hd rfl
          obtain rfl : m = m'' := by simpa using hlast
          have := hi.lateAcks pre m' post hdown hm'
          simp [this, hack]
      · simpa [hack] using hk.split
      · have hcount' : l.down.countP isSync = 0 := by simpa [hsync] using hcount
        exact hk.tail_eq hleft hcount'
      · have : Follows server' (Connection.inParticipants { l with down := l.down ++ [m] }) []
            c.ui.id r (l.down.filterMap ServerMessage.toSignal ++ [signal]) := hfollows.tell hs
        simpa [hm] using this

theorem Safe.broadcast (h : Safe server c) {m : ServerMessage K} {signal : Signal K}
    (hm : m.toSignal = some signal) (hack : m.ackId = none) (hsync : isSync m = false)
    (hout : signal.Outside c.ui.id)
    (hs : ∀ r', r'.Covers server → ∃ r'', receiveRoll r' signal = some r'' ∧ r''.Covers server')
    (hids : ∀ k ∈ server'.ids, k.clientId = c.ui.id → k ∈ server.ids) :
    Safe server' (c.broadcast m) := by
  obtain ⟨r, hr, hlisted, hlive⟩ := h.confirmed
  refine ⟨h.plain, h.owned, h.wf, h.nodup, h.pending, h.stale, r, hr,
    fun k hk hid => hlisted k (hids k hk hid) hid, fun l' hl' => ?_⟩
  obtain ⟨l, hl, rfl⟩ := Option.map_eq_some_iff.1 hl'
  exact ((hlive l hl).deliver hm hack hsync hout hs hids).congr rfl rfl id rfl

/-- The server has executed an action of another party. -/
theorem Safe.broadcastAction (h : Safe server c) {k : ClientActionId} (hk : k.clientId ≠ c.ui.id)
    (p : K.Param) : Safe (server.push maxActionStackSize k) (c.broadcast (.action k p)) := by
  refine h.broadcast rfl rfl rfl hk (fun r' hr' => ⟨_, rfl, hr'.push maxActionStackSize k⟩) ?_
  intro k' hk' hid
  rcases List.mem_append.1 ((Roll.ids_push_sublist _ server k).subset hk') with hk' | hk'
  · exact hk'
  · exact absurd (List.mem_singleton.1 hk' ▸ hid) hk

/-- The server has undone an action. -/
theorem Safe.broadcastUndo (h : Safe server c) {k : ClientActionId}
    (hk : server.mapped k = true) (hk' : k ∈ server.ids) :
    Safe (server.erase k) (c.broadcast (.undo k)) := by
  refine h.broadcast rfl rfl rfl trivial (fun r' hr' => ⟨_, ?_, hr'.erase k⟩) ?_
  · exact if_pos ⟨hr'.2 k hk, hr'.1 ▸ hk'⟩
  · exact fun k' hk' _ => (eraseLast_sublist k server.ids).subset hk'

/-- Fewer actions of closed connections may be accepted. -/
theorem Safe.setStale (h : Safe server c) {stale : List (Connection K)}
    (hs : (stale.flatMap (·.acceptable)).Sublist c.staleIds) :
    Safe server { c with stale := stale } := by
  obtain ⟨r, hr, hlisted, hlive⟩ := h.confirmed
  have hnil : c.staleIds = [] → staleIds { c with stale := stale } = [] := by
    intro hn
    rw [hn] at hs
    exact List.eq_nil_of_sublist_nil hs
  exact ⟨h.plain, h.owned, h.wf, h.nodup, h.pending, fun k hk => h.stale k (hs.subset hk), r, hr,
    hlisted, fun l hl => (hlive l hl).congr rfl rfl hnil rfl⟩

/-- The server accepts an action from a closed connection.  The client then has no participant. -/
theorem Safe.acceptStale (h : Safe server c) {k : ClientActionId} (hk : k ∈ c.staleIds)
    {stale : List (Connection K)} (hs : (stale.flatMap (·.acceptable)).Sublist c.staleIds)
    (p : K.Param) : Safe (server.push maxActionStackSize k)
      ({ c with stale := stale }.broadcast (.action k p)) := by
  obtain ⟨r, hr, hlisted, hlive⟩ := h.confirmed
  have hne : c.staleIds ≠ [] := List.ne_nil_of_mem hk
  refine ⟨h.plain, h.owned, h.wf, h.nodup, h.pending, fun k hk => h.stale k (hs.subset hk), r, hr,
    fun k' hk' hid => ?_, fun l' hl' => ?_⟩
  · rcases List.mem_append.1 ((Roll.ids_push_sublist _ server k).subset hk') with hk' | hk'
    · exact hlisted k' hk' hid
    · rw [List.mem_singleton.1 hk']
      exact List.mem_append_right _ (List.mem_append_left _ (h.stale k hk))
  · obtain ⟨l, hl, rfl⟩ := Option.map_eq_some_iff.1 hl'
    refine ⟨fun hconn => ?_, fun hconn => absurd ((hlive l hl).idle hconn).noStale hne⟩
    have hj := (hlive l hl).joining hconn
    rcases hj.down with hd | ⟨pre, t, actions, rest, hd, hs⟩
    · have hnot : l.inParticipants = false := by
        rw [Bool.eq_false_iff, ne_eq, Connection.inParticipants_iff]
        rintro ⟨⟨b, hb⟩, -⟩
        cases b with
        | false => exact hj.notSynced hb
        | true => exact hd.2 hb
      rw [Connection.deliver_of_not_mem hnot]
      exact ⟨hj.noAck, hj.notSynced, .inl hd⟩
    · exact absurd hs.noStale hne

/-- The master has synced; the participant was not syncing. -/
theorem Live.deliverSync (h : Live server r c l) (ht : l.Tracked) (hsettled : l.syncing = false)
    (hempty : server'.ids = []) (hmapped : ∀ k, server'.mapped k = false) (t : T) :
    Live server' r c (l.deliverSync (.sync t [])) := by
  cases hl : l.inParticipants with
  | false =>
    rw [Connection.deliverSync_of_not_mem hl]
    exact h.untold hl (by simp [hempty])
  | true =>
    obtain ⟨⟨b, hp⟩, hremoved⟩ := Connection.inParticipants_iff.1 hl
    obtain rfl : b = false := by simpa [Connection.syncing, hl, hp] using hsettled
    rw [Connection.deliverSync_of_mem hl]
    refine ⟨fun hconn => absurd hp (h.joining hconn).notSynced, fun hconn => ?_⟩
    have hi := h.idle hconn
    obtain ⟨unacked, tail, hk⟩ := hi.kept
    obtain rfl : unacked = [] := hk.acked (.inl hl)
    have hfollows := hk.follows
    rw [hl] at hfollows
    have hcount : l.down.countP isSync = 0 := by
      rcases l with ⟨up, down, participant, processed, delivered, removed⟩
      obtain rfl : participant = .joined false := hp
      exact ht.1
    refine ⟨hi.noStale, (by rintro ⟨⟩), ?_, ?_, [], tail, ?_, fun _ hc => ?_, fun _ => rfl, ?_⟩
    · intro m' hm'
      rcases List.mem_append.1 hm' with hm' | hm'
      · exact hi.outside m' hm'
      · rw [List.mem_singleton.1 hm']
        rintro signal ⟨⟩
        rfl
    · intro pre m' post hd hm'
      rcases List.eq_nil_or_concat post with rfl | ⟨post, m'', rfl⟩
      · rfl
      · have hd : l.down ++ [.sync t []] = pre ++ m' :: post ++ [m''] := by simpa using hd
        obtain ⟨hd, -⟩ := List.append_inj' hd rfl
        exact absurd hm' (List.countP_eq_zero.1 hcount m' (by simp [hd]))
    · show c.keptIds = (l.down ++ [ServerMessage.sync t []]).filterMap ServerMessage.ackId ++ _
      rw [List.filterMap_append]
      exact hk.split.trans (by simp [ServerMessage.ackId])
    · simp [isSync] at hc
    · have : Follows server' (Connection.inParticipants { l with
            participant := .joined true
            down := l.down ++ [.sync t []]
            delivered := l.delivered + 1 }) [] c.ui.id r
          (l.down.filterMap ServerMessage.toSignal ++ [.syncReceived t [] []]) := by
        refine hfollows.tell fun r' _ => ⟨_, rfl, ?_⟩
        exact ⟨by simp [Roll.ofList, hempty], by simp [hmapped]⟩
      simpa [ServerMessage.toSignal] using this

/-- The master has synced; no participant was syncing. -/
theorem Safe.broadcastSync (h : Safe server c) (hempty : server'.ids = [])
    (hmapped : ∀ k, server'.mapped k = false) (ht : ∀ l, c.connection = some l → l.Tracked)
    (hsettled : ∀ l ∈ c.connection, l.syncing = false) (t : T) :
    Safe server' (c.broadcastSync (.sync t [])) := by
  obtain ⟨r, hr, hlisted, hlive⟩ := h.confirmed
  have hsub : (c.broadcastSync (.sync t [])).staleIds.Sublist c.staleIds := by
    simp only [staleIds, Client.broadcastSync]
    induction c.stale with
    | nil => exact List.Sublist.refl _
    | cons l stale ih => exact (l.acceptable_deliverSync _).append ih
  have hnil : c.staleIds = [] → (c.broadcastSync (.sync t [])).staleIds = [] := by
    intro hn
    rw [hn] at hsub
    exact List.eq_nil_of_sublist_nil hsub
  refine ⟨h.plain, h.owned, h.wf, h.nodup, h.pending, fun k hk => h.stale k (hsub.subset hk), r, hr,
    by simp [hempty], fun l' hl' => ?_⟩
  obtain ⟨l, hl, rfl⟩ := Option.map_eq_some_iff.1 hl'
  have := (hlive l hl).deliverSync (ht l hl) (hsettled l hl) hempty hmapped t
  exact this.congr rfl rfl hnil rfl

end Client

/-! ## Runs -/

variable {ι : Type}

namespace System

/-- The steps that keep the two lists of a client in step: an action is dispatched only when no sync
waits to be delivered to the store manager, `NetworkClient` handles a `SYNC` only when no action
waits to be posted, and the server answers a new connection only when it has read all actions of the
client on older ones. -/
def Undisturbed (s : System ι K) : Event ι K → Prop
  | .clientDispatch i _ _ => ∀ signal ∈ (s.clients i).signals, signal.isSync = false
  | .clientRead i => ∀ l ∈ (s.clients i).connection, ∀ m ∈ l.down.head?, isSync m = true →
      (s.clients i).ui.posted = []
  | .serverRead i => (s.clients i).connection.map (·.participant) = some .waiting →
      (s.clients i).staleIds = []
  | _ => True

/-- No action is lost in a sync. -/
structure NothingLost (s : System ι K) : Prop where
  current : s.AcceptsCurrent
  master : ∀ k ∈ postedIds s.master.posted, k.clientId = s.master.id
  ids_inj : ∀ i j, (s.clients i).ui.id = (s.clients j).ui.id → i = j
  master_ne : ∀ i, (s.clients i).ui.id ≠ s.master.id
  clients : ∀ j, s.server.actions.LastIndexed ∧ (s.clients j).Safe s.server.actions.roll

variable {s s' : System ι K}

theorem NothingLost.tracked (hs : s.NothingLost) (j : ι) :
    ∀ l, (s.clients j).connection = some l → l.Tracked :=
  fun l hl => ((hs.current.clients j).live l hl).2

/-- An action that is accepted from a connection is one of its client. -/
theorem NothingLost.accepted_own (hs : s.NothingLost) {i : ι} {l l' : Connection K}
    {a : Acceptance} {p : K.Param} (hl : (s.clients i).connection = some l)
    (hr : l.read s.server = some (.accept l' a p)) :
    a.actionId ∈ (s.clients i).keptIds ∧ a.actionId.clientId = (s.clients i).ui.id := by
  have hsafe := (hs.clients i).2
  obtain ⟨r, -, -, hlive⟩ := hsafe.confirmed
  have hmem := (hlive l hl).acceptable_subset (hs.tracked i l hl) a.actionId (by
    rw [(Connection.acceptable_accept (Connection.read_cases hr)).1]
    exact List.mem_cons_self)
  exact ⟨hmem, hsafe.owned _ (List.mem_append_left _ hmem)⟩

theorem NothingLost.accepted_stale (hs : s.NothingLost) {i : ι} {n : ℕ} {l l' : Connection K}
    {a : Acceptance} {p : K.Param} (hl : (s.clients i).stale[n]? = some l)
    (hr : l.read s.server = some (.accept l' a p)) :
    a.actionId ∈ (s.clients i).staleIds ∧ a.actionId.clientId = (s.clients i).ui.id := by
  have hsafe := (hs.clients i).2
  have hmem : a.actionId ∈ (s.clients i).staleIds := by
    refine List.mem_flatMap.2 ⟨l, List.mem_of_getElem? hl, ?_⟩
    rw [(Connection.acceptable_accept (Connection.read_cases hr)).1]
    exact List.mem_cons_self
  exact ⟨hmem, hsafe.owned _ (List.mem_append_left _ (hsafe.stale _ hmem))⟩

theorem staleIds_set_sublist {c : Client K} {n : ℕ} {l l' : Connection K}
    (hl : c.stale[n]? = some l) (hacc : l'.acceptable.Sublist l.acceptable) :
    ((c.stale.set n l').flatMap (·.acceptable)).Sublist c.staleIds := by
  obtain ⟨pre, post, hold, hnew⟩ := Client.staleIds_set hl
  rw [Client.staleIds, hold, hnew]
  exact ((List.Sublist.refl _).append hacc).append (List.Sublist.refl _)

theorem clientStep_safe (hs : s.NothingLost) {e : Event ι K} (hsync : s.SyncsApart e)
    (hok : s.Undisturbed e) {j : ι} {net : NetworkServer K} {new : List Acceptance} {c' : Client K}
    (h : ClientStep s j e net new c') :
    net.actions.LastIndexed ∧ c'.Safe net.actions.roll := by
  obtain ⟨hnet, hc⟩ := hs.clients j
  have ht := hs.tracked j
  cases h with
  | stay => exact ⟨hnet, hc⟩
  | dispatch hd => exact ⟨hnet, hc.dispatch hok hd⟩
  | post hp => exact ⟨hnet, hc.post ht hp⟩
  | signal hsig hu => exact ⟨hnet, hc.signal hsig hu⟩
  | connect => exact ⟨hnet, hc.connect⟩
  | join hp => exact ⟨hnet, hc.deliver ht (fun _ => rfl) (fun _ => rfl) (by rw [hp]; rfl)⟩
  | read hr =>
    refine ⟨hnet, hc.read ht (fun l m down hl hd hm => ?_) hr⟩
    exact hok l hl m (by rw [hd]; rfl) hm
  | quit hp => exact ⟨hnet, hc.deliver ht (fun _ => rfl) (fun _ => rfl) (by rw [hp]; rfl)⟩
  | kill => exact ⟨hnet, hc.kill ht _⟩
  | serverRead hl hr =>
    have hcur := ((hs.current.clients j).live _ hl).1
    refine ⟨hnet, hc.setConnection hl (fun k hk _ => .inl hk) fun r hlive => ?_⟩
    exact hlive.read hcur hnet (Connection.read_cases hr) fun hp => hok (by rw [hl]; exact congrArg some hp)
  | accept hl hr hp =>
    have hroll := NetworkServer.push_roll hp
    refine ⟨NetworkServer.push_lastIndexed hp hnet, hroll ▸ hc.setConnection hl ?_ ?_⟩
    · intro k hk _
      rcases List.mem_append.1 ((Roll.ids_push_sublist _ _ _).subset hk) with hk | hk
      · exact .inl hk
      · rw [List.mem_singleton.1 hk]
        exact .inr (hs.accepted_own hl hr).1
    · exact fun r hlive => hlive.accept (ht _ hl) (Connection.read_cases hr)
  | serverReadStale hl hr =>
    have hacc := Connection.acceptable_read (Connection.read_cases hr)
    exact ⟨hnet, hc.setStale (staleIds_set_sublist hl hacc)⟩
  | acceptStale hl hr hp =>
    have hroll := NetworkServer.push_roll hp
    have hacc := (Connection.acceptable_accept (Connection.read_cases hr)).1
    refine ⟨NetworkServer.push_lastIndexed hp hnet, hroll ▸
      hc.acceptStale (hs.accepted_stale hl hr).1 (staleIds_set_sublist hl ?_) _⟩
    rw [hacc]
    exact List.sublist_cons_self _ _
  | leave hl =>
    exact ⟨hnet, hc.setConnection hl (fun k hk _ => .inl hk) fun r hlive =>
      hlive.leave fun m hm => hm⟩
  | leaveStale hl =>
    exact ⟨hnet, hc.setStale (staleIds_set_sublist hl (List.nil_sublist _))⟩
  | remove hl =>
    exact ⟨hnet, hc.setConnection hl (fun k hk _ => .inl hk) fun r hlive => hlive.remove⟩
  | removeStale hl =>
    exact ⟨hnet, hc.setStale (staleIds_set_sublist hl (List.Sublist.refl _))⟩
  | @masterAction k p posted _ hposted hp =>
    have hown := hs.master k (by rw [hposted]; exact List.mem_cons_self)
    exact ⟨NetworkServer.push_lastIndexed hp hnet, NetworkServer.push_roll hp ▸
      hc.broadcastAction (hown ▸ (hs.master_ne j).symm) p⟩
  | masterUndo hposted hk =>
    exact ⟨hnet.erase _, hnet.roll_erase hk ▸ hc.broadcastUndo hk (hnet.mem_keys hk)⟩
  | @masterSync t posted hposted =>
    obtain ⟨hlive, -⟩ := hsync (by simp only [sendsSync, hposted]) j
    exact ⟨s.server.actions.lastIndexed_clear,
      hc.broadcastSync rfl (fun _ => rfl) ht hlive t⟩
  | otherAction hi hl hr hp =>
    refine ⟨NetworkServer.push_lastIndexed hp hnet, NetworkServer.push_roll hp ▸
      hc.broadcastAction (fun he => hi ?_) _⟩
    exact hs.ids_inj _ _ ((hs.accepted_own hl hr).2.symm.trans he)
  | otherStaleAction hi hl hr hp =>
    refine ⟨NetworkServer.push_lastIndexed hp hnet, NetworkServer.push_roll hp ▸
      hc.broadcastAction (fun he => hi ?_) _⟩
    exact hs.ids_inj _ _ ((hs.accepted_stale hl hr).2.symm.trans he)

theorem masterStep_posted (hs : s.NothingLost) {e : Event ι K} {master : StoreManager K}
    (h : MasterStep s e master) : ∀ k ∈ postedIds master.posted, k.clientId = s.master.id := by
  cases h with
  | stay => exact hs.master
  | dispatch hd =>
    obtain ⟨k, -, hown, -, hposted⟩ := StoreManager.dispatch_posted hd
    rw [hposted, postedIds_append]
    intro k' hk'
    rcases List.mem_append.1 hk' with hk' | hk'
    · exact hs.master k' hk'
    · obtain rfl : k' = k := by simpa [postedIds] using hk'
      exact hown
  | undo hu =>
    rcases (StoreManager.undo_posted hu).2 with hposted | hposted
    · rw [hposted]
      exact hs.master
    · rw [hposted, postedIds_append]
      simpa [postedIds] using hs.master
  | sync t =>
    have hposted : (s.master.sync t).posted = s.master.posted ++ [.postSync t] := rfl
    rw [hposted, postedIds_append]
    simpa [postedIds] using hs.master
  | signal hsig hm =>
    rw [(StoreManager.receive_posted hm).2]
    exact hs.master
  | post hp =>
    have hmaster := hs.master
    rw [hp] at hmaster
    exact fun k hk => hmaster k (((List.sublist_cons_self _ _).filterMap _).subset hk)

/-- Undisturbed steps lose nothing. -/
theorem step_nothingLost [DecidableEq ι] {e : Event ι K} (hs : s.NothingLost)
    (hok : s.SyncsApart e ∧ s.Undisturbed e) (h : s.step e = some s') : s'.NothingLost := by
  obtain ⟨new, -, -, hstep⟩ := step_affects h
  obtain ⟨hm, -⟩ := step_master h
  have hid : ∀ j, (s'.clients j).ui.id = (s.clients j).ui.id := fun j => clientStep_id (hstep j)
  have hmid := masterStep_id hm
  exact {
    current := step_acceptsCurrent hs.current hok.1 h
    master := by
      rw [hmid]
      exact masterStep_posted hs hm
    ids_inj := fun i j => by
      rw [hid, hid]
      exact hs.ids_inj i j
    master_ne := fun i => by
      rw [hid, hmid]
      exact hs.master_ne i
    clients := fun j => clientStep_safe hs hok.1 hok.2 (hstep j) }

theorem init_nothingLost {masterId : ℕ} {ids : ι → ℕ} (hids : Function.Injective ids)
    (hne : ∀ i, ids i ≠ masterId) (t : T) (ts : ι → T) :
    (init K masterId t ids ts).NothingLost where
  current := init_acceptsCurrent masterId t ids ts
  master := by simp [init, StoreManager.init, postedIds]
  ids_inj i j h := hids h
  master_ne := hne
  clients j := by
    refine ⟨Table.lastIndexed_empty, StoreManager.plain_init _ _, ?_, Table.wf_empty, ?_, rfl, ?_,
      ⟨[], fun _ => false⟩, rfl, ?_, (by rintro _ ⟨⟩)⟩
    · simp [init, Client.init, Client.keptIds, Table.empty, StoreManager.init, postedIds]
    · simp [init, Client.init, Client.keptIds, Table.empty, StoreManager.init, postedIds]
    · simp [init, Client.init, Client.staleIds]
    · simp [init, Table.roll, Table.empty]

/-- No action is lost in a client sync.  In every run of undisturbed steps from the start, with syncs
apart, every confirmation that is about to be delivered to the store manager of a client is for the
first unconfirmed action, and a store manager to which all signals are delivered lists every action of
its client that is on the stack of the server. -/
theorem run_loses_nothing [DecidableEq ι] {masterId : ℕ} {ids : ι → ℕ}
    (hids : Function.Injective ids) (hne : ∀ i, ids i ≠ masterId) (t : T) (ts : ι → T)
    (es : List (Event ι K))
    (hes : Runs.Guarded step (fun s e => s.SyncsApart e ∧ s.Undisturbed e) es
      (init K masterId t ids ts)) {s : System ι K}
    (hrun : Runs.run step es (init K masterId t ids ts) = some s) (i : ι) :
    (∀ k signals, (s.clients i).signals = .actionConfirmReceived k :: signals →
      (s.clients i).ui.unconfirmedActionList.head?.map Entry.key = some k) ∧
    ((s.clients i).signals = [] → ∀ a ∈ s.server.stack, a.1.clientId = (s.clients i).ui.id →
      a.1 ∈ keys ((s.clients i).ui.confirmedActionList ++ (s.clients i).ui.unconfirmedActionList)) := by
  have hinv := Runs.run_inv (fun _ _ _ => step_nothingLost) (init_nothingLost hids hne t ts) hes hrun
  have hsafe := (hinv.clients i).2
  have hpending := hsafe.pending
  constructor
  · intro k signals hsignals
    rw [hsignals] at hpending
    obtain ⟨p, hp, -⟩ := Runs.run_cons hpending
    simp only [receivePending] at hp
    split at hp
    · rename_i hk
      simpa [StoreManager.pendingIds, keys] using hk
    · cases hp
  · intro hsignals a ha hid
    obtain ⟨r, hr, hlisted, -⟩ := hsafe.confirmed
    rw [hsignals] at hr hpending
    have hids : a.1 ∈ s.server.actions.roll.ids := by
      rw [Table.roll, ← keys_items]
      exact List.mem_map_of_mem ha
    have := hlisted a.1 hids hid
    rw [← Option.some.inj hpending, ← Option.some.inj hr] at this
    rw [keys_append]
    exact this

instance (s : System ι K) (e : Event ι K) : Decidable (s.Undisturbed e) :=
  match e with
  | .clientDispatch i _ _ =>
    inferInstanceAs (Decidable (∀ signal ∈ (s.clients i).signals, signal.isSync = false))
  | .clientRead i => inferInstanceAs (Decidable (∀ l ∈ (s.clients i).connection,
      ∀ m ∈ l.down.head?, isSync m = true → (s.clients i).ui.posted = []))
  | .serverRead i => inferInstanceAs (Decidable
      ((s.clients i).connection.map (·.participant) = some .waiting → (s.clients i).staleIds = []))
  | .masterDispatch _ _ | .masterUndo _ | .masterSync _ | .masterSignal | .serverPost
  | .clientPost _ | .clientSignal _ | .clientConnect _ | .clientJoin _ | .clientQuit _
  | .clientKill _ _ | .serverReadStale _ _ | .serverLeave _ | .serverLeaveStale _ _
  | .serverRemove _ | .serverRemoveStale _ _ => .isTrue trivial

/-- An action dispatched before the client connects is resent; after a sync of the master another one
is dispatched and acknowledged. -/
def syncedTwice : List (Event (Fin 1) scoreActions) :=
  [.clientDispatch 0 [0] (1 : ℤ), .clientPost 0] ++ connecting ++ [.serverRead 0, .clientSignal 0,
    .masterSync (5 : ℤ), .serverPost, .clientRead 0, .clientSignal 0, .clientRead 0, .clientSignal 0,
    .serverRead 0, .clientDispatch 0 [1] (2 : ℤ), .clientPost 0, .serverRead 0, .clientRead 0]

theorem run_loses_nothing_syncedTwice :
    ∃ s, Runs.run step syncedTwice pair = some s ∧
      (s.clients 0).signals.map Signal.confirmId = [some ⟨1, 1⟩] ∧
      (s.clients 0).ui.unconfirmedActionList.head?.map Entry.key = some ⟨1, 1⟩ := by
  have h : (Runs.run step syncedTwice pair).map
      (fun s => (s.clients 0).signals.map Signal.confirmId) = some [some ⟨1, 1⟩] := by
    decide +kernel
  obtain ⟨s, hs, hsignals⟩ := Option.map_eq_some_iff.1 h
  refine ⟨s, hs, hsignals, ?_⟩
  have hids : Function.Injective fun _ : Fin 1 => 1 := fun i j _ => Subsingleton.elim i j
  have hnone := run_loses_nothing hids (fun _ => Nat.one_ne_zero) (0 : ℤ) (fun _ => (0 : ℤ))
    syncedTwice (by decide +kernel) hs 0
  obtain ⟨signal, signals, hq, hk⟩ : ∃ signal signals, (s.clients 0).signals = signal :: signals ∧
      signal.confirmId = some ⟨1, 1⟩ := by
    cases hq : (s.clients 0).signals with
    | nil =>
      rw [hq] at hsignals
      cases hsignals
    | cons signal signals =>
      rw [hq] at hsignals
      exact ⟨signal, signals, rfl, (List.cons.inj hsignals).1⟩
  cases signal with
  | actionConfirmReceived k =>
    cases hk
    exact hnone.1 _ _ hq
  | _ => cases hk

/-- An action is dispatched after the network thread has handled a `SYNC` and before the store manager
receives it. -/
def dispatchDuringSync : List (Event (Fin 1) scoreActions) :=
  connecting ++ [.clientSignal 0, .masterSync (5 : ℤ), .serverPost, .clientRead 0,
    .clientDispatch 0 [0] (1 : ℤ), .clientPost 0, .clientSignal 0, .serverRead 0, .serverRead 0]

/-- The server accepts an action that the store manager of its client no longer lists, and the
confirmation finds no unconfirmed action. -/
theorem dispatch_during_sync_lost :
    ∃ s s', Runs.run step dispatchDuringSync pair = some s ∧ s.step (.clientRead 0) = some s' ∧
      Runs.Guarded step SyncsApart dispatchDuringSync pair ∧
      (s.clients 0).signals = [] ∧ s.server.stack.map Prod.fst = [⟨1, 0⟩] ∧
      keys ((s.clients 0).ui.confirmedActionList ++ (s.clients 0).ui.unconfirmedActionList) = [] ∧
      (s'.clients 0).signals.map Signal.confirmId = [some ⟨1, 0⟩] ∧
      (s'.clients 0).ui.unconfirmedActionList.head?.map Entry.key = none := by
  have h : (Runs.run step dispatchDuringSync pair).bind (fun s => (s.step (.clientRead 0)).map
      fun s' => decide ((s.clients 0).signals = [] ∧ s.server.stack.map Prod.fst = [⟨1, 0⟩] ∧
        keys ((s.clients 0).ui.confirmedActionList ++ (s.clients 0).ui.unconfirmedActionList) =
          [] ∧
        (s'.clients 0).signals.map Signal.confirmId = [some ⟨1, 0⟩] ∧
        (s'.clients 0).ui.unconfirmedActionList.head?.map Entry.key = none)) = some true := by
    decide +kernel
  obtain ⟨s, hs, h⟩ := Option.bind_eq_some_iff.1 h
  obtain ⟨s', hs', h⟩ := Option.map_eq_some_iff.1 h
  exact ⟨s, s', hs, hs', by decide +kernel, of_decide_eq_true h⟩

end System

end JudoAssistant
