import JudoAssistant.Lib.Run
import JudoAssistant.Network.Replica
import JudoAssistant.StoreManager.Runs

/-!
# The connection of the master to the web server

`WebClient` (`src/ui/web/web_client.cpp`) registers a web name, answers the web server's request for the
time and sends it the tournament; from then on it passes on what `NetworkServer` delivers.  Both run on
the network thread of the master, where the callbacks of the connection and the calls that the store
manager posts are interleaved.  A closed connection aborts what is under way on it, and a callback that
is told so closes the connection that is open by then.
-/

namespace JudoAssistant

open Undoable

variable {T : Type}

/-- The messages that are written after the registration request. -/
inductive WebMessage (K : ActionModel T) where
  | clockSync (time : ℕ)
  | sync (tournament : T) (actions : List (ClientActionId × K.Param))
  | action (actionId : ClientActionId) (action : K.Param)
  | undo (actionId : ClientActionId)
  | quit

/-- `WebClientState`, without the stages of a login. -/
inductive WebClientState where
  | notConnected
  | connected
  | configuring
  | configured
  deriving DecidableEq, Repr

/-- The callback that the handshake waits for. -/
inductive Handshake where
  | nothing
  | requestWritten
  | registrationResponse
  | clockSyncRequest
  | anyMessage
  deriving DecidableEq, Repr

/-- `WebClient`.  `sent` and `written` are no fields: the messages delivered since the registration
request, and those handed to the connection. -/
structure WebClient (K : ActionModel T) where
  state : WebClientState := .notConnected
  disconnecting : Bool := false
  writeQueue : List (WebMessage K) := []
  handshake : Handshake := .nothing
  sent : List (WebMessage K) := []
  written : List (WebMessage K) := []

/-- The network thread of the master. -/
structure WebLink (K : ActionModel T) where
  server : NetworkServer K
  client : WebClient K

variable {K : ActionModel T}

namespace WebClient

variable (c : WebClient K)

/-- `WebClient::killConnection` -/
def killConnection : WebClient K :=
  { c with state := .notConnected, disconnecting := false, writeQueue := [], handshake := .nothing }

/-- `WebClient::deliver` -/
def deliver (message : WebMessage K) : WebClient K :=
  if c.state ≠ .configured ∨ c.disconnecting = true then c
  else
    { c with
      writeQueue := c.writeQueue ++ [message]
      sent := c.sent ++ [message]
      written := if c.writeQueue.isEmpty then c.written ++ [message] else c.written }

/-- The callback of `WebClient::writeMessage`. -/
def finishWrite (success : Bool) : Option (WebClient K) :=
  match c.writeQueue with
  | [] => none
  | _ :: queue =>
    if !success then some c.killConnection
    else match queue with
      | message :: _ => some { c with writeQueue := queue, written := c.written ++ [message] }
      | [] =>
        let c := { c with writeQueue := [] }
        some (if c.disconnecting then c.killConnection else c)

/-- `WebClient::loginUser`, when it succeeds. -/
def login : Option (WebClient K) :=
  if c.state = .notConnected then some { c with state := .connected } else none

/-- `WebClient::registerWebName` -/
def registerWebName : Option (WebClient K) :=
  if c.state = .connected then
    some (if c.disconnecting then c.killConnection
      else { c with state := .configuring, handshake := .requestWritten, sent := [], written := [] })
  else none

/-- The registration request is written. -/
def finishRequest (success : Bool) : Option (WebClient K) :=
  if c.handshake = .requestWritten then
    some (if !success || c.disconnecting then c.killConnection
      else { c with handshake := .registrationResponse })
  else none

/-- The response to the registration request is read. -/
def readResponse (success : Bool) : Option (WebClient K) :=
  if c.handshake = .registrationResponse then
    some (if !success || c.disconnecting then c.killConnection
      else { c with state := .configured, handshake := .clockSyncRequest })
  else none

/-- The part of `WebClient::enterConfigured` up to the read. -/
def enterConfigured (server : NetworkServer K) : WebClient K :=
  { c.deliver (.sync server.tournament server.stack) with handshake := .anyMessage }

/-- The callback of `WebClient::enterClockSync`. -/
def readClockSyncRequest (server : NetworkServer K) (success : Bool) (time : ℕ) : Option (WebClient K) :=
  if c.handshake = .clockSyncRequest then
    some (if c.disconnecting || !success then c.killConnection
      else (c.deliver (.clockSync time)).enterConfigured server)
  else none

/-- The callback of `WebClient::enterConfigured`. -/
def readMessage : Option (WebClient K) :=
  if c.handshake = .anyMessage then some c.killConnection else none

/-- `WebClient::disconnect` -/
def disconnect : WebClient K :=
  if c.state = .notConnected then c
  else
    let c := { c with disconnecting := true }
    if c.state = .configured ∧ c.writeQueue.isEmpty = true then c.killConnection else c

end WebClient

namespace WebLink

/-- What can happen on the network thread. -/
inductive Event (K : ActionModel T) where
  | login
  | registerWebName
  | finishRequest (success : Bool)
  | readResponse (success : Bool)
  | readClockSyncRequest (success : Bool) (time : ℕ)
  | readMessage
  | finishWrite (success : Bool)
  | abort
  | disconnect
  | postSync (tournament : T)
  | postAction (actionId : ClientActionId) (action : K.Param)
  | postUndo (actionId : ClientActionId)
  | deliverAction (actionId : ClientActionId) (action : K.Param)

variable (l : WebLink K)

/-- `NetworkServer::deliver`, to the web client. -/
def deliver (message : WebMessage K) : WebLink K := { l with client := l.client.deliver message }

/-- The part of `NetworkServer::postAction` and `deliverAction` that the web client sees. -/
def pushAction (actionId : ClientActionId) (action : K.Param) : Option (WebLink K) := do
  let server ← l.server.push actionId action
  return { l with server := server }.deliver (.action actionId action)

/-- `NetworkServer::postUndo` -/
def postUndo (actionId : ClientActionId) : WebLink K :=
  if l.server.actions.contains actionId then
    { l with server := { l.server with actions := l.server.actions.erase actionId } }.deliver (.undo actionId)
  else l

/-- `NetworkServer::postSync` -/
def postSync (tournament : T) : WebLink K :=
  { l with server := ⟨tournament, l.server.actions.clear⟩ }.deliver (.sync tournament [])

/-- One step.  There is none for an event that cannot happen. -/
def step : Event K → Option (WebLink K)
  | .login => l.client.login.map fun c => { l with client := c }
  | .registerWebName => l.client.registerWebName.map fun c => { l with client := c }
  | .finishRequest success => (l.client.finishRequest success).map fun c => { l with client := c }
  | .readResponse success => (l.client.readResponse success).map fun c => { l with client := c }
  | .readClockSyncRequest success time =>
    (l.client.readClockSyncRequest l.server success time).map fun c => { l with client := c }
  | .readMessage => l.client.readMessage.map fun c => { l with client := c }
  | .finishWrite success => (l.client.finishWrite success).map fun c => { l with client := c }
  | .abort => some { l with client := l.client.killConnection }
  | .disconnect => some { l with client := l.client.disconnect }
  | .postSync tournament => some (l.postSync tournament)
  | .postAction actionId action => l.pushAction actionId action
  | .postUndo actionId => some (l.postUndo actionId)
  | .deliverAction actionId action => l.pushAction actionId action

/-- The network thread when the master has started with a tournament. -/
def init (K : ActionModel T) (tournament : T) : WebLink K := ⟨⟨tournament, Table.empty⟩, {}⟩

end WebLink

/-! ### What the messages reproduce -/

namespace WebMessage

/-- The messages that may follow the first `SYNC` message. -/
def isUpdate : WebMessage K → Bool
  | .sync _ _ | .action _ _ | .undo _ | .quit => true
  | .clockSync _ => false

/-- What a message makes of a tournament with the actions on top of it. -/
def replay (v : View K) : WebMessage K → View K
  | .sync tournament actions => ⟨tournament, actions⟩
  | .action actionId a => v.push ∅ (actionId, a)
  | .undo actionId => ⟨v.base, Table.eraseLast actionId v.log⟩
  | .clockSync _ | .quit => v

end WebMessage

/-- The server holds actions that were never redone, and its map names their last occurrences. -/
structure NetworkServer.Tracked (server : NetworkServer K) : Prop where
  latest : server.actions.Latest
  fresh : ∀ e ∈ server.actions.entries, e.obj = Obj.fresh e.obj.param

namespace NetworkServer

variable {server server' : NetworkServer K}

theorem Tracked.push (h : server.Tracked) {k : ClientActionId} {p : K.Param}
    (hpush : server.push k p = some server') :
    server'.Tracked ∧ server'.view = WebMessage.replay server.view (.action k p) := by
  obtain ⟨server'', hpush', hview, hfresh, hactions⟩ := push_view h.fresh k p
  rw [hpush, Option.some.injEq] at hpush'
  subst hpush'
  refine ⟨⟨?_, hfresh⟩, hview⟩
  rcases hactions with hactions | hactions
  · exact hactions ▸ h.latest.push k _
  · exact hactions ▸ (h.latest.push k _).popFront

theorem Tracked.erase (h : server.Tracked) {k : ClientActionId} (hk : server.actions.contains k = true) :
    ({ server with actions := server.actions.erase k } : NetworkServer K).Tracked ∧
      ({ server with actions := server.actions.erase k } : NetworkServer K).view =
        WebMessage.replay server.view (.undo k) := by
  refine ⟨⟨h.latest.erase hk, fun e he => h.fresh e ((server.actions.erase_sublist k).subset he)⟩, ?_⟩
  simp only [view, stack, WebMessage.replay, h.latest.items_erase hk]

end NetworkServer

namespace WebLink

/-- The messages are the time, a tournament and its updates. -/
def Ordered (sent : List (WebMessage K)) : Prop :=
  sent = [] ∨ ∃ time tournament actions rest, sent = .clockSync time :: .sync tournament actions :: rest ∧
    ∀ m ∈ rest, m.isUpdate = true

/-- The messages reproduce a tournament with the actions on top of it. -/
def Reproduces (sent : List (WebMessage K)) (v : View K) : Prop :=
  ∃ time tournament actions rest, sent = .clockSync time :: .sync tournament actions :: rest ∧
    (∀ m ∈ rest, m.isUpdate = true) ∧ rest.foldl WebMessage.replay ⟨tournament, actions⟩ = v

theorem Reproduces.ordered {sent : List (WebMessage K)} {v : View K} (h : Reproduces sent v) :
    Ordered sent := by
  obtain ⟨time, t, actions, rest, hsent, hrest, -⟩ := h
  exact .inr ⟨time, t, actions, rest, hsent, hrest⟩

theorem Reproduces.concat {sent : List (WebMessage K)} {v : View K} (h : Reproduces sent v)
    {m : WebMessage K} (hm : m.isUpdate = true) : Reproduces (sent ++ [m]) (m.replay v) := by
  obtain ⟨time, t, actions, rest, hsent, hrest, hreplay⟩ := h
  refine ⟨time, t, actions, rest ++ [m], by rw [hsent]; rfl, ?_, ?_⟩
  · intro m' hm'
    rcases List.mem_append.1 hm' with hm' | hm'
    · exact hrest m' hm'
    · rw [List.mem_singleton.1 hm']
      exact hm
  · rw [List.foldl_append, hreplay]
    rfl

/-- The web client passes messages on before the request for the time has come. -/
def Early (l : WebLink K) : Prop :=
  l.client.state = .configured ∧ l.client.disconnecting = false ∧ l.client.handshake = .clockSyncRequest

instance (l : WebLink K) : Decidable l.Early := inferInstanceAs (Decidable (_ ∧ _ ∧ _))

/-- The server has nothing to deliver while the web client is early. -/
def Quiet (l : WebLink K) : Event K → Prop
  | .postSync _ | .postAction _ _ | .deliverAction _ _ => ¬l.Early
  | .postUndo actionId => l.server.actions.contains actionId = true → ¬l.Early
  | _ => True

instance (l : WebLink K) : (event : Event K) → Decidable (l.Quiet event)
  | .postSync _ | .postAction _ _ | .deliverAction _ _ => inferInstanceAs (Decidable (¬_))
  | .postUndo _ => inferInstanceAs (Decidable (_ → ¬_))
  | .login | .registerWebName | .finishRequest _ | .readResponse _ | .readClockSyncRequest _ _ | .readMessage
  | .finishWrite _ | .abort | .disconnect => inferInstanceAs (Decidable True)

/-- What holds of the connection at every time. -/
structure Faithful (l : WebLink K) : Prop where
  server : l.server.Tracked
  ordered : Ordered l.client.sent
  written : l.client.written <+: l.client.sent
  queue : l.client.state = .configured → l.client.sent = l.client.written ++ l.client.writeQueue.tail
  idle : l.client.state ≠ .configured → l.client.writeQueue = []
  stage : l.client.state = .configured → l.client.handshake = .clockSyncRequest ∨
    l.client.handshake = .anyMessage
  handshaking : l.client.handshake ≠ .anyMessage → l.client.handshake ≠ .nothing → l.client.sent = []
  reproduces : l.client.state = .configured → l.client.disconnecting = false →
    l.client.handshake = .anyMessage → Reproduces l.client.sent l.server.view

end WebLink

namespace WebClient

variable {c : WebClient K}

theorem deliver_of_not (h : ¬(c.state = .configured ∧ c.disconnecting = false)) (m : WebMessage K) :
    c.deliver m = c := by
  unfold deliver
  split
  · rfl
  · rename_i hopen
    rw [not_or, not_not, Bool.not_eq_true] at hopen
    exact absurd hopen h

@[simp]
theorem state_deliver (m : WebMessage K) : (c.deliver m).state = c.state := by
  unfold deliver
  split <;> rfl

@[simp]
theorem disconnecting_deliver (m : WebMessage K) : (c.deliver m).disconnecting = c.disconnecting := by
  unfold deliver
  split <;> rfl

@[simp]
theorem handshake_deliver (m : WebMessage K) : (c.deliver m).handshake = c.handshake := by
  unfold deliver
  split <;> rfl

theorem sent_deliver (hstate : c.state = .configured) (hopen : c.disconnecting = false)
    (m : WebMessage K) : (c.deliver m).sent = c.sent ++ [m] := by
  unfold deliver
  rw [if_neg]
  rw [not_or, not_not, Bool.not_eq_true]
  exact ⟨hstate, hopen⟩

theorem queue_deliver (h : c.sent = c.written ++ c.writeQueue.tail) (m : WebMessage K) :
    (c.deliver m).sent = (c.deliver m).written ++ (c.deliver m).writeQueue.tail := by
  unfold deliver
  split
  · exact h
  · cases hqueue : c.writeQueue with
    | nil =>
      rw [hqueue, List.tail_nil, List.append_nil] at h
      simp [h]
    | cons m' queue =>
      rw [hqueue, List.tail_cons] at h
      simp [h]

end WebClient

namespace WebLink

variable {l l' : WebLink K}

theorem Faithful.killConnection (h : l.Faithful) :
    ({ l with client := l.client.killConnection } : WebLink K).Faithful where
  server := h.server
  ordered := h.ordered
  written := h.written
  queue hstate := by cases hstate
  idle _ := rfl
  stage hstate := by cases hstate
  handshaking _ hnothing := absurd rfl hnothing
  reproduces hstate := by cases hstate

/-- An update is passed on when the tournament was sent, or not at all. -/
theorem Faithful.deliver (h : l.Faithful) {server : NetworkServer K} {m : WebMessage K}
    (hquiet : ¬l.Early) (hserver : server.Tracked) (hm : m.isUpdate = true)
    (hview : server.view = m.replay l.server.view) :
    (({ l with server := server } : WebLink K).deliver m).Faithful := by
  by_cases hopen : l.client.state = .configured ∧ l.client.disconnecting = false
  · have hstage : l.client.handshake = .anyMessage :=
      (h.stage hopen.1).resolve_left fun hearly => hquiet ⟨hopen.1, hopen.2, hearly⟩
    have hsent : Reproduces (l.client.deliver m).sent server.view := by
      rw [WebClient.sent_deliver hopen.1 hopen.2, hview]
      exact (h.reproduces hopen.1 hopen.2 hstage).concat hm
    have hqueue := WebClient.queue_deliver (h.queue hopen.1) m
    exact
      { server := hserver
        ordered := hsent.ordered
        written := ⟨_, hqueue.symm⟩
        queue := fun _ => hqueue
        idle := fun hstate => absurd (l.client.state_deliver m ▸ hopen.1) hstate
        stage := fun _ => .inr (l.client.handshake_deliver m ▸ hstage)
        handshaking := fun hany => absurd (l.client.handshake_deliver m ▸ hstage) hany
        reproduces := fun _ _ _ => hsent }
  · simp only [WebLink.deliver, WebClient.deliver_of_not hopen]
    exact
      { server := hserver
        ordered := h.ordered
        written := h.written
        queue := h.queue
        idle := h.idle
        stage := h.stage
        handshaking := h.handshaking
        reproduces := fun hstate hdisconnecting => absurd ⟨hstate, hdisconnecting⟩ hopen }

theorem Faithful.pushAction (h : l.Faithful) (hquiet : ¬l.Early) {k : ClientActionId} {p : K.Param}
    (hstep : l.pushAction k p = some l') : l'.Faithful := by
  obtain ⟨server, hpush, hl'⟩ := Option.bind_eq_some_iff.1 hstep
  cases hl'
  obtain ⟨hserver, hview⟩ := h.server.push hpush
  exact h.deliver hquiet hserver rfl hview

theorem Faithful.postUndo (h : l.Faithful) {k : ClientActionId}
    (hquiet : l.server.actions.contains k = true → ¬l.Early) : (l.postUndo k).Faithful := by
  unfold WebLink.postUndo
  split
  · rename_i hk
    obtain ⟨hserver, hview⟩ := h.server.erase hk
    exact h.deliver (hquiet hk) hserver rfl hview
  · exact h

theorem Faithful.postSync (h : l.Faithful) (hquiet : ¬l.Early) (t : T) : (l.postSync t).Faithful := by
  refine h.deliver hquiet ⟨Table.latest_clear _, ?_⟩ rfl rfl
  intro e he
  cases he

/-- After the request for the time, the time and the tournament are sent. -/
theorem Faithful.enterConfigured (h : l.Faithful) (hstage : l.client.handshake = .clockSyncRequest)
    (time : ℕ) : ({ l with
      client := (l.client.deliver (.clockSync time)).enterConfigured l.server } : WebLink K).Faithful := by
  have hsent : l.client.sent = [] := h.handshaking (by rw [hstage]; decide) (by rw [hstage]; decide)
  by_cases hopen : l.client.state = .configured ∧ l.client.disconnecting = false
  · have hqueue := WebClient.queue_deliver (WebClient.queue_deliver (h.queue hopen.1) (.clockSync time))
      (.sync l.server.tournament l.server.stack)
    have hfirst : Reproduces ((l.client.deliver (.clockSync time)).deliver
        (.sync l.server.tournament l.server.stack)).sent l.server.view := by
      rw [WebClient.sent_deliver (by simpa using hopen.1) (by simpa using hopen.2),
        WebClient.sent_deliver hopen.1 hopen.2, hsent]
      exact ⟨time, l.server.tournament, l.server.stack, [], rfl, fun m hm => absurd hm List.not_mem_nil, rfl⟩
    exact
      { server := h.server
        ordered := hfirst.ordered
        written := ⟨_, hqueue.symm⟩
        queue := fun _ => hqueue
        idle := fun hstate => absurd (by simpa [WebClient.enterConfigured] using hopen.1) hstate
        stage := fun _ => .inr rfl
        handshaking := fun hany => absurd rfl hany
        reproduces := fun _ _ _ => hfirst }
  · simp only [WebClient.enterConfigured, WebClient.deliver_of_not hopen]
    exact
      { server := h.server
        ordered := h.ordered
        written := h.written
        queue := h.queue
        idle := h.idle
        stage := fun _ => .inr rfl
        handshaking := fun hany => absurd rfl hany
        reproduces := fun hstate hdisconnecting => absurd ⟨hstate, hdisconnecting⟩ hopen }

theorem Faithful.finishWrite (h : l.Faithful) {success : Bool} {c : WebClient K}
    (hstep : l.client.finishWrite success = some c) : ({ l with client := c } : WebLink K).Faithful := by
  unfold WebClient.finishWrite at hstep
  cases hqueue : l.client.writeQueue with
  | nil => simp [hqueue] at hstep
  | cons m queue =>
    have hstate : l.client.state = .configured := by
      by_contra hstate
      simp [h.idle hstate] at hqueue
    have hsent : l.client.sent = l.client.written ++ queue := by
      rw [h.queue hstate, hqueue, List.tail_cons]
    simp only [hqueue] at hstep
    cases success with
    | false =>
      cases hstep
      exact h.killConnection
    | true =>
      cases queue with
      | nil =>
        cases hdisconnecting : l.client.disconnecting with
        | true =>
          simp only [hdisconnecting, Bool.not_true, Bool.false_eq_true, if_false, if_true,
            Option.some.injEq] at hstep
          rw [← hstep]
          exact h.killConnection
        | false =>
          simp only [hdisconnecting, Bool.not_true, Bool.false_eq_true, if_false,
            Option.some.injEq] at hstep
          rw [← hstep]
          exact
            { server := h.server
              ordered := h.ordered
              written := h.written
              queue := fun _ => hsent
              idle := fun _ => rfl
              stage := h.stage
              handshaking := h.handshaking
              reproduces := fun hstate _ => h.reproduces hstate hdisconnecting }
      | cons m' queue =>
        simp only [Bool.not_true, Bool.false_eq_true, if_false, Option.some.injEq] at hstep
        rw [← hstep]
        have hsent' : l.client.sent = (l.client.written ++ [m']) ++ queue := by
          rw [hsent, List.append_assoc, List.singleton_append]
        exact
          { server := h.server
            ordered := h.ordered
            written := ⟨queue, hsent'.symm⟩
            queue := fun _ => hsent'
            idle := fun hnot => absurd hstate hnot
            stage := h.stage
            handshaking := h.handshaking
            reproduces := h.reproduces }

theorem Faithful.login (h : l.Faithful) {c : WebClient K} (hstep : l.client.login = some c) :
    ({ l with client := c } : WebLink K).Faithful := by
  unfold WebClient.login at hstep
  split at hstep
  · rename_i hstate
    cases hstep
    have hidle : l.client.state ≠ .configured := by
      rw [hstate]
      decide
    exact
      { server := h.server
        ordered := h.ordered
        written := h.written
        queue := fun hconfigured => by cases hconfigured
        idle := fun _ => h.idle hidle
        stage := fun hconfigured => by cases hconfigured
        handshaking := h.handshaking
        reproduces := fun hconfigured => by cases hconfigured }
  · cases hstep

theorem Faithful.registerWebName (h : l.Faithful) {c : WebClient K}
    (hstep : l.client.registerWebName = some c) : ({ l with client := c } : WebLink K).Faithful := by
  unfold WebClient.registerWebName at hstep
  split at hstep
  · rename_i hstate
    have hidle : l.client.state ≠ .configured := by
      rw [hstate]
      decide
    cases hstep
    split
    · exact h.killConnection
    · exact
        { server := h.server
          ordered := .inl rfl
          written := List.prefix_rfl
          queue := fun hconfigured => by cases hconfigured
          idle := fun _ => h.idle hidle
          stage := fun hconfigured => by cases hconfigured
          handshaking := fun _ _ => rfl
          reproduces := fun hconfigured => by cases hconfigured }
  · cases hstep

/-- Nothing is sent during the registration. -/
theorem Faithful.registering (h : l.Faithful) (hany : l.client.handshake ≠ .anyMessage)
    (hnothing : l.client.handshake ≠ .nothing) (hclock : l.client.handshake ≠ .clockSyncRequest) :
    l.client.state ≠ .configured ∧ l.client.sent = [] ∧ l.client.written = [] ∧
      l.client.writeQueue = [] := by
  have hstate : l.client.state ≠ .configured := by
    intro hstate
    rcases h.stage hstate with hstage | hstage
    · exact hclock hstage
    · exact hany hstage
  have hsent := h.handshaking hany hnothing
  have hwritten := h.written
  rw [hsent] at hwritten
  exact ⟨hstate, hsent, List.prefix_nil.1 hwritten, h.idle hstate⟩

theorem Faithful.finishRequest (h : l.Faithful) {success : Bool} {c : WebClient K}
    (hstep : l.client.finishRequest success = some c) : ({ l with client := c } : WebLink K).Faithful := by
  unfold WebClient.finishRequest at hstep
  split at hstep
  · rename_i hstage
    obtain ⟨hstate, hsent, -, hqueue⟩ := h.registering (by rw [hstage]; decide) (by rw [hstage]; decide)
      (by rw [hstage]; decide)
    cases hstep
    split
    · exact h.killConnection
    · exact
        { server := h.server
          ordered := h.ordered
          written := h.written
          queue := h.queue
          idle := fun _ => hqueue
          stage := fun hconfigured => absurd hconfigured hstate
          handshaking := fun _ _ => hsent
          reproduces := fun hconfigured => absurd hconfigured hstate }
  · cases hstep

theorem Faithful.readResponse (h : l.Faithful) {success : Bool} {c : WebClient K}
    (hstep : l.client.readResponse success = some c) : ({ l with client := c } : WebLink K).Faithful := by
  unfold WebClient.readResponse at hstep
  split at hstep
  · rename_i hstage
    obtain ⟨hstate, hsent, hwritten, hqueue⟩ := h.registering (by rw [hstage]; decide)
      (by rw [hstage]; decide) (by rw [hstage]; decide)
    cases hstep
    split
    · exact h.killConnection
    · exact
        { server := h.server
          ordered := h.ordered
          written := h.written
          queue := fun _ => by simp only [hsent, hwritten, hqueue, List.tail_nil, List.append_nil]
          idle := fun hnot => absurd rfl hnot
          stage := fun _ => .inl rfl
          handshaking := fun _ _ => hsent
          reproduces := fun _ _ hany => by cases hany }
  · cases hstep

theorem Faithful.readClockSyncRequest (h : l.Faithful) {success : Bool} {time : ℕ} {c : WebClient K}
    (hstep : l.client.readClockSyncRequest l.server success time = some c) :
    ({ l with client := c } : WebLink K).Faithful := by
  unfold WebClient.readClockSyncRequest at hstep
  split at hstep
  · rename_i hstage
    cases hstep
    split
    · exact h.killConnection
    · exact h.enterConfigured hstage time
  · cases hstep

theorem Faithful.disconnect (h : l.Faithful) :
    ({ l with client := l.client.disconnect } : WebLink K).Faithful := by
  unfold WebClient.disconnect
  split
  · exact h
  · simp only
    split
    · exact h.killConnection
    · exact
        { server := h.server
          ordered := h.ordered
          written := h.written
          queue := h.queue
          idle := h.idle
          stage := h.stage
          handshaking := h.handshaking
          reproduces := fun _ hopen => by cases hopen }

theorem faithful_init (K : ActionModel T) (t : T) : (init K t).Faithful where
  server := ⟨Table.latest_empty, fun e he => absurd he List.not_mem_nil⟩
  ordered := .inl rfl
  written := List.prefix_rfl
  queue hstate := by cases hstate
  idle _ := rfl
  stage hstate := by cases hstate
  handshaking _ hnothing := absurd rfl hnothing
  reproduces hstate := by cases hstate

theorem faithful_step {event : Event K} (h : l.Faithful) (hquiet : l.Quiet event)
    (hstep : l.step event = some l') : l'.Faithful := by
  cases event with
  | login =>
    obtain ⟨c, hc, rfl⟩ := Option.map_eq_some_iff.1 hstep
    exact h.login hc
  | registerWebName =>
    obtain ⟨c, hc, rfl⟩ := Option.map_eq_some_iff.1 hstep
    exact h.registerWebName hc
  | finishRequest success =>
    obtain ⟨c, hc, rfl⟩ := Option.map_eq_some_iff.1 hstep
    exact h.finishRequest hc
  | readResponse success =>
    obtain ⟨c, hc, rfl⟩ := Option.map_eq_some_iff.1 hstep
    exact h.readResponse hc
  | readClockSyncRequest success time =>
    obtain ⟨c, hc, rfl⟩ := Option.map_eq_some_iff.1 hstep
    exact h.readClockSyncRequest hc
  | readMessage =>
    obtain ⟨c, hc, rfl⟩ := Option.map_eq_some_iff.1 hstep
    unfold WebClient.readMessage at hc
    split at hc
    · cases hc
      exact h.killConnection
    · cases hc
  | finishWrite success =>
    obtain ⟨c, hc, rfl⟩ := Option.map_eq_some_iff.1 hstep
    exact h.finishWrite hc
  | abort =>
    cases hstep
    exact h.killConnection
  | disconnect =>
    cases hstep
    exact h.disconnect
  | postSync t =>
    cases hstep
    exact h.postSync hquiet t
  | postAction k p => exact h.pushAction hquiet hstep
  | postUndo k =>
    cases hstep
    exact h.postUndo hquiet
  | deliverAction k p => exact h.pushAction hquiet hstep

/-- In every run in which the server has nothing to deliver between the response to the registration and
the request for the time: the messages are handed to the connection in the order in which they were sent,
they are the time, the tournament with its actions and then its updates, and as long as the connection
stays open they reproduce the tournament and the actions of the server. -/
theorem run_inOrder (tournament : T) (events : List (Event K)) (l : WebLink K)
    (hevents : Runs.Guarded step Quiet events (init K tournament))
    (hrun : Runs.run step events (init K tournament) = some l) :
    l.client.written <+: l.client.sent ∧ Ordered l.client.sent ∧
      (l.client.state = .configured → l.client.sent = l.client.written ++ l.client.writeQueue.tail) ∧
      (l.client.state = .configured → l.client.disconnecting = false → l.client.sent ≠ [] →
        Reproduces l.client.sent l.server.view) := by
  have h : l.Faithful := by
    refine Runs.run_inv ?_ (faithful_init K tournament) hevents hrun
    intro l event l' h hquiet hstep
    exact faithful_step h hquiet hstep
  refine ⟨h.written, h.ordered, h.queue, fun hstate hopen hsent => ?_⟩
  rcases h.stage hstate with hstage | hstage
  · exact absurd (h.handshaking (by rw [hstage]; decide) (by rw [hstage]; decide)) hsent
  · exact h.reproduces hstate hopen hstage

/-- A registration that is answered, and actions before and after it. -/
def sentInOrder : List (Event scoreActions) :=
  [.postAction ⟨0, 0⟩ (1 : ℤ), .login, .registerWebName, .finishRequest true, .readResponse true,
    .readClockSyncRequest true 7, .deliverAction ⟨1, 0⟩ (4 : ℤ), .finishWrite true, .postUndo ⟨0, 0⟩]

theorem run_inOrder_sentInOrder :
    ∃ l, Runs.run step sentInOrder (init scoreActions (10 : ℤ)) = some l ∧
      Reproduces l.client.sent l.server.view :=
  ⟨_, rfl, (run_inOrder (10 : ℤ) sentInOrder _ (by decide) rfl).2.2.2 rfl rfl (List.cons_ne_nil _ _)⟩

/-- An action comes after the response to the registration and before the request for the time. -/
def actedEarly : List (Event scoreActions) :=
  [.login, .registerWebName, .finishRequest true, .readResponse true, .postAction ⟨0, 0⟩ (1 : ℤ),
    .readClockSyncRequest true 7]

theorem run_inOrder_actedEarly :
    ∃ l, Runs.run step actedEarly (init scoreActions (10 : ℤ)) = some l ∧
      l.client.sent = [.action ⟨0, 0⟩ (1 : ℤ), .clockSync 7, .sync (10 : ℤ) [(⟨0, 0⟩, (1 : ℤ))]] ∧
      l.client.written = [.action ⟨0, 0⟩ (1 : ℤ)] ∧ ¬Ordered l.client.sent := by
  refine ⟨_, rfl, rfl, rfl, ?_⟩
  rintro (hnone | ⟨time, t, actions, rest, hsent, -⟩)
  · cases hnone
  · cases hsent

end WebLink

end JudoAssistant
