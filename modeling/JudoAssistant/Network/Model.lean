import Mathlib.Algebra.GroupWithZero.Nat
import JudoAssistant.StoreManager.Model

/-!
# The replicated tournament

One master and any number of clients.  Each party has a user interface thread with a store manager
and a network thread; the threads hand each other posted calls (`StoreManager.posted`) and signals,
both in order.  The network thread of the master is `NetworkServer` with one `NetworkParticipant`
per connection, that of a client is `NetworkClient` (`src/ui/network`).  A connection is a pair of
queues.  When a client closes a connection, the server may go on reading what was sent on it; such
connections are kept as stale.  A participant whose write failed, or whose server was stopped, is
taken out of `mParticipants` and gets no more messages, but it goes on reading as well.

History variables, read by no operation: the counters of a connection, the executed actions
`history` and the drawn ids `drawn`.
-/

namespace JudoAssistant

open Undoable

variable {T : Type}

/-- The signals of `NetworkInterface`, delivered to the user interface thread in order.  The payload
of `syncReceived` is `SyncPayload.build` of its arguments. -/
inductive Signal (K : ActionModel T) where
  | actionReceived (actionId : ClientActionId) (action : K.Param)
  | actionConfirmReceived (actionId : ClientActionId)
  | undoReceived (actionId : ClientActionId)
  | undoConfirmReceived (actionId : ClientActionId)
  | syncReceived (tournament : T) (actions unconfirmed : List (ClientActionId × K.Param))
  | syncConfirmed

/-- The messages of a client. -/
inductive ClientMessage (K : ActionModel T) where
  | clockSyncRequest
  | syncAck
  | action (actionId : ClientActionId) (action : K.Param)
  | quit

/-- The messages of the server. -/
inductive ServerMessage (K : ActionModel T) where
  | clockSync
  | sync (tournament : T) (actions : List (ClientActionId × K.Param))
  | action (actionId : ClientActionId) (action : K.Param)
  | actionAck (actionId : ClientActionId)
  | undo (actionId : ClientActionId)

/-- `NetworkParticipant`: waiting for the clock request, reading messages, or at the end of its
reading. -/
inductive Participant where
  | waiting
  | joined (isSyncing : Bool)
  | left
  deriving DecidableEq, Repr

/-- A connection.  `up` holds what the participant has not read, each message with the number of
`SYNC` messages its sender had processed; `down` what the client has not read.  `delivered` counts
the `SYNC` messages handed to the participant and `processed` those read by the client.  `removed`
says that the participant has been taken out of `mParticipants`. -/
structure Connection (K : ActionModel T) where
  up : List (ℕ × ClientMessage K)
  down : List (ServerMessage K)
  participant : Participant
  processed : ℕ
  delivered : ℕ
  removed : Bool

/-- The stages of `NetworkClient`.  After a quit was posted, the read that is under way still ends. -/
inductive Phase where
  | notConnected
  | connectJoin
  | connectSynchronizeClocks
  | connectSync
  | connectIdle
  | quitPosted (reading : Bool)
  deriving DecidableEq, Repr

/-- A client: its store manager, the signals queued for it, the fields of `NetworkClient`
(`unconfirmed` is `mUnconfirmedActionList` with its map) and its connections. -/
structure Client (K : ActionModel T) where
  ui : StoreManager K
  signals : List (Signal K)
  phase : Phase
  unconfirmed : Table ClientActionId K.toOps
  connection : Option (Connection K)
  stale : List (Connection K)

/-- `NetworkServer`: `mTournament`, and `mActionStack` with `mActionMap`. -/
structure NetworkServer (K : ActionModel T) where
  tournament : T
  actions : Table ClientActionId K.toOps

/-- An action that the server executed, with the counters of the connection it came from. -/
structure Acceptance where
  actionId : ClientActionId
  epoch : ℕ
  delivered : ℕ
  deriving DecidableEq, Repr

variable {K : ActionModel T}

/-- The slots of the store manager. -/
def StoreManager.receive (s : StoreManager K) : Signal K → Option (StoreManager K)
  | .actionReceived k p => s.receiveAction k p
  | .actionConfirmReceived k => s.receiveActionConfirm k
  | .undoReceived k => s.receiveUndo k
  | .undoConfirmReceived k => some (s.receiveUndoConfirm k)
  | .syncReceived t actions unconfirmed => s.receiveSync (.build K t actions unconfirmed)
  | .syncConfirmed => some s.confirmSync

namespace NetworkServer

/-- Append an action to the stack and redo the front on `mTournament` if there are too many. -/
def push (s : NetworkServer K) (k : ClientActionId) (p : K.Param) : Option (NetworkServer K) :=
  let actions := s.actions.push k (Obj.fresh p)
  if actions.entries.length > maxActionStackSize then do
    let front ← actions.entries.head?
    let done ← front.obj.redo s.tournament
    return ⟨done.2, actions.popFront⟩
  else some { s with actions := actions }

/-- The content of the action stack, as it is encoded in a `SYNC` message. -/
def stack (s : NetworkServer K) : List (ClientActionId × K.Param) := items s.actions.entries

end NetworkServer

namespace Connection

/-- A new connection. -/
def init (K : ActionModel T) : Connection K := ⟨[], [], .waiting, 0, 0, false⟩

/-- A message of the client. -/
def send (l : Connection K) (m : ClientMessage K) : Connection K :=
  { l with up := l.up ++ [(l.processed, m)] }

/-- Is the participant among `mParticipants`? -/
def inParticipants (l : Connection K) : Bool :=
  match l.participant with
  | .joined _ => !l.removed
  | _ => false

/-- `NetworkParticipant::deliver`, for the participants of the server. -/
def deliver (l : Connection K) (m : ServerMessage K) : Connection K :=
  if l.inParticipants then { l with down := l.down ++ [m] } else l

/-- The part of `NetworkServer::postSync` for one participant. -/
def deliverSync (l : Connection K) (m : ServerMessage K) : Connection K :=
  if l.inParticipants then
    { l with
      participant := .joined true
      down := l.down ++ [m]
      delivered := l.delivered + 1 }
  else l

/-- What the server does with a message of a connection. -/
inductive Reading (K : ActionModel T) where
  | done (l : Connection K)
  | accept (l : Connection K) (acceptance : Acceptance) (action : K.Param)

/-- `NetworkParticipant::start` and `readMessage`: read the next message. -/
def read (server : NetworkServer K) (l : Connection K) : Option (Reading K) :=
  match l.participant, l.up with
  | .waiting, (_, .clockSyncRequest) :: up => some <| .done { l with
      up := up
      down := l.down ++ [.clockSync, .sync server.tournament server.stack]
      participant := .joined true
      delivered := l.delivered + 1 }
  | .waiting, _ :: up => some <| .done { l with up := up, participant := .left }
  | .joined _, (_, .quit) :: up => some <| .done { l with up := up, participant := .left }
  | .joined _, (_, .syncAck) :: up => some <| .done { l with up := up, participant := .joined false }
  | .joined false, (epoch, .action k p) :: up =>
    some <| .accept { l with up := up } ⟨k, epoch, l.delivered⟩ p
  | .joined _, _ :: up => some <| .done { l with up := up }
  | _, _ => none

end Connection

namespace Client

/-- A client that holds a tournament and has no connection. -/
def init (K : ActionModel T) (id : ℕ) (tournament : T) : Client K where
  ui := StoreManager.init K id tournament
  signals := []
  phase := .notConnected
  unconfirmed := Table.empty
  connection := none
  stale := []

/-- `NetworkClient::deliver` -/
def deliver (c : Client K) (m : ClientMessage K) : Client K :=
  { c with connection := c.connection.map (·.send m) }

/-- `NetworkClient::postAction`, when the network thread runs it. -/
def postAction (c : Client K) (k : ClientActionId) (p : K.Param) : Client K :=
  { c with unconfirmed := c.unconfirmed.push k (Obj.fresh p) }.deliver (.action k p)

/-- `NetworkClient::killConnection`: of the messages of the client only the first `sent` ones have
reached the server. -/
def killConnection (c : Client K) (sent : ℕ) : Client K :=
  match c.connection with
  | none => c
  | some l => { c with
      phase := .notConnected
      connection := none
      stale := c.stale ++ [{ l with up := l.up.take sent, down := [] }] }

/-- Queue a signal for the user interface thread. -/
def signal (c : Client K) (signal : Signal K) : Client K := { c with signals := c.signals ++ [signal] }

/-- The handler of `NetworkClient::connectIdle`. -/
def handleIdle (c : Client K) : ServerMessage K → Client K
  | .sync t actions =>
    { (c.deliver .syncAck).signal (.syncReceived t actions []) with
      unconfirmed := c.unconfirmed.clear }
  | .action k p => c.signal (.actionReceived k p)
  | .actionAck k =>
    if c.unconfirmed.contains k then
      { c with unconfirmed := c.unconfirmed.erase k }.signal (.actionConfirmReceived k)
    else c
  | .undo k => c.signal (.undoReceived k)
  | .clockSync => c

/-- The handler of `NetworkClient::connectSync` for a `SYNC` message. -/
def handleSync (c : Client K) (t : T) (actions : List (ClientActionId × K.Param)) : Client K :=
  let kept : List (ClientActionId × K.Param) :=
    stillUnconfirmed actions (items c.unconfirmed.entries)
  let unconfirmed := c.unconfirmed.clear.pushAll
    (kept.map fun (a : ClientActionId × K.Param) => (a.1, Obj.fresh a.2))
  let c' := { c with phase := .connectIdle, unconfirmed := unconfirmed }
  (kept.foldl (fun (c : Client K) a => c.deliver (.action a.1 a.2)) (c'.deliver .syncAck)).signal
    (.syncReceived t actions kept)

/-- A message has been taken from the connection. -/
def received (c : Client K) (l : Connection K) (m : ServerMessage K) (down : List (ServerMessage K)) :
    Client K :=
  { c with connection := some { l with
      down := down
      processed := match m with
        | .sync _ _ => l.processed + 1
        | _ => l.processed } }

/-- The client reads the next message, in the handler of its phase. -/
def read (c : Client K) : Option (Client K) := do
  let l ← c.connection
  let m ← l.down.head?
  let c' := c.received l m l.down.tail
  match c.phase, m with
  | .connectSynchronizeClocks, .clockSync => return { c' with phase := .connectSync }
  | .connectSynchronizeClocks, _ => return c'.killConnection l.up.length
  | .connectSync, .sync t actions => return c'.handleSync t actions
  | .connectSync, _ => return c'.killConnection l.up.length
  | .connectIdle, m => return c'.handleIdle m
  | .quitPosted true, m => return { c'.handleIdle m with phase := .quitPosted false }
  | _, _ => none

end Client

/-- The whole system, with clients `ι`. -/
structure System (ι : Type) (K : ActionModel T) where
  master : StoreManager K
  signals : List (Signal K)
  server : NetworkServer K
  clients : ι → Client K
  history : List Acceptance
  drawn : List ClientActionId

/-- The steps of the system.  `sent` says how many messages of a client have left it when its
connection breaks; `n` is a stale connection.  A participant leaves when its read fails, and it is
removed when a write fails or the server stops. -/
inductive Event (ι : Type) (K : ActionModel T) where
  | masterDispatch (draws : List ℕ) (action : K.Param)
  | masterUndo (actionId : ClientActionId)
  | masterSync (tournament : T)
  | masterSignal
  | serverPost
  | clientDispatch (i : ι) (draws : List ℕ) (action : K.Param)
  | clientPost (i : ι)
  | clientSignal (i : ι)
  | clientConnect (i : ι)
  | clientJoin (i : ι)
  | clientRead (i : ι)
  | clientQuit (i : ι)
  | clientKill (i : ι) (sent : ℕ)
  | serverRead (i : ι)
  | serverReadStale (i : ι) (n : ℕ)
  | serverLeave (i : ι)
  | serverLeaveStale (i : ι) (n : ℕ)
  | serverRemove (i : ι)
  | serverRemoveStale (i : ι) (n : ℕ)

namespace System

variable {ι : Type} [DecidableEq ι]

omit [DecidableEq ι] in
/-- The system when the server has started on the tournament of the master, before any client has
connected. -/
def init (K : ActionModel T) (masterId : ℕ) (tournament : T) (ids : ι → ℕ) (tournaments : ι → T) :
    System ι K where
  master := StoreManager.init K masterId tournament
  signals := []
  server := ⟨tournament, Table.empty⟩
  clients i := Client.init K (ids i) (tournaments i)
  history := []
  drawn := []

/-- Replace a client. -/
def setClient (s : System ι K) (i : ι) (c : Client K) : System ι K :=
  { s with clients := Function.update s.clients i c }

/-- `NetworkServer::deliver`: a message for every participant. -/
def broadcast (s : System ι K) (m : ServerMessage K) : System ι K :=
  { s with clients := fun j =>
      { s.clients j with connection := (s.clients j).connection.map (·.deliver m) } }

/-- The network thread of the master runs the next call posted by its store manager. -/
def serverPost (s : System ι K) : Option (System ι K) :=
  match s.master.posted with
  | [] => none
  | call :: posted =>
    let s := { s with master := { s.master with posted := posted } }
    match call with
    | .postAction k p => do
      let server ← s.server.push k p
      let s' : System ι K := { s with
        server := server
        signals := s.signals ++ [.actionConfirmReceived k]
        history := s.history ++ [⟨k, 0, 0⟩] }
      return s'.broadcast (.action k p)
    | .postUndo k =>
      let s' := { s with signals := s.signals ++ [.undoConfirmReceived k] }
      if s.server.actions.contains k then
        some ({ s' with
          server := { s.server with actions := s.server.actions.erase k } }.broadcast (.undo k))
      else some s'
    | .postSync t => some { s with
        server := ⟨t, s.server.actions.clear⟩
        signals := s.signals ++ [.syncConfirmed]
        clients := fun j => { s.clients j with
          connection := (s.clients j).connection.map (·.deliverSync (.sync t []))
          stale := (s.clients j).stale.map (·.deliverSync (.sync t [])) } }

/-- `NetworkServer::deliverAction`, except for the acknowledgement. -/
def deliverAction (s : System ι K) (acceptance : Acceptance) (p : K.Param) :
    Option (System ι K) := do
  let server ← s.server.push acceptance.actionId p
  return { s with
    server := server
    signals := s.signals ++ [.actionReceived acceptance.actionId p]
    history := s.history ++ [acceptance] }

/-- The server reads the next message of a client's connection. -/
def serverRead (s : System ι K) (i : ι) : Option (System ι K) := do
  let l ← (s.clients i).connection
  match ← l.read s.server with
  | .done l' => return s.setClient i { s.clients i with connection := some l' }
  | .accept l' a p =>
    let s' ← s.deliverAction a p
    -- the sender gets an acknowledgement in place of the action
    return (s'.broadcast (.action a.actionId p)).setClient i { s.clients i with
      connection := some (l'.deliver (.actionAck a.actionId)) }

/-- The server reads the next message of a connection that the client has closed. -/
def serverReadStale (s : System ι K) (i : ι) (n : ℕ) : Option (System ι K) := do
  let l ← (s.clients i).stale[n]?
  match ← l.read s.server with
  | .done l' => return s.setClient i { s.clients i with
      stale := (s.clients i).stale.set n { l' with down := [] } }
  | .accept l' a p =>
    let s' ← (s.setClient i { s.clients i with stale := (s.clients i).stale.set n l' }).deliverAction
      a p
    return s'.broadcast (.action a.actionId p)

/-- One step; `none` if the step is not possible or fails. -/
def step (s : System ι K) : Event ι K → Option (System ι K)
  | .masterDispatch draws p => do
    return { s with
      master := ← s.master.dispatch draws p
      drawn := s.drawn ++ (s.master.drawActionId draws).toList }
  | .masterUndo k => do
    return { s with master := ← s.master.undo k }
  | .masterSync t => some { s with master := s.master.sync t }
  | .masterSignal =>
    match s.signals with
    | [] => none
    | signal :: signals => do
      return { s with master := ← s.master.receive signal, signals := signals }
  | .serverPost => s.serverPost
  | .clientDispatch i draws p => do
    return { s.setClient i { s.clients i with ui := ← (s.clients i).ui.dispatch draws p } with
      drawn := s.drawn ++ ((s.clients i).ui.drawActionId draws).toList }
  | .clientPost i =>
    match (s.clients i).ui.posted with
    | .postAction k p :: posted => some (s.setClient i
        ({ s.clients i with ui := { (s.clients i).ui with posted := posted } }.postAction k p))
    | _ => none
  | .clientSignal i =>
    match (s.clients i).signals with
    | [] => none
    | signal :: signals => do
      return s.setClient i { s.clients i with
        ui := ← (s.clients i).ui.receive signal
        signals := signals }
  | .clientConnect i =>
    if (s.clients i).connection.isNone then
      some (s.setClient i { s.clients i with
        phase := .connectJoin
        connection := some (Connection.init K) })
    else none
  | .clientJoin i =>
    if (s.clients i).phase = .connectJoin then
      some (s.setClient i
        ({ s.clients i with phase := .connectSynchronizeClocks }.deliver .clockSyncRequest))
    else none
  | .clientRead i => do
    return s.setClient i (← (s.clients i).read)
  | .clientQuit i =>
    if (s.clients i).phase = .connectIdle then
      some (s.setClient i ({ s.clients i with phase := .quitPosted true }.deliver .quit))
    else none
  | .clientKill i sent =>
    if (s.clients i).connection.isSome then
      some (s.setClient i ((s.clients i).killConnection sent))
    else none
  | .serverRead i => s.serverRead i
  | .serverReadStale i n => s.serverReadStale i n
  | .serverLeave i =>
    match (s.clients i).connection with
    | some l => some (s.setClient i { s.clients i with
        connection := some { l with participant := .left } })
    | none => none
  | .serverLeaveStale i n =>
    match (s.clients i).stale[n]? with
    | some l => some (s.setClient i { s.clients i with
        stale := (s.clients i).stale.set n { l with participant := .left } })
    | none => none
  | .serverRemove i =>
    match (s.clients i).connection with
    | some l =>
      if l.inParticipants then
        some (s.setClient i { s.clients i with connection := some { l with removed := true } })
      else none
    | none => none
  | .serverRemoveStale i n =>
    match (s.clients i).stale[n]? with
    | some l =>
      if l.inParticipants then
        some (s.setClient i { s.clients i with
          stale := (s.clients i).stale.set n { l with removed := true } })
      else none
    | none => none

/-- The client of a run over `Fin 1` is written `0`. -/
instance neZero_one : NeZero (1 : ℕ) := ⟨Nat.one_ne_zero⟩

end System

end JudoAssistant
