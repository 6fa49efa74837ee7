import JudoAssistant.Lib.Run
import JudoAssistant.Network.Message
import JudoAssistant.Network.Model
import JudoAssistant.StoreManager.SaveFile

/-!
# Messages that hold no action

`NetworkServer::deliverAction` (`src/ui/network/network_server.cpp`) decodes an action, does not look
whether that worked, and puts what it has on the action stack.  Here the messages are bytes and the actions
of the stack are pointers, which may be null.
-/

namespace JudoAssistant

open Undoable Effect

variable {T : Type}

/-- The actions with null pointers.  A null pointer has no operations. -/
def ActionModel.nullable (K : ActionModel T) : ActionModel T where
  Param := Option K.Param
  Memo := K.Memo
  init := K.init
  redo p m t := match p with
    | none => (m, t)
    | some p => K.redo p m t
  undo p m t := match p with
    | none => (m, t)
    | some p => K.undo p m t
  tournamentId := K.tournamentId

/-- How the network thread ends: an exception that nothing catches, a null pointer that is used, or an action that is
redone twice. -/
inductive Crash where
  | exception (e : StdException)
  | nullDereference
  | redoneTwice
  deriving DecidableEq, Repr

variable {ι : Type} {K : ActionModel T}

/-- What a participant or the web client is sent. -/
inductive Delivery (K : ActionModel T) where
  | clockSync
  | sync (tournament : T) (actionStack : List (ClientActionId × Option K.Param))
  | action (actionId : ClientActionId) (action : K.Param)
  | actionAck (actionId : ClientActionId)
  | undo (actionId : ClientActionId)
  | message (m : NetworkMessage)

/-- `NetworkServer` with its participants, the `actionReceived` signals that it has emitted and what it has delivered
to the participants and to the web client. -/
structure MessageServer (ι : Type) (K : ActionModel T) where
  server : NetworkServer K.nullable
  participants : ι → Participant
  emitted : List (ClientActionId × K.Param)
  delivered : ι → List (Delivery K)
  web : List (Delivery K)

/-- A message that a participant reads, or a call that the store manager posts. -/
inductive MessageEvent (ι : Type) (K : ActionModel T) where
  | read (i : ι) (m : NetworkMessage)
  | postAction (actionId : ClientActionId) (action : K.Param)
  | postUndo (actionId : ClientActionId)
  | postSync (tournament : T)

namespace MessageServer

/-- The server when it has started. -/
def init (ι : Type) (K : ActionModel T) (tournament : T) : MessageServer ι K where
  server := ⟨tournament, Table.empty⟩
  participants _ := .waiting
  emitted := []
  delivered _ := []
  web := []

/-- The action is put on the stack, and the front of a full stack is redone. -/
def push (s : NetworkServer K.nullable) (k : ClientActionId) (action : Option K.Param) :
    Except Crash (NetworkServer K.nullable) :=
  let actions := s.actions.push k (Obj.fresh action)
  if maxActionStackSize < actions.entries.length then
    match actions.entries.head? with
    | none => .error .nullDereference
    | some front =>
      match (front.obj.param : Option K.Param), front.obj.redo s.tournament with
      | none, _ => .error .nullDereference
      | some _, none => .error .redoneTwice
      | some _, some done => .ok ⟨done.2, actions.popFront⟩
  else .ok { s with actions := actions }

/-- The actions of the stack are no null pointers and have not been redone. -/
def Pushable (s : NetworkServer K.nullable) : Prop :=
  ∀ e ∈ s.actions.entries, (e.obj.param : Option K.Param) ≠ none ∧ e.obj.done = false

theorem pushable_push {server : NetworkServer K.nullable} (h : Pushable server) (k : ClientActionId) (p : K.Param) :
    ∃ server', push server k (some p) = .ok server' ∧ Pushable server' := by
  have hnew : ∀ e ∈ (server.actions.push k (Obj.fresh (some p : K.nullable.Param))).entries,
      (e.obj.param : Option K.Param) ≠ none ∧ e.obj.done = false := by
    intro e he
    obtain he | he := List.mem_append.1 he
    · exact h e he
    · rw [List.mem_singleton.1 he]
      exact ⟨Option.some_ne_none p, rfl⟩
  unfold push
  generalize server.actions.push k (Obj.fresh (some p : K.nullable.Param)) = actions at hnew
  simp only
  split
  · next hfull =>
    cases hentries : actions.entries with
    | nil =>
      rw [hentries] at hfull
      exact absurd hfull (Nat.not_lt_zero _)
    | cons front entries =>
      obtain ⟨hparam, hdone⟩ := hnew front (hentries ▸ List.mem_cons_self)
      have hredo := Obj.redo_of_not_done hdone server.tournament
      cases haction : (front.obj.param : Option K.Param) with
      | none => exact absurd haction hparam
      | some action =>
        rw [List.head?_cons]
        simp only [haction, hredo]
        refine ⟨_, rfl, fun e he => hnew e ?_⟩
        have hpop : actions.popFront.entries = entries := by rw [Table.popFront, hentries]
        rw [hentries]
        exact List.mem_cons_of_mem front (hpop ▸ he)
  · exact ⟨_, rfl, hnew⟩

variable (s : MessageServer ι K)

/-- `NetworkParticipant::deliver` for all participants of the server. -/
def deliver (d : ι → Delivery K) : MessageServer ι K :=
  { s with delivered := fun j => match s.participants j with
      | .joined _ => s.delivered j ++ [d j]
      | _ => s.delivered j }

/-- `NetworkServer::deliver` -/
def deliverAll (d : Delivery K) : MessageServer ι K := { s.deliver fun _ => d with web := s.web ++ [d] }

variable [DecidableEq ι] (platform : Platform) [Serializable ClientActionId] [Serializable (Option K.Param)]
  (garbage : NetworkMessage → ClientActionId)

/-- What the arguments of `decodeAction` hold after the call.  A pointer that was not loaded is null, and an id that was
not loaded is not initialised. -/
def actionArguments (m : NetworkMessage) : Except StdException (ClientActionId × Option K.Param) := do
  platform.allocate m.uncompressedSize.toNat
  match platform.decompress m.body m.uncompressedSize.toNat with
  | none => return (garbage m, none)
  | some uncompressed =>
    match PortableArchive.loadFlag (Bytes.resize uncompressed m.uncompressedSize.toNat) with
    | .error _ => return (garbage m, none)
    | .ok (convert, bytes) =>
      match Serializable.load convert bytes with
      | .error _ => return (garbage m, none)
      | .ok ((actionId : ClientActionId), bytes) =>
        match Serializable.load convert bytes with
        | .error _ => return (actionId, none)
        | .ok ((action : Option K.Param), _) => return (actionId, action)

/-- `NetworkServer::deliverAction` -/
def deliverAction (sender : ι) (m : NetworkMessage) : Except Crash (MessageServer ι K) := do
  let (actionId, action) ← (actionArguments platform garbage m).mapError .exception
  let server ← push s.server actionId action
  match action with
  | none => .error .nullDereference
  | some action =>
    let s' : MessageServer ι K := { s with server := server, emitted := s.emitted ++ [(actionId, action)] }
    return { s'.deliver fun j => if j = sender then .actionAck actionId else .message m with
      web := s.web ++ [.message m] }

/-- `NetworkParticipant::start` and `readMessage` -/
def readMessage (i : ι) (m : NetworkMessage) : Except Crash (MessageServer ι K) :=
  match s.participants i with
  | .waiting =>
    if m.type = NetworkMessageType.clockSyncRequest.value then
      .ok { s with
        participants := Function.update s.participants i (.joined true)
        delivered := Function.update s.delivered i
          (s.delivered i ++ [.clockSync, .sync s.server.tournament s.server.stack]) }
    else .ok { s with participants := Function.update s.participants i .left }
  | .joined isSyncing =>
    if m.type = NetworkMessageType.quit.value then .ok { s with participants := Function.update s.participants i .left }
    else if m.type = NetworkMessageType.syncAck.value then
      .ok { s with participants := Function.update s.participants i (.joined false) }
    else if isSyncing = false ∧ m.type = NetworkMessageType.action.value then s.deliverAction platform garbage i m
    else .ok s
  | .left => .ok s

/-- One step. -/
def step : MessageEvent ι K → Except Crash (MessageServer ι K)
  | .read i m => s.readMessage platform garbage i m
  | .postAction actionId action => do
    let server ← push s.server actionId (some action)
    return { s with server := server }.deliverAll (.action actionId action)
  | .postUndo actionId =>
    if s.server.actions.contains actionId then
      .ok ({ s with server := { s.server with actions := s.server.actions.erase actionId } }.deliverAll
        (.undo actionId))
    else .ok s
  | .postSync tournament =>
    let s' : MessageServer ι K := { s with
      server := ⟨tournament, s.server.actions.clear⟩
      participants := fun j => match s.participants j with
        | .joined _ => .joined true
        | p => p }
    .ok (s'.deliverAll (.sync tournament []))

/-- The step for the runs. -/
def next (s : MessageServer ι K) (e : MessageEvent ι K) :
    Option (MessageServer ι K) := (s.step platform garbage e).toOption

/-- The message decodes to an action. -/
def Decodes (K : ActionModel T) [Serializable (Option K.Param)] (m : NetworkMessage) : Prop :=
  ∃ actionId action, NetworkMessage.decodeAction platform m = .ok (some (actionId, some (action : K.Param)))

/-- Every step of a run is taken, and a message without an action leaves the stack, its map and the tournament alone,
emits nothing and is forwarded to nobody. -/
def Handles (s : MessageServer ι K) (e : MessageEvent ι K) : Prop :=
  ∃ s', s.step platform garbage e = .ok s' ∧ ∀ i m, e = .read i m → ¬Decodes platform K m →
    s'.server = s.server ∧ s'.emitted = s.emitted ∧ s'.web = s.web ∧ ∀ j, j ≠ i →
      s'.delivered j = s.delivered j

/-- A message of the type for actions, read from a participant that is not syncing, decodes to an action. -/
def Sound (s : MessageServer ι K) : MessageEvent ι K → Prop
  | .read i m => s.participants i = .joined false → m.type = NetworkMessageType.action.value → Decodes platform K m
  | _ => True

variable {s : MessageServer ι K} {platform} {garbage} {i : ι} {m : NetworkMessage} {e : MessageEvent ι K}

/-! ### What is decoded -/

/-- The arguments hold what was decoded, or a null pointer. -/
theorem actionArguments_spec (K : ActionModel T) [Serializable (Option K.Param)] (platform : Platform)
    (garbage : NetworkMessage → ClientActionId) (m : NetworkMessage) :
    (∃ e, NetworkMessage.decodeAction platform m =
      (.error e : Except StdException (Option (ClientActionId × Option K.Param))) ∧
      actionArguments platform garbage m = (.error e : Except StdException (ClientActionId × Option K.Param))) ∨
    ∃ args : ClientActionId × Option K.Param, actionArguments platform garbage m = .ok args ∧
      (NetworkMessage.decodeAction platform m = .ok (some args) ∨
        NetworkMessage.decodeAction platform m =
          (.ok none : Except StdException (Option (ClientActionId × Option K.Param))) ∧ args.2 = none) := by
  unfold NetworkMessage.decodeAction NetworkMessage.decode NetworkMessage.deserializeAndCompress actionArguments
  cases platform.allocate m.uncompressedSize.toNat with
  | error e => exact .inl ⟨e, rfl, rfl⟩
  | ok u =>
    refine .inr ?_
    cases hdata : platform.decompress m.body m.uncompressedSize.toNat with
    | none => exact ⟨(garbage m, none), rfl, .inr ⟨rfl, rfl⟩⟩
    | some uncompressed =>
      simp only [PortableArchive.load, Serializable.load]
      cases PortableArchive.loadFlag (Bytes.resize uncompressed m.uncompressedSize.toNat) with
      | error e => exact ⟨(garbage m, none), rfl, .inr ⟨rfl, rfl⟩⟩
      | ok archive =>
        obtain ⟨convert, bytes⟩ := archive
        cases hid : (Serializable.load convert bytes : Except StdException (ClientActionId × Bytes)) with
        | error e =>
          refine ⟨(garbage m, none), by simp [hid], .inr ⟨?_, rfl⟩⟩
          simp only [bind, Except.bind, hid]
          rfl
        | ok loaded =>
          cases haction : (Serializable.load convert loaded.2 : Except StdException (Option K.Param × Bytes)) with
          | error e =>
            refine ⟨(loaded.1, none), by simp [hid, haction], .inr ⟨?_, rfl⟩⟩
            simp only [bind, Except.bind, hid, haction]
            rfl
          | ok loaded' =>
            refine ⟨(loaded.1, loaded'.1), by simp [hid, haction], .inl ?_⟩
            simp only [bind, Except.bind, hid, haction]
            rfl

/-! ### One message -/

/-- An action is put on the stack. -/
theorem exists_deliverAction (garbage : NetworkMessage → ClientActionId) (i : ι) (h : Pushable s.server)
    (hdecodes : Decodes platform K m) :
    ∃ s', s.deliverAction platform garbage i m = .ok s' ∧ Pushable s'.server := by
  obtain ⟨k, p, hdecode⟩ := hdecodes
  obtain ⟨e, herror, -⟩ | ⟨args, harguments, hargs⟩ := actionArguments_spec K platform garbage m
  · rw [herror] at hdecode
    cases hdecode
  · have hsome : args = (k, some p) := by
      obtain hargs | ⟨hargs, -⟩ := hargs
      · rw [hargs] at hdecode
        cases hdecode
        rfl
      · rw [hargs] at hdecode
        cases hdecode
    obtain ⟨server, hpush, hserver⟩ := pushable_push h k p
    unfold deliverAction
    rw [harguments, hsome]
    show ∃ s', (push s.server k (some p) >>= _) = Except.ok s' ∧ _
    rw [hpush]
    exact ⟨_, rfl, hserver⟩

/-- Without an action there is an exception or a null pointer. -/
theorem deliverAction_ne_ok (hdecodes : ¬Decodes platform K m) (s' : MessageServer ι K) :
    s.deliverAction platform garbage i m ≠ .ok s' := by
  intro hok
  unfold deliverAction at hok
  obtain ⟨⟨k, action⟩, harguments, hok⟩ := except_bind_ok.1 hok
  obtain ⟨server, -, hok⟩ := except_bind_ok.1 hok
  cases action with
  | none => cases hok
  | some p =>
    obtain ⟨e, -, herror⟩ | ⟨args, hreturn, hargs⟩ := actionArguments_spec K platform garbage m
    · rw [herror] at harguments
      cases harguments
    · rw [hreturn] at harguments
      cases harguments
      obtain hargs | ⟨-, hnone⟩ := hargs
      · exact hdecodes ⟨k, p, hargs⟩
      · cases hnone

/-- A message that is not delivered as an action. -/
theorem readMessage_of_not_action (platform : Platform) (garbage : NetworkMessage → ClientActionId)
    (h : ¬(s.participants i = .joined false ∧ m.type = NetworkMessageType.action.value)) :
    ∃ s', s.readMessage platform garbage i m = .ok s' ∧
      s'.server = s.server ∧ s'.emitted = s.emitted ∧ s'.web = s.web ∧ ∀ j, j ≠ i →
        s'.delivered j = s.delivered j := by
  unfold readMessage
  cases hparticipant : s.participants i with
  | waiting =>
    simp only
    split
    · exact ⟨_, rfl, rfl, rfl, rfl, fun j hj => Function.update_of_ne hj _ _⟩
    · exact ⟨_, rfl, rfl, rfl, rfl, fun _ _ => rfl⟩
  | joined isSyncing =>
    have hnot : ¬(isSyncing = false ∧ m.type = NetworkMessageType.action.value) := by
      rintro ⟨rfl, htype⟩
      exact h ⟨hparticipant, htype⟩
    simp only [if_neg hnot]
    split
    · exact ⟨_, rfl, rfl, rfl, rfl, fun _ _ => rfl⟩
    · split
      · exact ⟨_, rfl, rfl, rfl, rfl, fun _ _ => rfl⟩
      · exact ⟨s, rfl, rfl, rfl, rfl, fun _ _ => rfl⟩
  | left => exact ⟨s, rfl, rfl, rfl, rfl, fun _ _ => rfl⟩

theorem readMessage_of_action (hparticipant : s.participants i = .joined false)
    (htype : m.type = NetworkMessageType.action.value) :
    s.readMessage platform garbage i m = s.deliverAction platform garbage i m := by
  unfold readMessage
  rw [hparticipant, htype]
  rfl

/-! ### Runs -/

/-- A step that is sound is taken, keeps the stack free of null pointers and handles its message. -/
theorem step_sound (garbage : NetworkMessage → ClientActionId) (h : Pushable s.server) (hsound : Sound platform s e) :
    Handles platform garbage s e ∧ ∀ s', s.step platform garbage e = .ok s' → Pushable s'.server := by
  cases e with
  | read i m =>
    by_cases haction : s.participants i = .joined false ∧ m.type = NetworkMessageType.action.value
    · have hdecodes := hsound haction.1 haction.2
      obtain ⟨s', hs', hpushable⟩ := exists_deliverAction garbage i h hdecodes
      rw [← readMessage_of_action haction.1 haction.2] at hs'
      constructor
      · refine ⟨s', hs', fun _ _ he hnot => ?_⟩
        cases he
        exact absurd hdecodes hnot
      · intro s₁ hs₁
        cases hs'.symm.trans hs₁
        exact hpushable
    · obtain ⟨s', hs', hsame⟩ := readMessage_of_not_action platform garbage haction
      constructor
      · refine ⟨s', hs', fun _ _ he _ => ?_⟩
        cases he
        exact hsame
      · intro s₁ hs₁
        cases hs'.symm.trans hs₁
        rw [hsame.1]
        exact h
  | postAction k p =>
    obtain ⟨server, hpush, hserver⟩ := pushable_push h k p
    have hstep : s.step platform garbage (.postAction k p) =
        .ok ({ s with server := server }.deliverAll (.action k p)) := by
      unfold step
      simp only [hpush]
      rfl
    constructor
    · exact ⟨_, hstep, fun _ _ he => (nomatch he)⟩
    · intro s₁ hs₁
      cases hstep.symm.trans hs₁
      exact hserver
  | postUndo k =>
    unfold Handles step
    simp only
    split
    · refine ⟨⟨_, rfl, fun _ _ he => (nomatch he)⟩, fun s₁ hs₁ => ?_⟩
      cases hs₁
      exact fun e he => h e ((s.server.actions.erase_sublist k).subset he)
    · refine ⟨⟨s, rfl, fun _ _ he => (nomatch he)⟩, fun s₁ hs₁ => ?_⟩
      cases hs₁
      exact h
  | postSync t =>
    refine ⟨⟨_, rfl, fun _ _ he => (nomatch he)⟩, fun s₁ hs₁ => ?_⟩
    cases hs₁
    exact fun e he => absurd he List.not_mem_nil

theorem handles_iff (h : Pushable s.server) : Sound platform s e ↔ Handles platform garbage s e := by
  constructor
  · exact fun hsound => (step_sound garbage h hsound).1
  · intro hhandles
    cases e with
    | read i m =>
      intro hparticipant htype
      by_contra hnot
      obtain ⟨s', hs', -⟩ := hhandles
      have hdeliver : s.readMessage platform garbage i m = .ok s' := hs'
      rw [readMessage_of_action hparticipant htype] at hdeliver
      exact deliverAction_ne_ok hnot s' hdeliver
    | postAction k p => trivial
    | postUndo k => trivial
    | postSync t => trivial

/-- In a run that starts without actions every message without an action is dropped, if and only if every message of the
type for actions that reaches `deliverAction` decodes to an action. -/
theorem guarded_handles_iff (tournament : T) (es : List (MessageEvent ι K)) :
    Runs.Guarded (next platform garbage) (Handles platform garbage) es (init ι K tournament) ↔
      Runs.Guarded (next platform garbage) (Sound platform) es (init ι K tournament) := by
  have hinit : Pushable (init ι K tournament).server := fun e he => absurd he List.not_mem_nil
  refine (Runs.guarded_congr (fun (s : MessageServer ι K) e (h : Pushable s.server) => handles_iff h) ?_ hinit).symm
  intro s e s' h hsound hnext
  obtain ⟨⟨s₁, hs₁, -⟩, hkeeps⟩ := step_sound garbage h hsound
  have hs' : some s₁ = some s' := by
    rw [← hnext, next, hs₁]
    rfl
  cases hs'
  exact hkeeps s' hs₁

/-- A message of the type for actions that has no body. -/
def emptyAction : NetworkMessage := NetworkMessage.encoded .action 0 []

omit [Serializable ClientActionId] in
/-- A client joins, acknowledges its tournament and sends a message without a body: the server uses a null pointer. -/
theorem not_handles_emptyAction :
    NetworkMessage.decodeHeader MasterStoreManager.maxSizePlatform emptyAction.header = .ok (some emptyAction) ∧
    ∀ (K : ActionModel ℕ) (_ : Serializable ClientActionId) (_ : Serializable (Option K.Param))
      (garbage : NetworkMessage → ClientActionId),
      ∃ s, Runs.run (next MasterStoreManager.maxSizePlatform garbage)
          [.read () NetworkMessage.encodeClockSyncRequest, .read () NetworkMessage.encodeSyncAck]
            (init Unit K 0) = some s ∧
        s.step MasterStoreManager.maxSizePlatform garbage (.read () emptyAction) = .error .nullDereference ∧
        ¬Handles MasterStoreManager.maxSizePlatform garbage s (.read () emptyAction) := by
  refine ⟨NetworkMessage.decodeHeader_encodeHeader (by decide) (by decide),
    fun K _ _ garbage => ⟨_, rfl, rfl, ?_⟩⟩
  rintro ⟨s', hs', -⟩
  cases hs'

end MessageServer

end JudoAssistant
