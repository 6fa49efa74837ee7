import Mathlib.Data.Finset.Card
import JudoAssistant.Lib.NodeIndex

/-!
# The store manager

`StoreManager` (`src/ui/store_managers/store_manager.cpp`) holds a tournament together with the
actions applied to it.  Local actions and undos are applied at once and posted to the network
thread; they stay *unconfirmed* until the network interface signals their confirmation.  This file
embeds the fields of the class and its operations.  An operation returns `none` where the code
fails: a failing `assert`, a thrown exception, or an access to an element that does not exist.

The tournament is a parameter `T`; the actions on it are a family `K` of undoable operations.
-/

namespace JudoAssistant

open Undoable

/-- `ClientActionId`: the client that dispatched the action and the number it drew for it. -/
structure ClientActionId where
  clientId : ℕ
  actionId : ℕ
  deriving DecidableEq, Repr

/-- `MAX_ACTION_STACK_SIZE` -/
def maxActionStackSize : ℕ := 100

/-- `StoreManager::REDO_LIST_MAX_SIZE` -/
def redoListMaxSize : ℕ := 20

/-- The actions on the tournaments `T`, and the id of a tournament. -/
structure ActionModel (T : Type) extends Ops T where
  tournamentId : T → ℕ

variable {T : Type}

/-- A log of the store manager: a `UniqueActionList`. -/
abbrev ActionList (K : ActionModel T) := List (Entry ClientActionId K.toOps)

/-- The entry that a push puts at the end of a log. -/
def newEntry {K : ActionModel T} (node : ℕ) (actionId : ClientActionId) (action : Obj K.toOps) :
    Entry ClientActionId K.toOps := ⟨node, actionId, action⟩

/-- The number of actions of a log whose id is in a set. -/
def undoneIn {K : ActionModel T} (undos : Finset ClientActionId) (l : ActionList K) : ℕ :=
  (keys l).countP fun k => decide (k ∈ undos)

/-- The calls of `NetworkInterface` that the store manager posts to the network thread. -/
inductive Post (K : ActionModel T) where
  | postAction (actionId : ClientActionId) (action : K.Param)
  | postUndo (actionId : ClientActionId)
  | postSync (tournament : T)

/-- The signals of the store manager to the user interface. -/
inductive UiSignal where
  | tournamentAboutToBeReset
  | tournamentReset
  | undoStatusChanged (canUndo : Bool)
  | redoStatusChanged (canRedo : Bool)
  | actionAboutToBeErased (actionId : ClientActionId)
  | actionErased (actionId : ClientActionId)
  | actionAboutToBeAdded (actionId : ClientActionId) (pos : ℕ)
  | actionAdded (actionId : ClientActionId) (pos : ℕ)
  deriving DecidableEq, Repr

/-- `SyncPayload` -/
structure SyncPayload (K : ActionModel T) where
  tournament : T
  confirmedActionList : List (ClientActionId × Obj K.toOps)
  unconfirmedActionList : List (ClientActionId × Obj K.toOps)
  unconfirmedUndos : Finset ClientActionId

/-- Fresh clones of the actions, redone in order on a decoded tournament. -/
def redoAll (K : ActionModel T) :
    List (ClientActionId × K.Param) → T → List (ClientActionId × Obj K.toOps) × T
  | [], t => ([], t)
  | (k, p) :: l, t =>
    let q := redoAll K l (K.redo p K.init t).2
    ((k, ⟨p, (K.redo p K.init t).1, true⟩) :: q.1, q.2)

/-- The payload that `NetworkClient` makes of a decoded `SYNC` message and of the unconfirmed
actions it keeps: all actions are redone and there are no unconfirmed undos. -/
def SyncPayload.build (K : ActionModel T) (tournament : T)
    (actions unconfirmed : List (ClientActionId × K.Param)) : SyncPayload K :=
  let confirmed := redoAll K actions tournament
  let rest := redoAll K unconfirmed confirmed.2
  ⟨rest.2, confirmed.1, rest.1, ∅⟩

/-- The unconfirmed actions that `NetworkClient` keeps when it connects: those that are not already
applied. -/
def stillUnconfirmed {P : Type} (actions kept : List (ClientActionId × P)) :
    List (ClientActionId × P) :=
  kept.filter fun a => decide (a.1 ∉ actions.map Prod.fst)

/-- The fields of `StoreManager`.  `nextNode` numbers the list nodes, `posted` holds the calls that
the network thread has not run yet and `emitted` the signals emitted so far. -/
structure StoreManager (K : ActionModel T) where
  id : ℕ
  tournament : T
  confirmedActionList : ActionList K
  confirmedActionMap : ClientActionId → Option ℕ
  unconfirmedActionList : ActionList K
  unconfirmedActionMap : ClientActionId → Option ℕ
  redoList : List (Obj K.toOps)
  unconfirmedUndos : Finset ClientActionId
  undoneUnconfirmedActions : ℕ
  undoActionId : Option ClientActionId
  syncing : ℕ
  nextNode : ℕ
  posted : List (Post K)
  emitted : List UiSignal

namespace StoreManager

variable {K : ActionModel T}

/-- A store manager that holds a tournament and no actions. -/
def init (K : ActionModel T) (id : ℕ) (tournament : T) : StoreManager K where
  id := id
  tournament := tournament
  confirmedActionList := []
  confirmedActionMap := fun _ => none
  unconfirmedActionList := []
  unconfirmedActionMap := fun _ => none
  redoList := []
  unconfirmedUndos := ∅
  undoneUnconfirmedActions := 0
  undoActionId := none
  syncing := 0
  nextNode := 0
  posted := []
  emitted := []

/-- `emit` -/
def emit (s : StoreManager K) (signal : UiSignal) : StoreManager K :=
  { s with emitted := s.emitted ++ [signal] }

/-- Hand a call to the network thread. -/
def post (s : StoreManager K) (call : Post K) : StoreManager K :=
  { s with posted := s.posted ++ [call] }

/-- `StoreManager::containsConfirmedAction` -/
def containsConfirmedAction (s : StoreManager K) (actionId : ClientActionId) : Bool :=
  (s.confirmedActionMap actionId).isSome

/-- `StoreManager::containsUnconfirmedAction` -/
def containsUnconfirmedAction (s : StoreManager K) (actionId : ClientActionId) : Bool :=
  (s.unconfirmedActionMap actionId).isSome

/-- `StoreManager::canUndo` -/
def canUndo (s : StoreManager K) : Bool := s.undoActionId.isSome

/-- `StoreManager::canRedo` -/
def canRedo (s : StoreManager K) : Bool := !s.redoList.isEmpty

/-- `StoreManager::sync(tournament)`, with the network interface set. -/
def sync (s : StoreManager K) (tournament : T) : StoreManager K :=
  let s := { s.emit .tournamentAboutToBeReset with
    syncing := s.syncing + 1
    tournament := tournament
    confirmedActionList := []
    confirmedActionMap := fun _ => none
    unconfirmedActionList := []
    unconfirmedActionMap := fun _ => none
    redoList := []
    unconfirmedUndos := ∅
    undoneUnconfirmedActions := 0 }
  (((s.post (.postSync tournament)).emit .tournamentReset).emit
    (.redoStatusChanged false)).emit (.undoStatusChanged false)

/-- `StoreManager::confirmSync` -/
def confirmSync (s : StoreManager K) : StoreManager K := { s with syncing := s.syncing - 1 }

/-- The id for which the drawing loop of `StoreManager::dispatch` stops. -/
def drawActionId (s : StoreManager K) (draws : List ℕ) : Option ClientActionId :=
  (draws.map (ClientActionId.mk s.id)).find? fun actionId =>
    !s.containsConfirmedAction actionId && !s.containsUnconfirmedAction actionId

/-- `StoreManager::dispatch`; `draws` are the values that `ActionId::generate` returns. -/
def dispatch (s : StoreManager K) (draws : List ℕ) (action : K.Param) :
    Option (StoreManager K) := do
  let actionId ← s.drawActionId draws
  let done ← (Obj.fresh (K := K.toOps) action).redo s.tournament
  let pos := s.confirmedActionList.length + s.unconfirmedActionList.length
  let s' := { s.emit (.actionAboutToBeAdded actionId pos) with
    tournament := done.2
    unconfirmedActionList := s.unconfirmedActionList ++ [newEntry s.nextNode actionId done.1]
    unconfirmedActionMap := Function.update s.unconfirmedActionMap actionId (some s.nextNode)
    nextNode := s.nextNode + 1
    undoActionId := some actionId }
  let s' := (s'.emit (.actionAdded actionId pos)).post (.postAction actionId action)
  return if s.undoActionId.isSome then s' else s'.emit (.undoStatusChanged true)

/-- `StoreManager::redo` -/
def redo (s : StoreManager K) (draws : List ℕ) : Option (StoreManager K) := do
  let action ← s.redoList.getLast?
  let s' ← { s with redoList := s.redoList.dropLast }.dispatch draws action.param
  return if s'.redoList.isEmpty then s'.emit (.redoStatusChanged false) else s'

/-- `StoreManager::popActionListFront` -/
def popActionListFront (s : StoreManager K) : Option (StoreManager K) :=
  match s.confirmedActionList with
  | [] => none
  | front :: rest =>
    if front.obj.done then
      let s' := if s.undoActionId = some front.key then
          { s.emit (.undoStatusChanged false) with undoActionId := none }
        else s
      some ({ s' with
        confirmedActionMap := Function.update s.confirmedActionMap front.key none
        confirmedActionList := rest }.emit (.actionErased front.key))
    else some s

/-- `popActionListFront`, if the confirmed list has grown too long. -/
def trim (s : StoreManager K) : Option (StoreManager K) :=
  if s.confirmedActionList.length > maxActionStackSize then s.popActionListFront else some s

/-- `StoreManager::receiveAction` -/
def receiveAction (s : StoreManager K) (actionId : ClientActionId) (action : K.Param) :
    Option (StoreManager K) :=
  if s.syncing > 0 then some s
  else do
    let pos := s.confirmedActionList.length -
      (s.unconfirmedUndos.card - s.undoneUnconfirmedActions)
    let r := rewind s.unconfirmedActionList s.tournament
    let done ← (Obj.fresh (K := K.toOps) action).redo r.2
    let s' ← { s.emit (.actionAboutToBeAdded actionId pos) with
      tournament := done.2
      unconfirmedActionList := r.1
      confirmedActionList := s.confirmedActionList ++ [newEntry s.nextNode actionId done.1]
      confirmedActionMap := Function.update s.confirmedActionMap actionId (some s.nextNode)
      nextNode := s.nextNode + 1 }.trim
    let q ← replay s'.unconfirmedUndos s'.unconfirmedActionList s'.tournament
    return { s' with unconfirmedActionList := q.1, tournament := q.2 }.emit
      (.actionAdded actionId pos)

/-- `StoreManager::receiveActionConfirm` -/
def receiveActionConfirm (s : StoreManager K) (actionId : ClientActionId) :
    Option (StoreManager K) :=
  if s.syncing > 0 then some s
  else
    match s.unconfirmedActionList with
    | [] => none
    | front :: rest =>
      if front.key ≠ actionId then none
      else if front.obj.done = false ∧ s.undoneUnconfirmedActions = 0 then none
      else
        { s with
          unconfirmedActionList := rest
          unconfirmedActionMap := Function.update s.unconfirmedActionMap actionId none
          undoneUnconfirmedActions :=
            if front.obj.done then s.undoneUnconfirmedActions else s.undoneUnconfirmedActions - 1
          confirmedActionList := s.confirmedActionList ++ [{ front with node := s.nextNode }]
          confirmedActionMap := Function.update s.confirmedActionMap actionId (some s.nextNode)
          nextNode := s.nextNode + 1 }.trim

/-- The latest done action of the local client in a list that is walked from the back. -/
def latestOwn (s : StoreManager K) (l : ActionList K) : Option ClientActionId :=
  (l.reverse.find? fun e => e.obj.done && e.key.clientId == s.id).map Entry.key

/-- `StoreManager::receiveUndo` -/
def receiveUndo (s : StoreManager K) (actionId : ClientActionId) : Option (StoreManager K) :=
  if s.syncing > 0 then some s
  else if !s.containsConfirmedAction actionId then none
  else do
    let r := rewind s.unconfirmedActionList s.tournament
    let (below, target, above) ← splitLast actionId s.confirmedActionList
    let r' := rewind above r.2
    -- the two assertions on the undos posted by the local client
    if target.obj.done = (decide (actionId ∈ s.unconfirmedUndos)) then none
    else
      let o := target.obj.unroll r'.2
      let undos := s.unconfirmedUndos.erase actionId
      let s' := { s.emit (.actionAboutToBeErased actionId) with
        confirmedActionMap := Function.update s.confirmedActionMap actionId none
        unconfirmedUndos := undos }
      let s' := if s.undoActionId = some actionId then
          match s.latestOwn below with
          | some new => { s' with undoActionId := some new }
          | none => { s' with undoActionId := none }.emit (.undoStatusChanged false)
        else s'
      let q ← replay undos r'.1 o.2
      let q' ← replay undos r.1 q.2
      return { s' with
        tournament := q'.2
        confirmedActionList := below ++ q.1
        unconfirmedActionList := q'.1 }.emit (.actionErased actionId)

/-- `StoreManager::receiveUndoConfirm` -/
def receiveUndoConfirm (s : StoreManager K) (actionId : ClientActionId) : StoreManager K :=
  if s.syncing > 0 then s
  else
    let s' := { s with unconfirmedUndos := s.unconfirmedUndos.erase actionId }
    match s.confirmedActionMap actionId with
    | some node =>
      { s' with
        confirmedActionList := eraseNode node s.confirmedActionList
        confirmedActionMap := Function.update s.confirmedActionMap actionId none }
    | none => s'

/-- `StoreManager::receiveSync`; the lists of the payload keep their nodes, which are numbered
here. -/
def receiveSync (s : StoreManager K) (payload : SyncPayload K) : Option (StoreManager K) :=
  let confirmed : ActionList K := number s.nextNode payload.confirmedActionList
  let unconfirmed : ActionList K :=
    number (s.nextNode + payload.confirmedActionList.length) payload.unconfirmedActionList
  if ∃ e ∈ unconfirmed, e.key.clientId ≠ s.id then none
  else
    let redoList :=
      if K.tournamentId s.tournament ≠ K.tournamentId payload.tournament then [] else s.redoList
    let ownConfirmed :=
      (confirmed.reverse.find? fun e => e.key.clientId == s.id).map Entry.key
    let undoActionId := (unconfirmed.getLast?.map Entry.key).or ownConfirmed
    some <| (({ s.emit .tournamentAboutToBeReset with
      redoList := redoList
      tournament := payload.tournament
      undoActionId := undoActionId
      confirmedActionList := confirmed
      confirmedActionMap := index confirmed
      unconfirmedActionList := unconfirmed
      unconfirmedActionMap := index unconfirmed
      undoneUnconfirmedActions := undoneIn payload.unconfirmedUndos unconfirmed
      unconfirmedUndos := payload.unconfirmedUndos
      nextNode := s.nextNode + payload.confirmedActionList.length +
        payload.unconfirmedActionList.length }.emit .tournamentReset).emit
      (.redoStatusChanged !redoList.isEmpty)).emit (.undoStatusChanged undoActionId.isSome)

/-- The unconfirmed part of `StoreManager::undo`: walk back to the action, undoing what is done.
The last component is the clone of the action, if it was found. -/
def unrollUnconfirmed (s : StoreManager K) (actionId : ClientActionId) :
    ActionList K × T × Option (Obj K.toOps) :=
  match splitLast actionId s.unconfirmedActionList with
  | some (below, target, above) =>
    let r := rewind above s.tournament
    let o := target.obj.unroll r.2
    (below ++ { target with obj := o.1 } :: r.1, o.2, some o.1.freshClone)
  | none =>
    let r := rewind s.unconfirmedActionList s.tournament
    (r.1, r.2, none)

/-- The confirmed part of `StoreManager::undo`: walk back to the action, undo it and redo the
actions above it. -/
def rollConfirmed (undos : Finset ClientActionId) (actionId : ClientActionId) (l : ActionList K)
    (t : T) : Option (ActionList K × T × Obj K.toOps) := do
  let (below, target, above) ← splitLast actionId l
  let r := rewind above t
  let o ← target.obj.undo r.2
  let q ← replay undos r.1 o.2
  return (below ++ { target with obj := o.1 } :: q.1, q.2, o.1.freshClone)

/-- The two parts of `StoreManager::undo`: an unconfirmed action has been found already, the walk
goes on through the confirmed actions otherwise. -/
def unrollConfirmed (s : StoreManager K) (undos : Finset ClientActionId) (actionId : ClientActionId)
    (u : ActionList K × T × Option (Obj K.toOps)) :
    Option (ActionList K × T × Option (Obj K.toOps)) :=
  if s.containsUnconfirmedAction actionId then some (s.confirmedActionList, u.2.1, u.2.2)
  else if !s.containsConfirmedAction actionId then none
  else (rollConfirmed undos actionId s.confirmedActionList u.2.1).map fun c =>
    (c.1, c.2.1, some c.2.2)

/-- The actions that `StoreManager::undo` walks through for the new `undoActionId`. -/
def undoCandidates (actionId : ClientActionId) (confirmed unconfirmed : ActionList K) :
    ActionList K :=
  match splitLast actionId unconfirmed with
  | some (below, target, _) => confirmed ++ below ++ [target]
  | none =>
    match splitLast actionId confirmed with
    | some (below, target, _) => below ++ [target]
    | none => []

/-- `StoreManager::undo(actionId)` -/
def undo (s : StoreManager K) (actionId : ClientActionId) : Option (StoreManager K) :=
  if !s.containsConfirmedAction actionId && !s.containsUnconfirmedAction actionId then some s
  else do
    let undos := insert actionId s.unconfirmedUndos
    let u := s.unrollUnconfirmed actionId
    let c ← s.unrollConfirmed undos actionId u
    let q ← replayRest undos u.1 c.2.1
    let clone ← c.2.2
    let undoActionId := if s.undoActionId = some actionId then
        s.latestOwn (undoCandidates actionId c.1 q.1)
      else s.undoActionId
    let redoList := s.redoList ++ [clone]
    let redoList := if redoList.length > redoListMaxSize then redoList.tail else redoList
    let s' := { (s.emit (.actionAboutToBeErased actionId)).emit (.actionErased actionId) with
      unconfirmedUndos := undos
      tournament := q.2
      confirmedActionList := c.1
      unconfirmedActionList := q.1
      undoneUnconfirmedActions :=
        if u.2.2.isSome then s.undoneUnconfirmedActions + 1 else s.undoneUnconfirmedActions
      undoActionId := undoActionId
      redoList := redoList }.post (.postUndo actionId)
    let s' := if undoActionId.isNone then s'.emit (.undoStatusChanged false) else s'
    return if redoList.length = 1 then s'.emit (.redoStatusChanged true) else s'

end StoreManager

end JudoAssistant
