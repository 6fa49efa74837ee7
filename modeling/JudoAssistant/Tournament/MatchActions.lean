import JudoAssistant.Tournament.DrawSystems

/-!
# Actions on matches

The actions of `src/core/actions` that change the players or the course of a match:
`SetMatchPlayerAction`, the subclasses of `MatchEventAction`, `ResetMatchesAction`, and the two
actions that can change the ranking of drawn categories, `ChangeCategoriesRulesetAction` and
`ChangePlayersWeightAction`.  An action is a record of its parameters and its undo fields; `redoImpl`
and `undoImpl` return the record with the new undo fields.
-/

namespace JudoAssistant

open Effect (lift)
open Exec

/-! ### The players of a match -/

/-- The match of an id, where category and match exist. -/
def TournamentStore.findMatch (t : TournamentStore) (id : CombinedId) : Option CategoryStore :=
  match t.categories id.categoryId with
  | none => none
  | some c => if c.containsMatch id.matchId then some c else none

/-- Whether an optional player exists or is none. -/
def TournamentStore.allowsPlayer (t : TournamentStore) : Option PlayerId → Bool
  | none => true
  | some id => t.containsPlayer id

namespace SetMatchPlayerAction

/-- Put the match into the set of a player. -/
def addTo (id : CombinedId) : Option PlayerId → Exec Unit
  | none => pure ()
  | some player => editPlayer player (·.addMatch id)

/-- Take the match out of the set of a player. -/
def eraseFrom (id : CombinedId) : Option PlayerId → Exec Unit
  | none => pure ()
  | some player => editPlayer player fun p => .ok (p.eraseMatch id)

/-- `SetMatchPlayerAction::redoImpl` -/
def redoImpl (a : SetMatchPlayerAction) : Exec SetMatchPlayerAction := do
  let t ← get
  if (t.findMatch a.combinedId).isSome && t.allowsPlayer a.playerId then do
    let m ← getMatch a.combinedId
    editMatch a.combinedId fun m => .ok (m.setPlayer a.playerIndex a.playerId)
    addTo a.combinedId a.playerId
    eraseFrom a.combinedId (m.getPlayer a.playerIndex)
    return { a with oldPlayerId := m.getPlayer a.playerIndex }
  else return a

/-- `SetMatchPlayerAction::undoImpl` -/
def undoImpl (a : SetMatchPlayerAction) : Exec Unit := do
  let t ← get
  if (t.findMatch a.combinedId).isSome && t.allowsPlayer a.playerId then do
    editMatch a.combinedId fun m => .ok (m.setPlayer a.playerIndex a.oldPlayerId)
    addTo a.combinedId a.oldPlayerId
    eraseFrom a.combinedId a.playerId
  else pure ()

end SetMatchPlayerAction

/-! ### Match events -/

/-- What a subclass of `MatchEventAction` checks before it saves the match, and what it then does to
the match. -/
structure EventRules where
  guard : RulesetIdentifier → MatchStore → Bool
  effect : RulesetIdentifier → MatchStore → Except Failure MatchStore

namespace EventRules

/-- The end of an award or a cancellation: the event is recorded and the clock may stop. -/
def record (r : RulesetIdentifier) (type : MatchEventType) (i : PlayerIndex) (masterTime : ℤ)
    (m : MatchStore) : Except Failure MatchStore :=
  let m := m.pushEvent ⟨type, i, m.currentDuration masterTime⟩
  if r.shouldPause m masterTime then r.pause m masterTime else .ok m

/-- An award or a cancellation that only calls the ruleset. -/
def score (can : MatchStore → PlayerIndex → Bool)
    (change : RulesetIdentifier → MatchStore → PlayerIndex → ℤ → Except Failure MatchStore)
    (type : MatchEventType) (i : PlayerIndex) (masterTime : ℤ) : EventRules where
  guard _ m := can m i
  effect r m := do
    let m ← change r m i masterTime
    record r type i masterTime m

open RulesetIdentifier

/-- The part of `AwardIpponAction` that cancels the wazari of the osaekomi, if possible. -/
def cancelOsaekomiWazari (r : RulesetIdentifier) (m : MatchStore) (i : PlayerIndex)
    (masterTime : ℤ) : Except Failure MatchStore :=
  if m.state.osaekomiWazari && canCancelWazari m i then r.cancelWazari m i masterTime else .ok m

/-- `AwardIpponAction` -/
def awardIppon (i : PlayerIndex) (masterTime : ℤ) (osaekomi : Bool) : EventRules where
  guard _ m := canAwardIppon m i
  effect r m := do
    let m ← cancelOsaekomiWazari r m i masterTime
    let m ← r.awardIppon m i masterTime
    record r (if osaekomi then .ipponOsaekomi else .ippon) i masterTime m

/-- `AwardWazariAction` -/
def awardWazari (i : PlayerIndex) (masterTime : ℤ) (osaekomi : Bool) : EventRules where
  guard _ m := !(osaekomi && m.state.osaekomiWazari) && canAwardWazari m i
  effect r m := do
    let m ← r.awardWazari m i masterTime
    let m := if osaekomi then m.setOsaekomiWazari true else m
    record r (if osaekomi then .wazariOsaekomi else .wazari) i masterTime m

/-- `AwardShidoAction` -/
def awardShido : PlayerIndex → ℤ → EventRules := score canAwardShido RulesetIdentifier.awardShido .shido

/-- `AwardHansokuMakeAction` -/
def awardHansokuMake : PlayerIndex → ℤ → EventRules :=
  score canAwardHansokuMake RulesetIdentifier.awardHansokuMake .hansokuMake

/-- `CancelIpponAction` -/
def cancelIppon : PlayerIndex → ℤ → EventRules :=
  score canCancelIppon RulesetIdentifier.cancelIppon .cancelIppon

/-- `CancelWazariAction` -/
def cancelWazari : PlayerIndex → ℤ → EventRules :=
  score canCancelWazari RulesetIdentifier.cancelWazari .cancelWazari

/-- `CancelShidoAction` -/
def cancelShido : PlayerIndex → ℤ → EventRules :=
  score canCancelShido RulesetIdentifier.cancelShido .cancelShido

/-- `CancelHansokuMakeAction` -/
def cancelHansokuMake : PlayerIndex → ℤ → EventRules :=
  score canCancelHansokuMake RulesetIdentifier.cancelHansokuMake .cancelHansokuMake

/-- `PauseMatchAction` -/
def pauseMatch (masterTime : ℤ) : EventRules where
  guard _ m := canPause m
  effect r m := r.pause m masterTime

/-- `ResumeMatchAction` -/
def resumeMatch (masterTime : ℤ) : EventRules where
  guard r m := r.canResume m masterTime
  effect r m := r.resume m masterTime

/-- `StartOsaekomiAction` -/
def startOsaekomi (i : PlayerIndex) (masterTime : ℤ) : EventRules where
  guard _ m := canStartOsaekomi m i
  effect r m := do
    let m ← RulesetIdentifier.startOsaekomi m i masterTime
    if m.getStatus ≠ .unpaused ∧ (m.state.duration < r.getNormalTime ∨ m.state.goldenScore) then
      r.resume m masterTime
    else return m

/-- `StopOsaekomiAction` -/
def stopOsaekomi (masterTime : ℤ) : EventRules where
  guard _ m := canStopOsaekomi m
  effect r m :=
    let m := r.stopOsaekomi m masterTime
    if r.shouldPause m masterTime then r.pause m masterTime else .ok m

/-- `SetMatchByeAction` -/
def setMatchBye (bye : Bool) : EventRules where
  guard _ m := m.bye != bye && (!bye || m.getStatus == .notStarted)
  effect _ m := (m.setStatus (if bye then .finished else .notStarted)).setBye bye

end EventRules

/-- The subclasses of `MatchEventAction` with their parameters. -/
inductive MatchEventKind where
  | awardIppon (i : PlayerIndex) (masterTime : ℤ) (osaekomi : Bool)
  | awardWazari (i : PlayerIndex) (masterTime : ℤ) (osaekomi : Bool)
  | awardShido (i : PlayerIndex) (masterTime : ℤ)
  | awardHansokuMake (i : PlayerIndex) (masterTime : ℤ)
  | cancelIppon (i : PlayerIndex) (masterTime : ℤ)
  | cancelWazari (i : PlayerIndex) (masterTime : ℤ)
  | cancelShido (i : PlayerIndex) (masterTime : ℤ)
  | cancelHansokuMake (i : PlayerIndex) (masterTime : ℤ)
  | pauseMatch (masterTime : ℤ)
  | resumeMatch (masterTime : ℤ)
  | startOsaekomi (i : PlayerIndex) (masterTime : ℤ)
  | stopOsaekomi (masterTime : ℤ)
  | setMatchBye (bye : Bool)
  deriving DecidableEq, Repr

def MatchEventKind.rules : MatchEventKind → EventRules
  | awardIppon i time osaekomi => .awardIppon i time osaekomi
  | awardWazari i time osaekomi => .awardWazari i time osaekomi
  | awardShido i time => .awardShido i time
  | awardHansokuMake i time => .awardHansokuMake i time
  | cancelIppon i time => .cancelIppon i time
  | cancelWazari i time => .cancelWazari i time
  | cancelShido i time => .cancelShido i time
  | cancelHansokuMake i time => .cancelHansokuMake i time
  | pauseMatch time => .pauseMatch time
  | resumeMatch time => .resumeMatch time
  | startOsaekomi i time => .startOsaekomi i time
  | stopOsaekomi time => .stopOsaekomi time
  | setMatchBye bye => .setMatchBye bye

/-- Whether a change of status is one that the counters and the tatamis are told of: to or from
finished or not started. -/
def changesCounters (source target : MatchStatus) : Bool :=
  source ≠ target && (source = .notStarted || source = .finished ||
    target = .notStarted || target = .finished)

/-- Move a match of a category from the counter of one status to that of another, and tell the
concurrent group that holds the block of the match. -/
def moveCounter (categoryId : CategoryId) (m : MatchStore) (source target : MatchStatus) :
    Exec Unit := do
  editCategory categoryId fun c => do
    let status ← (c.getStatus m.type).decrement source
    return c.setStatus m.type (status.increment target)
  let c ← getCategory categoryId
  match c.getLocation m.type with
  | none => pure ()
  | some l => editTatamis fun _ tatamis => tatamis.updateStatus l m.combinedId m.getStatus

/-- Run actions in order; the result is the stack of the actions that were run, the last one first. -/
def runAll (run : DrawAction → Exec DrawAction) : List DrawAction → List DrawAction →
    Exec (List DrawAction)
  | [], stack => pure stack
  | a :: as, stack => do
    let a ← run a
    runAll run as (a :: stack)

/-- Ask the draw system of a category for the actions that follow from a changed result, and run
them. -/
def updateDraw (run : DrawAction → Exec DrawAction) (categoryId : CategoryId)
    (stack : List DrawAction) : Exec (List DrawAction) := do
  let c ← getCategory categoryId
  let actions ← read fun t => c.drawSystem.updateCategory t c
  runAll run actions stack

namespace MatchEventAction

/-- `MatchEventAction::notify` -/
def notify (run : DrawAction → Exec DrawAction) (id : CombinedId) (prevStatus : MatchStatus)
    (stack : List DrawAction) : Exec (List DrawAction) := do
  let m ← getMatch id
  doIf (changesCounters prevStatus m.getStatus)
    (moveCounter m.combinedId.categoryId m prevStatus m.getStatus)
  if prevStatus = .finished ∨ m.getStatus = .finished then
    updateDraw run m.combinedId.categoryId stack
  else return stack

/-- The common body of the functions `redoImpl` of the match events. -/
def redoWith (run : DrawAction → Exec DrawAction) (rules : EventRules) (id : CombinedId)
    (saved : Saved) (stack : List DrawAction) : Exec (Saved × List DrawAction) := do
  let t ← get
  match t.findMatch id with
  | none => return (saved, stack)
  | some c => do
    let m ← lift (c.getMatch id.matchId)
    if rules.guard c.ruleset m then do
      editMatch id (rules.effect c.ruleset)
      let stack ← notify run id m.getStatus stack
      return (.state m.state m.events.length, stack)
    else return (saved, stack)

/-- `MatchEventAction::recover`, after the draw actions have been undone. -/
def restore (id : CombinedId) (prevState : MatchState) (prevEventSize : ℕ) : Exec Unit := do
  let m ← getMatch id
  editMatch id fun m => do
    check .action (prevEventSize ≤ m.events.length)
    return (m.setState prevState).setEvents (m.events.take prevEventSize)
  let restored ← getMatch id
  doIf (changesCounters m.getStatus prevState.status)
    (moveCounter id.categoryId restored m.getStatus prevState.status)

end MatchEventAction

namespace DrawAction

/-- `redo` of the actions that a draw system returns.  Setting a bye updates the draw system again;
the first argument bounds how often. -/
def redo : ℕ → DrawAction → Exec DrawAction
  | _, setMatchPlayer a => do
    let a ← a.redoImpl
    return setMatchPlayer a
  | 0, setMatchBye _ _ _ _ => throw .unbounded
  | n + 1, setMatchBye id bye saved stack => do
    let (saved, stack) ← MatchEventAction.redoWith (redo n) (.setMatchBye bye) id saved stack
    return setMatchBye id bye saved stack

mutual

/-- `undo` of the actions that a draw system returns. -/
def undo : DrawAction → Exec Unit
  | setMatchPlayer a => a.undoImpl
  | setMatchBye id _ saved stack => match saved with
    | .unwritten => throw .indeterminate
    | .clear => pure ()
    | .state prevState prevEventSize => do
      undoAll stack
      MatchEventAction.restore id prevState prevEventSize

/-- The loop that undoes the actions on a stack. -/
def undoAll : List DrawAction → Exec Unit
  | [] => pure ()
  | a :: stack => do
    undo a
    undoAll stack

end

end DrawAction

/-- The flag `mDidSave` has a value. -/
def Saved.isWritten : Saved → Bool
  | .unwritten => false
  | _ => true

namespace DrawAction

mutual

/-- The undo of the action reads no flag that was never written. -/
def isWritten : DrawAction → Bool
  | setMatchPlayer _ => true
  | setMatchBye _ _ saved stack => saved.isWritten && allWritten stack

def allWritten : List DrawAction → Bool
  | [] => true
  | a :: stack => a.isWritten && allWritten stack

end

end DrawAction

/-- How deep the updates of a draw system may nest. -/
def maxDrawDepth : ℕ := 3

/-- `MatchEventAction` -/
structure MatchEventAction where
  combinedId : CombinedId
  kind : MatchEventKind
  saved : Saved
  drawActions : List DrawAction

namespace MatchEventAction

/-- `redoImpl` of the subclasses. -/
def redoImpl (a : MatchEventAction) : Exec MatchEventAction := do
  let (saved, stack) ←
    redoWith (DrawAction.redo maxDrawDepth) a.kind.rules a.combinedId a.saved a.drawActions
  return { a with saved := saved, drawActions := stack }

/-- `undoImpl` of the subclasses: `recover`, if `shouldRecover`. -/
def undoImpl (a : MatchEventAction) : Exec MatchEventAction :=
  match a.saved with
  | .unwritten => throw .indeterminate
  | .clear => return a
  | .state prevState prevEventSize => do
    DrawAction.undoAll a.drawActions
    restore a.combinedId prevState prevEventSize
    return { a with drawActions := [] }

end MatchEventAction

/-! ### Resetting matches -/

/-- What `ResetMatchesAction` keeps of a match. -/
structure ResetMatch where
  combinedId : CombinedId
  prevState : MatchState
  prevEvents : List MatchEvent
  deriving DecidableEq, Repr

/-- `ResetMatchesAction`.  The undo fields `mChangedMatches`, `mPrevStates` and `mPrevEvents` are one
stack, the last match first. -/
structure ResetMatchesAction where
  categoryIds : List CategoryId
  matchId : Option MatchId
  changedMatches : List ResetMatch := []
  drawActions : List DrawAction := []

namespace ResetMatchesAction

/-- The matches of a category that are not in the state not started. -/
def startedMatches (t : TournamentStore) (id : CategoryId) : List CombinedId :=
  match t.categories id with
  | none => []
  | some c => (c.matchList.filter fun m => m.getStatus ≠ .notStarted).map (·.combinedId)

/-- The matches that the action changes. -/
def targets (a : ResetMatchesAction) (t : TournamentStore) : Except Failure (List CombinedId) :=
  match a.matchId with
  | none => .ok (a.categoryIds.flatMap (startedMatches t))
  | some matchId => match a.categoryIds with
    | [categoryId] => match t.findMatch ⟨categoryId, matchId⟩ with
      | none => .ok []
      | some c => do
        let m ← c.getMatch matchId
        return if m.getStatus = .notStarted then [] else [m.combinedId]
    | _ => .error (.assertion .action)

/-- The reset of one match, and whether its category has lost a result. -/
def resetMatch (id : CombinedId) : Exec (ResetMatch × Bool) := do
  let m ← getMatch id
  editMatch id fun m => .ok (m.clearState.setEvents [])
  let cleared ← getMatch id
  -- The match is counted as not started whatever status a cleared match has.
  doIf (cleared.getStatus ≠ m.getStatus) (moveCounter id.categoryId cleared m.getStatus .notStarted)
  return (⟨id, m.state, m.events⟩, cleared.getStatus ≠ m.getStatus ∧ m.getStatus = .finished)

/-- The updates of the draw systems, one category after the other. -/
def updateDraws : List CategoryId → List DrawAction → Exec (List DrawAction)
  | [], stack => pure stack
  | id :: ids, stack => do
    let stack ← updateDraw (DrawAction.redo maxDrawDepth) id stack
    updateDraws ids stack

/-- The categories that have lost a result, each one once. -/
def drawUpdates (resets : List (ResetMatch × Bool)) : List CategoryId :=
  ((resets.filter (·.2)).map (·.1.combinedId.categoryId)).dedup

/-- `ResetMatchesAction::redoImpl` -/
def redoImpl (a : ResetMatchesAction) : Exec ResetMatchesAction := do
  let ids ← read a.targets
  let resets ← forEach resetMatch ids
  let stack ← updateDraws (drawUpdates resets) a.drawActions
  return { a with
    changedMatches := (resets.map (·.1)).reverse ++ a.changedMatches
    drawActions := stack }

/-- The recovery of one match. -/
def recoverMatch (r : ResetMatch) : Exec Unit := do
  let m ← getMatch r.combinedId
  editMatch r.combinedId fun m => .ok ((m.setState r.prevState).setEvents r.prevEvents)
  let restored ← getMatch r.combinedId
  doIf (m.getStatus ≠ r.prevState.status)
    (moveCounter r.combinedId.categoryId restored .notStarted r.prevState.status)

/-- `ResetMatchesAction::undoImpl` -/
def undoImpl (a : ResetMatchesAction) : Exec ResetMatchesAction :=
  if a.changedMatches = [] then return a
  else do
    DrawAction.undoAll a.drawActions
    let _ ← forEach recoverMatch a.changedMatches
    return { a with changedMatches := [], drawActions := [] }

end ResetMatchesAction

/-! ### Changing the ruleset -/

/-- `ChangeCategoriesRulesetAction`.  The undo fields `mChangedCategories` and `mOldRulesets` are one
stack, the last category first. -/
structure ChangeCategoriesRulesetAction where
  categoryIds : List CategoryId
  ruleset : RulesetIdentifier
  changedCategories : List (CategoryId × RulesetIdentifier) := []
  resetAction : Option ResetMatchesAction := none

namespace ChangeCategoriesRulesetAction

/-- `getCategoriesThatChange` -/
def getCategoriesThatChange (a : ChangeCategoriesRulesetAction) (t : TournamentStore) :
    List CategoryId :=
  a.categoryIds.filter fun id => match t.categories id with
    | none => false
    | some c => c.ruleset ≠ a.ruleset

/-- Set the ruleset of a category; the result is the old one. -/
def changeRuleset (ruleset : RulesetIdentifier) (id : CategoryId) :
    Exec (CategoryId × RulesetIdentifier) := do
  let c ← getCategory id
  editCategory id fun c => .ok (c.setRuleset ruleset)
  return (id, c.ruleset)

/-- `ChangeCategoriesRulesetAction::redoImpl` -/
def redoImpl (a : ChangeCategoriesRulesetAction) : Exec ChangeCategoriesRulesetAction := do
  let ids ← read fun t => .ok (a.getCategoriesThatChange t)
  let old ← forEach (changeRuleset a.ruleset) ids
  let resetAction ← ResetMatchesAction.redoImpl { categoryIds := ids, matchId := none }
  return { a with
    changedCategories := old.reverse ++ a.changedCategories
    resetAction := some resetAction }

/-- `ChangeCategoriesRulesetAction::undoImpl` -/
def undoImpl (a : ChangeCategoriesRulesetAction) : Exec ChangeCategoriesRulesetAction :=
  match a.resetAction with
  | none => throw .outOfRange
  | some resetAction => do
    let _ ← resetAction.undoImpl
    let _ ← forEach (fun p => editCategory p.1 fun c => .ok (c.setRuleset p.2)) a.changedCategories
    return { a with changedCategories := [], resetAction := none }

end ChangeCategoriesRulesetAction

/-! ### Changing a field of players -/

section

variable {α : Type} [DecidableEq α]

/-- A field of the players that an action changes. -/
structure PlayerField (α : Type) where
  get : PlayerFields → α
  set : α → PlayerFields → PlayerFields

/-- The loop of the actions `ChangePlayers…Action` that sets a field of the players who have another
value; the result are these players with their old values. -/
def changeField (field : PlayerField α) (value : α) : List PlayerId → Exec (List (PlayerId × α))
  | [] => pure []
  | id :: ids => do
    let t ← get
    match t.players id with
    | none => changeField field value ids
    | some p =>
      if field.get p.fields = value then changeField field value ids
      else do
        editPlayer id fun p => .ok (p.setFields (field.set value p.fields))
        let changed ← changeField field value ids
        return (id, field.get p.fields) :: changed

/-- The loop of the actions `ChangePlayers…Action` that restores the old values. -/
def restoreField (field : PlayerField α) (changed : List (PlayerId × α)) : Exec Unit := do
  let _ ← forEach (fun q => editPlayer q.1 fun p => .ok (p.setFields (field.set q.2 p.fields))) changed

end

/-- The categories of the players of a list, in the order of an `std::set`. -/
def categoriesOf (t : TournamentStore) (ids : List PlayerId) : List CategoryId :=
  inOrder (ids.foldr (fun id s => ((t.players id).map (·.categories)).getD ∅ ∪ s) ∅)

/-- The weight of a player. -/
def weightField : PlayerField (Option ℚ) where
  get f := f.weight
  set w f := { f with weight := w }

/-- `ChangePlayersWeightAction`.  The undo fields `mChangedPlayers` and `mOldValues` are one list. -/
structure ChangePlayersWeightAction where
  playerIds : List PlayerId
  value : Option ℚ
  changedPlayers : List (PlayerId × Option ℚ) := []
  drawActions : List DrawAction := []

namespace ChangePlayersWeightAction

/-- `ChangePlayersWeightAction::redoImpl` -/
def redoImpl (a : ChangePlayersWeightAction) : Exec ChangePlayersWeightAction := do
  let changed ← changeField weightField a.value a.playerIds
  let changedPlayers := a.changedPlayers ++ changed
  let ids ← read fun t => .ok (categoriesOf t (changedPlayers.map (·.1)))
  let stack ← ResetMatchesAction.updateDraws ids a.drawActions
  return { a with changedPlayers := changedPlayers, drawActions := stack }

/-- `ChangePlayersWeightAction::undoImpl` -/
def undoImpl (a : ChangePlayersWeightAction) : Exec ChangePlayersWeightAction := do
  DrawAction.undoAll a.drawActions
  restoreField weightField a.changedPlayers
  return { a with changedPlayers := [], drawActions := [] }

end ChangePlayersWeightAction

end JudoAssistant
