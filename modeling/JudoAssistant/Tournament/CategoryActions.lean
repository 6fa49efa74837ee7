import JudoAssistant.Tournament.MatchActions

/-!
# Actions on categories and players

The actions of `src/core/actions` that draw categories, put players into categories and take them
out, and add and erase players and categories, with the actions that move blocks on the tatamis.
-/

namespace JudoAssistant

open Effect (lift)
open Exec

/-! ### Adding a match -/

namespace AddMatchAction

/-- The player, if he exists. -/
def existing (t : TournamentStore) : Option PlayerId → Option PlayerId
  | none => none
  | some id => if t.containsPlayer id then some id else none

/-- `AddMatchAction::redoImpl` -/
def redoImpl (a : AddMatchAction) : Exec Unit := do
  let t ← get
  match t.categories a.combinedId.categoryId with
  | none => pure ()
  | some c =>
    if c.containsMatch a.combinedId.matchId then
      throw (.actionExecution "Failed to redo AddMatchAction. Match already exists.")
    else do
      let white := existing t a.whitePlayerId
      SetMatchPlayerAction.addTo a.combinedId white
      let blue := existing t a.bluePlayerId
      SetMatchPlayerAction.addTo a.combinedId blue
      editCategory a.combinedId.categoryId
        (·.pushMatch (MatchStore.init a.combinedId a.type a.title a.bye white blue))

/-- `AddMatchAction::undoImpl` -/
def undoImpl (a : AddMatchAction) : Exec Unit := do
  let t ← get
  if t.containsCategory a.combinedId.categoryId then do
    SetMatchPlayerAction.eraseFrom a.combinedId (existing t a.whitePlayerId)
    SetMatchPlayerAction.eraseFrom a.combinedId (existing t a.bluePlayerId)
    editCategory a.combinedId.categoryId (·.popMatch)
  else pure ()

end AddMatchAction

/-! ### Drawing categories -/

/-- What `DrawCategoriesAction` keeps of a category. -/
structure DrawnCategory where
  categoryId : CategoryId
  oldMatches : List MatchStore
  actions : List AddMatchAction
  oldDrawSystem : DrawSystem
  oldStatus : ByType CategoryStatus

/-- `DrawCategoriesAction`.  The undo fields `mChangedCategories`, `mOldMatches`, `mActions`,
`mOldDrawSystems` and `mOldStati` are one stack, the last category first. -/
structure DrawCategoriesAction where
  categoryIds : List CategoryId
  seed : ℕ
  drawn : List DrawnCategory := []

namespace DrawCategoriesAction

/-- Take a match out of the sets of its players, as far as they exist. -/
def releasePlayers (id : CombinedId) (m : MatchStore) : Exec Unit := do
  let t ← get
  SetMatchPlayerAction.eraseFrom id (AddMatchAction.existing t (m.getPlayer .white))
  SetMatchPlayerAction.eraseFrom id (AddMatchAction.existing t (m.getPlayer .blue))

/-- Put a match back into the sets of its players, as far as they exist. -/
def engagePlayers (m : MatchStore) : Exec Unit := do
  let t ← get
  SetMatchPlayerAction.addTo m.combinedId (AddMatchAction.existing t (m.getPlayer .white))
  SetMatchPlayerAction.addTo m.combinedId (AddMatchAction.existing t (m.getPlayer .blue))

/-- The counters of a list of matches. -/
def computeStatus (ms : List MatchStore) : ByType CategoryStatus :=
  ms.foldl (fun s m => s.set m.type ((s.get m.type).increment m.getStatus)) ⟨{}, {}⟩

/-- The draw of one category. -/
def drawCategory (seed : ℕ) (id : CategoryId) : Exec DrawnCategory := do
  let c ← getCategory id
  let _ ← forEach (fun m => releasePlayers ⟨id, m.id⟩ m) c.matchList
  editCategory id fun c => .ok c.clearMatches
  let cleared ← getCategory id
  let (drawSystem, actions) ← read fun t =>
    cleared.drawSystem.initCategory t cleared (inOrder cleared.players) seed
  editCategory id fun c => .ok (c.setDrawSystem drawSystem)
  let _ ← forEach AddMatchAction.redoImpl actions
  editCategory id fun c => .ok { c with status := computeStatus c.matchList }
  return ⟨id, c.matchList, actions, c.drawSystem, c.status⟩

/-- The locations of the blocks of the categories. -/
def locations (t : TournamentStore) (ids : List CategoryId) : List BlockLocation :=
  ids.flatMap fun id => match t.categories id with
    | none => []
    | some c => (c.getLocation .final).toList ++ (c.getLocation .elimination).toList

/-- Recompute the groups of the blocks of the categories. -/
def recomputeGroups (ids : List CategoryId) : Exec Unit := do
  let t ← get
  editTatamis fun categories => TatamiList.recomputeBlocks categories (locations t ids)

/-- `DrawCategoriesAction::redoImpl` -/
def redoImpl (a : DrawCategoriesAction) : Exec DrawCategoriesAction := do
  let ids ← read fun t => .ok (a.categoryIds.filter t.containsCategory)
  let drawn ← forEach (drawCategory a.seed) ids
  recomputeGroups ids
  return { a with drawn := drawn.reverse ++ a.drawn }

/-- The recovery of one category. -/
def recoverCategory (d : DrawnCategory) : Exec Unit := do
  let _ ← getCategory d.categoryId
  let _ ← forEach AddMatchAction.undoImpl d.actions.reverse
  editCategory d.categoryId fun c => .ok (c.setDrawSystem d.oldDrawSystem)
  editCategory d.categoryId fun c => .ok { c with status := d.oldStatus }
  let _ ← forEach (fun m => do
    engagePlayers m
    editCategory d.categoryId (·.pushMatch m)) d.oldMatches

/-- `DrawCategoriesAction::undoImpl` -/
def undoImpl (a : DrawCategoriesAction) : Exec DrawCategoriesAction := do
  let _ ← forEach recoverCategory a.drawn
  recomputeGroups (a.drawn.map (·.categoryId))
  return { a with drawn := [] }

end DrawCategoriesAction

/-! ### Moving blocks on the tatamis -/

/-- `SetTatamiLocationAction` -/
structure SetTatamiLocationAction where
  block : Block
  location : Option BlockLocation
  positionSet : Bool := false
  oldLocation : Option BlockLocation := none

namespace SetTatamiLocationAction

/-- The sanity checks of `redoImpl` on the new location. -/
def allowed (t : TournamentStore) (c : CategoryStore) (block : Block) : Option BlockLocation → Bool
  | none => true
  | some l => match t.tatamis.tatamis.elements l.getTatamiHandle.id with
    | none => false
    | some tatami =>
      if block.2 = .final ∧ !c.drawSystem.hasFinalBlock then false
      else match tatami.groups.elements l.getConcurrentGroupHandle.id with
        | none => true
        | some group => group.groups.contains l.getSequentialGroupHandle ||
            group.groups.size != ConcurrentBlockGroup.maxGroupCount

/-- `SetTatamiLocationAction::redoImpl` -/
def redoImpl (a : SetTatamiLocationAction) : Exec SetTatamiLocationAction := do
  let t ← get
  match t.categories a.block.1 with
  | none => return { a with positionSet := false }
  | some c =>
    if allowed t c a.block a.location then do
      editTatamis fun categories =>
        TatamiList.moveBlock categories a.block (c.getLocation a.block.2) a.location
      editCategory a.block.1 fun c => .ok (c.setLocation a.block.2 a.location)
      return { a with positionSet := true, oldLocation := c.getLocation a.block.2 }
    else return { a with positionSet := false }

/-- `SetTatamiLocationAction::undoImpl` -/
def undoImpl (a : SetTatamiLocationAction) : Exec SetTatamiLocationAction :=
  if a.positionSet then do
    editTatamis fun categories => TatamiList.moveBlock categories a.block a.location a.oldLocation
    editCategory a.block.1 fun c => .ok (c.setLocation a.block.2 a.oldLocation)
    return a
  else return a

end SetTatamiLocationAction

/-! ### Changing the draw system -/

/-- `ChangeCategoriesDrawSystemAction`.  The undo fields `mChangedCategories` and `mOldDrawSystems`
are one stack, the last category first; so are the location actions. -/
structure ChangeCategoriesDrawSystemAction where
  categoryIds : List CategoryId
  drawSystem : DrawSystemIdentifier
  seed : ℕ
  changedCategories : List (CategoryId × DrawSystem) := []
  drawAction : Option DrawCategoriesAction := none
  locationActions : List SetTatamiLocationAction := []

namespace ChangeCategoriesDrawSystemAction

/-- `getCategoriesThatChange` -/
def getCategoriesThatChange (a : ChangeCategoriesDrawSystemAction) (t : TournamentStore) :
    List CategoryId :=
  a.categoryIds.filter fun id => match t.categories id with
    | none => false
    | some c => c.drawSystem.getIdentifier ≠ a.drawSystem

/-- Take the final block of a category off the tatamis, if it is placed. -/
def removeFinal (id : CategoryId) : Exec (Option SetTatamiLocationAction) := do
  let c ← getCategory id
  if (c.getLocation .final).isSome then do
    let a ← SetTatamiLocationAction.redoImpl { block := (c.id, .final), location := none }
    return some a
  else return none

/-- Take the final blocks off the tatamis, if the draw system has none. -/
def removeFinals (drawSystem : DrawSystem) (ids : List CategoryId) :
    Exec (List SetTatamiLocationAction) :=
  if drawSystem.hasFinalBlock then return []
  else do
    let actions ← forEach removeFinal ids
    return actions.reduceOption

/-- Set the draw system of a category; the result is the old one. -/
def changeDrawSystem (drawSystem : DrawSystem) (id : CategoryId) : Exec (CategoryId × DrawSystem) := do
  let c ← getCategory id
  editCategory id fun c => .ok (c.setDrawSystem drawSystem)
  return (id, c.drawSystem)

/-- `ChangeCategoriesDrawSystemAction::redoImpl` -/
def redoImpl (a : ChangeCategoriesDrawSystemAction) : Exec ChangeCategoriesDrawSystemAction := do
  let ids ← read fun t => .ok (a.getCategoriesThatChange t)
  let drawSystem := DrawSystem.getDrawSystem a.drawSystem
  let locationActions ← removeFinals drawSystem ids
  let old ← forEach (changeDrawSystem drawSystem) ids
  let drawAction ← DrawCategoriesAction.redoImpl { categoryIds := ids, seed := a.seed }
  return { a with
    changedCategories := old.reverse ++ a.changedCategories
    drawAction := some drawAction
    locationActions := locationActions.reverse ++ a.locationActions }

/-- `ChangeCategoriesDrawSystemAction::undoImpl` -/
def undoImpl (a : ChangeCategoriesDrawSystemAction) : Exec ChangeCategoriesDrawSystemAction :=
  match a.drawAction with
  | none => throw .outOfRange
  | some drawAction => do
    let _ ← drawAction.undoImpl
    let _ ← forEach (fun p => editCategory p.1 fun c => .ok (c.setDrawSystem p.2)) a.changedCategories
    let _ ← forEach SetTatamiLocationAction.undoImpl a.locationActions
    return { a with changedCategories := [], drawAction := none, locationActions := [] }

end ChangeCategoriesDrawSystemAction

/-! ### The players of a category -/

/-- The draw action that follows a change of the players of a category. -/
inductive RedrawAction where
  | draw (a : DrawCategoriesAction)
  | changeDrawSystem (a : ChangeCategoriesDrawSystemAction)

namespace RedrawAction

/-- The action that draws a category anew, with the preferred draw system for its number of
players. -/
def create (t : TournamentStore) (c : CategoryStore) (id : CategoryId) (seed : ℕ) :
    Except Failure RedrawAction := do
  let preferred ← t.preferences.getPreferredDrawSystem c.players.card
  return if c.drawSystem.getIdentifier ≠ preferred then
      .changeDrawSystem { categoryIds := [id], drawSystem := preferred, seed := seed }
    else .draw { categoryIds := [id], seed := seed }

def redo : RedrawAction → Exec RedrawAction
  | draw a => do
    let a ← a.redoImpl
    return draw a
  | changeDrawSystem a => do
    let a ← a.redoImpl
    return changeDrawSystem a

def undo : RedrawAction → Exec Unit
  | draw a => do
    let _ ← a.undoImpl
  | changeDrawSystem a => do
    let _ ← a.undoImpl

/-- Create the draw action of a category and run it. -/
def run (id : CategoryId) (seed : ℕ) : Exec RedrawAction := do
  let c ← getCategory id
  let a ← read fun t => create t c id seed
  a.redo

/-- Undo the draw action, if there is one. -/
def undoOption : Option RedrawAction → Exec Unit
  | none => pure ()
  | some a => a.undo

end RedrawAction

/-- Put a player into a category, at both ends. -/
def joinCategory (categoryId : CategoryId) (playerId : PlayerId) : Exec Unit := do
  editPlayer playerId (·.addCategory categoryId)
  editCategory categoryId (·.addPlayer playerId)

/-- Take a player out of a category, at both ends. -/
def leaveCategory (categoryId : CategoryId) (playerId : PlayerId) : Exec Unit := do
  editPlayer playerId (·.eraseCategory categoryId)
  editCategory categoryId (·.erasePlayer playerId)

/-- The players of a list who exist and are in the category, or are not. -/
def membersIn (categoryId : CategoryId) (inside : Bool) (t : TournamentStore) (id : PlayerId) : Bool :=
  match t.players id with
  | none => false
  | some p => decide (categoryId ∈ p.categories) == inside

/-- The loop over the players of a list that are not yet in the category, or still are. -/
def changeMembers (categoryId : CategoryId) (inside : Bool) (change : PlayerId → Exec Unit) :
    List PlayerId → Exec (List PlayerId)
  | [] => pure []
  | id :: ids => do
    let t ← get
    if membersIn categoryId inside t id then do
      change id
      let changed ← changeMembers categoryId inside change ids
      return id :: changed
    else changeMembers categoryId inside change ids

/-- `AddPlayersToCategoryAction` -/
structure AddPlayersToCategoryAction where
  categoryId : CategoryId
  playerIds : List PlayerId
  seed : ℕ
  addedPlayerIds : List PlayerId := []
  drawAction : Option RedrawAction := none

namespace AddPlayersToCategoryAction

/-- `AddPlayersToCategoryAction::redoImpl` -/
def redoImpl (a : AddPlayersToCategoryAction) : Exec AddPlayersToCategoryAction := do
  let t ← get
  if t.containsCategory a.categoryId then do
    let added ← changeMembers a.categoryId false (joinCategory a.categoryId) a.playerIds
    let addedPlayerIds := a.addedPlayerIds ++ added
    if addedPlayerIds = [] then return a
    else do
      let drawAction ← RedrawAction.run a.categoryId a.seed
      return { a with addedPlayerIds := addedPlayerIds, drawAction := some drawAction }
  else return a

/-- `AddPlayersToCategoryAction::undoImpl` -/
def undoImpl (a : AddPlayersToCategoryAction) : Exec AddPlayersToCategoryAction := do
  let t ← get
  if t.containsCategory a.categoryId then do
    let _ ← forEach (leaveCategory a.categoryId) a.addedPlayerIds
    RedrawAction.undoOption a.drawAction
    return { a with addedPlayerIds := [], drawAction := none }
  else return a

end AddPlayersToCategoryAction

/-- `ErasePlayersFromCategoryAction` -/
structure ErasePlayersFromCategoryAction where
  categoryId : CategoryId
  playerIds : List PlayerId
  seed : ℕ
  erasedPlayerIds : List PlayerId := []
  drawAction : Option RedrawAction := none

namespace ErasePlayersFromCategoryAction

/-- `ErasePlayersFromCategoryAction::redoImpl` -/
def redoImpl (a : ErasePlayersFromCategoryAction) : Exec ErasePlayersFromCategoryAction := do
  let t ← get
  if t.containsCategory a.categoryId then do
    let erased ← changeMembers a.categoryId true (leaveCategory a.categoryId) a.playerIds
    let erasedPlayerIds := a.erasedPlayerIds ++ erased
    if erasedPlayerIds = [] then return a
    else do
      let drawAction ← RedrawAction.run a.categoryId a.seed
      return { a with erasedPlayerIds := erasedPlayerIds, drawAction := some drawAction }
  else return a

/-- `ErasePlayersFromCategoryAction::undoImpl` -/
def undoImpl (a : ErasePlayersFromCategoryAction) : Exec ErasePlayersFromCategoryAction := do
  let t ← get
  if t.containsCategory a.categoryId then do
    let _ ← forEach (joinCategory a.categoryId) a.erasedPlayerIds
    RedrawAction.undoOption a.drawAction
    return { a with erasedPlayerIds := [], drawAction := none }
  else return a

end ErasePlayersFromCategoryAction

/-- Run `ErasePlayersFromCategoryAction` for categories one after the other; the result is the stack
of the actions, the last one first. -/
def eraseFromCategories (playerIds : List PlayerId) (seed : ℕ) (ids : List CategoryId) :
    Exec (List ErasePlayersFromCategoryAction) := do
  let actions ← forEach (fun id => ErasePlayersFromCategoryAction.redoImpl
    { categoryId := id, playerIds := playerIds, seed := seed }) ids
  return actions.reverse

/-- `ErasePlayersFromAllCategoriesAction` -/
structure ErasePlayersFromAllCategoriesAction where
  playerIds : List PlayerId
  seed : ℕ
  actions : List ErasePlayersFromCategoryAction := []

namespace ErasePlayersFromAllCategoriesAction

/-- `ErasePlayersFromAllCategoriesAction::redoImpl` -/
def redoImpl (a : ErasePlayersFromAllCategoriesAction) :
    Exec ErasePlayersFromAllCategoriesAction := do
  let t ← get
  let playerIds := a.playerIds.filter t.containsPlayer
  let actions ← eraseFromCategories playerIds a.seed (categoriesOf t playerIds)
  return { a with actions := actions ++ a.actions }

/-- `ErasePlayersFromAllCategoriesAction::undoImpl` -/
def undoImpl (a : ErasePlayersFromAllCategoriesAction) :
    Exec ErasePlayersFromAllCategoriesAction := do
  let _ ← forEach ErasePlayersFromCategoryAction.undoImpl a.actions
  return { a with actions := [] }

end ErasePlayersFromAllCategoriesAction

/-- `ErasePlayersAction`.  The players are a stack, the last one first. -/
structure ErasePlayersAction where
  playerIds : List PlayerId
  seed : ℕ
  erasedPlayerIds : List PlayerId := []
  players : List PlayerStore := []
  actions : List ErasePlayersFromCategoryAction := []

namespace ErasePlayersAction

/-- `ErasePlayersAction::redoImpl` -/
def redoImpl (a : ErasePlayersAction) : Exec ErasePlayersAction := do
  let t ← get
  let erasedPlayerIds := a.erasedPlayerIds ++ a.playerIds.filter t.containsPlayer
  let actions ← eraseFromCategories erasedPlayerIds a.seed
    (categoriesOf t (a.playerIds.filter t.containsPlayer))
  let players ← forEach erasePlayer erasedPlayerIds
  return { a with
    erasedPlayerIds := erasedPlayerIds
    players := players.reverse ++ a.players
    actions := actions ++ a.actions }

/-- `ErasePlayersAction::undoImpl` -/
def undoImpl (a : ErasePlayersAction) : Exec ErasePlayersAction := do
  let _ ← forEach addPlayer a.players
  let _ ← forEach ErasePlayersFromCategoryAction.undoImpl a.actions
  return { a with erasedPlayerIds := [], players := [], actions := [] }

end ErasePlayersAction

/-- The wish of a player to wear the blue judogi. -/
def blueJudogiHintField : PlayerField Bool where
  get f := f.blueJudogiHint
  set b f := { f with blueJudogiHint := b }

/-- `ChangePlayersBlueJudogiHintAction`.  The undo fields `mChangedPlayers` and `mOldValues` are one
list. -/
structure ChangePlayersBlueJudogiHintAction where
  playerIds : List PlayerId
  value : Bool
  seed : ℕ
  changedPlayers : List (PlayerId × Bool) := []
  drawAction : Option DrawCategoriesAction := none

namespace ChangePlayersBlueJudogiHintAction

/-- Draw the categories, if there are any. -/
def drawAll (ids : List CategoryId) (seed : ℕ) : Exec (Option DrawCategoriesAction) :=
  if ids = [] then return none
  else do
    let a ← DrawCategoriesAction.redoImpl { categoryIds := ids, seed := seed }
    return some a

/-- `ChangePlayersBlueJudogiHintAction::redoImpl` -/
def redoImpl (a : ChangePlayersBlueJudogiHintAction) : Exec ChangePlayersBlueJudogiHintAction := do
  let changed ← changeField blueJudogiHintField a.value a.playerIds
  let ids ← read fun t => .ok (categoriesOf t (changed.map (·.1)))
  let drawAction ← drawAll ids a.seed
  return { a with changedPlayers := a.changedPlayers ++ changed, drawAction := drawAction }

/-- `ChangePlayersBlueJudogiHintAction::undoImpl` -/
def undoImpl (a : ChangePlayersBlueJudogiHintAction) : Exec ChangePlayersBlueJudogiHintAction := do
  restoreField blueJudogiHintField a.changedPlayers
  match a.drawAction with
  | none => return { a with changedPlayers := [] }
  | some drawAction => do
    let _ ← drawAction.undoImpl
    return { a with changedPlayers := [], drawAction := none }

end ChangePlayersBlueJudogiHintAction

/-! ### Adding players and categories -/

/-- `AddPlayersAction` -/
structure AddPlayersAction where
  players : List (PlayerId × PlayerFields)

namespace AddPlayersAction

/-- `AddPlayersAction::redoImpl` -/
def redoImpl (a : AddPlayersAction) : Exec AddPlayersAction := do
  let t ← get
  if a.players.any fun p => t.containsPlayer p.1 then
    throw (.actionExecution "Failed to redo AddPlayersAction. Player already exists.")
  else do
    let _ ← forEach (fun p => addPlayer (PlayerStore.init p.1 p.2)) a.players
    return a

/-- `AddPlayersAction::undoImpl` -/
def undoImpl (a : AddPlayersAction) : Exec AddPlayersAction := do
  let _ ← forEach (fun p => erasePlayer p.1) a.players
  return a

end AddPlayersAction

/-- `AddCategoryAction` -/
structure AddCategoryAction where
  id : CategoryId
  name : String
  ruleset : RulesetIdentifier
  drawSystem : DrawSystemIdentifier

namespace AddCategoryAction

/-- `AddCategoryAction::redoImpl` -/
def redoImpl (a : AddCategoryAction) : Exec AddCategoryAction := do
  let t ← get
  if t.containsCategory a.id then
    throw (.actionExecution "Failed to redo AddCategoryAction. Category already exists.")
  else do
    addCategory (CategoryStore.init a.id a.name a.ruleset (DrawSystem.getDrawSystem a.drawSystem))
    return a

/-- `AddCategoryAction::undoImpl` -/
def undoImpl (a : AddCategoryAction) : Exec AddCategoryAction := do
  let _ ← eraseCategory a.id
  return a

end AddCategoryAction

/-- `AddCategoryWithPlayersAction` -/
structure AddCategoryWithPlayersAction where
  id : CategoryId
  name : String
  ruleset : RulesetIdentifier
  drawSystem : DrawSystemIdentifier
  playerIds : List PlayerId
  seed : ℕ
  categoryAction : Option AddCategoryAction := none
  playersAction : Option AddPlayersToCategoryAction := none

namespace AddCategoryWithPlayersAction

/-- The part of `redoImpl` that adds the players, if there are any. -/
def addPlayers (a : AddCategoryWithPlayersAction) : Exec (Option AddPlayersToCategoryAction) :=
  if a.playerIds = [] then return a.playersAction
  else do
    let b ← AddPlayersToCategoryAction.redoImpl
      { categoryId := a.id, playerIds := a.playerIds, seed := a.seed }
    return some b

/-- `AddCategoryWithPlayersAction::redoImpl` -/
def redoImpl (a : AddCategoryWithPlayersAction) : Exec AddCategoryWithPlayersAction := do
  let categoryAction ← AddCategoryAction.redoImpl ⟨a.id, a.name, a.ruleset, a.drawSystem⟩
  let playersAction ← a.addPlayers
  return { a with categoryAction := some categoryAction, playersAction := playersAction }

/-- The part of `undoImpl` that takes the players out again, if there are any. -/
def erasePlayers (a : AddCategoryWithPlayersAction) : Exec Unit :=
  if a.playerIds = [] then pure ()
  else match a.playersAction with
    | none => throw .outOfRange
    | some b => do
      let _ ← b.undoImpl

/-- `AddCategoryWithPlayersAction::undoImpl` -/
def undoImpl (a : AddCategoryWithPlayersAction) : Exec AddCategoryWithPlayersAction := do
  a.erasePlayers
  match a.categoryAction with
  | none => throw .outOfRange
  | some b => do
    let _ ← b.undoImpl
    return { a with categoryAction := none, playersAction := none }

end AddCategoryWithPlayersAction

/-- A player that `AddPlayersWithCategoriesAction` adds, and the category he is to be in. -/
structure NewPlayer where
  id : PlayerId
  fields : PlayerFields
  category : Option CategoryId

/-- `AddPlayersWithCategoriesAction`.  The undo fields for the sub-actions are stacks, the last one
first. -/
structure AddPlayersWithCategoriesAction where
  players : List NewPlayer
  newCategories : List (CategoryId × String)
  seed : ℕ
  addPlayersAction : Option AddPlayersAction := none
  addCategoryActions : List AddCategoryAction := []
  addPlayersToCategoryActions : List AddPlayersToCategoryAction := []

namespace AddPlayersWithCategoriesAction

/-- The players of each category that is named, in the order of an `std::map`. -/
def categoryPlayers (players : List NewPlayer) : List (CategoryId × List PlayerId) :=
  (inOrder (players.filterMap (·.category)).toFinset).map fun id =>
    (id, (players.filter fun p => p.category = some id).map (·.id))

/-- `AddPlayersWithCategoriesAction::redoImpl` -/
def redoImpl (a : AddPlayersWithCategoriesAction) : Exec AddPlayersWithCategoriesAction := do
  let addPlayersAction ← AddPlayersAction.redoImpl ⟨a.players.map fun p => (p.id, p.fields)⟩
  let addCategoryActions ← forEach (fun c => AddCategoryAction.redoImpl
    ⟨c.1, c.2, RulesetIdentifier.default, .pool⟩) a.newCategories
  let addPlayersToCategoryActions ← forEach (fun c => AddPlayersToCategoryAction.redoImpl
    { categoryId := c.1, playerIds := c.2, seed := a.seed }) (categoryPlayers a.players)
  return { a with
    addPlayersAction := some addPlayersAction
    addCategoryActions := addCategoryActions.reverse ++ a.addCategoryActions
    addPlayersToCategoryActions :=
      addPlayersToCategoryActions.reverse ++ a.addPlayersToCategoryActions }

/-- `AddPlayersWithCategoriesAction::undoImpl` -/
def undoImpl (a : AddPlayersWithCategoriesAction) : Exec AddPlayersWithCategoriesAction := do
  let _ ← forEach AddPlayersToCategoryAction.undoImpl a.addPlayersToCategoryActions
  let _ ← forEach AddCategoryAction.undoImpl a.addCategoryActions
  match a.addPlayersAction with
  | none => throw .outOfRange
  | some b => do
    let _ ← b.undoImpl
    return { a with
      addPlayersAction := none
      addCategoryActions := []
      addPlayersToCategoryActions := [] }

end AddPlayersWithCategoriesAction

/-! ### Erasing categories -/

/-- A block with its location, as `EraseCategoriesAction` keeps it. -/
abbrev PlacedBlock := Block × BlockLocation

/-- `EraseCategoriesAction`.  The categories are a stack, the last one first; the undo fields
`mBlocks` and `mLocations` are one list. -/
structure EraseCategoriesAction where
  categoryIds : List CategoryId
  categories : List CategoryStore := []
  blocks : List PlacedBlock := []

namespace EraseCategoriesAction

/-- `BlockLocationIndexComp` -/
def indexLt (a b : PlacedBlock) : Bool :=
  let x := a.2
  let y := b.2
  if x.getTatamiHandle.index ≠ y.getTatamiHandle.index then
    decide (x.getTatamiHandle.index < y.getTatamiHandle.index)
  else if x.getConcurrentGroupHandle.index ≠ y.getConcurrentGroupHandle.index then
    decide (x.getConcurrentGroupHandle.index < y.getConcurrentGroupHandle.index)
  else if x.getSequentialGroupHandle.index ≠ y.getSequentialGroupHandle.index then
    decide (x.getSequentialGroupHandle.index < y.getSequentialGroupHandle.index)
  else decide (x.pos < y.pos)

/-- The insertion into the `std::set` of locations. -/
def insertPlaced (b : PlacedBlock) : List PlacedBlock → List PlacedBlock
  | [] => [b]
  | x :: xs =>
    if indexLt b x then b :: x :: xs
    else if indexLt x b then x :: insertPlaced b xs
    else x :: xs

/-- The refreshed location of a block, if it is placed. -/
def placedBlock (t : TournamentStore) (block : Block) : Except Failure (Option PlacedBlock) := do
  let c ← t.getCategory block.1
  match c.getLocation block.2 with
  | none => return none
  | some l => do
    let l ← t.tatamis.refreshLocation l block
    return some (block, l)

/-- The placed blocks of the categories in increasing order. -/
def placedBlocks (t : TournamentStore) (ids : List CategoryId) : Except Failure (List PlacedBlock) := do
  let blocks ← (ids.flatMap fun id => [(id, MatchType.elimination), (id, MatchType.final)]).mapM
    (placedBlock t)
  return blocks.reduceOption.foldl (fun s b => insertPlaced b s) []

/-- The erasure of one category from its players and from the tournament. -/
def eraseOne (id : CategoryId) : Exec CategoryStore := do
  let c ← getCategory id
  let _ ← forEach (fun p => editPlayer p (·.eraseCategory id)) (inOrder c.players)
  let _ ← forEach (fun m => do
    SetMatchPlayerAction.eraseFrom m.combinedId (m.getPlayer .white)
    SetMatchPlayerAction.eraseFrom m.combinedId (m.getPlayer .blue)) c.matchList
  eraseCategory id

/-- `EraseCategoriesAction::redoImpl` -/
def redoImpl (a : EraseCategoriesAction) : Exec EraseCategoriesAction := do
  let t ← get
  let ids := a.categoryIds.filter t.containsCategory
  let blocks ← read fun t => placedBlocks t ids
  let _ ← forEach (fun b => editTatamis fun categories =>
    TatamiList.moveBlock categories b.1 (some b.2) none) blocks
  let categories ← forEach eraseOne ids
  return { a with
    categories := categories.reverse ++ a.categories
    blocks := a.blocks ++ blocks }

/-- The recovery of one category. -/
def recoverOne (c : CategoryStore) : Exec Unit := do
  let _ ← forEach (fun p => editPlayer p (·.addCategory c.id)) (inOrder c.players)
  let _ ← forEach (fun m => do
    SetMatchPlayerAction.addTo m.combinedId (m.getPlayer .white)
    SetMatchPlayerAction.addTo m.combinedId (m.getPlayer .blue)) c.matchList
  addCategory c

/-- `EraseCategoriesAction::undoImpl` -/
def undoImpl (a : EraseCategoriesAction) : Exec EraseCategoriesAction := do
  let _ ← forEach recoverOne a.categories
  let _ ← forEach (fun b => editTatamis fun categories =>
    TatamiList.moveBlock categories b.1 none (some b.2)) a.blocks
  return { a with categories := [], blocks := [] }

end EraseCategoriesAction

/-! ### Automatic categories -/

/-- `AutoAddCategoriesAction`, with the groups that its constructor has computed. -/
structure AutoAddCategoriesAction where
  groups : List (CategoryId × List PlayerId)
  baseName : String
  seed : ℕ

namespace AutoAddCategoriesAction

/-- The addition of the category of a group. -/
def addGroup (baseName : String) (group : (CategoryId × List PlayerId) × ℕ) : Exec Unit := do
  let drawSystem ← read fun t => t.preferences.getPreferredDrawSystem group.1.2.length
  addCategory (CategoryStore.init group.1.1 (baseName ++ " " ++ toString (group.2 + 1))
    RulesetIdentifier.default (DrawSystem.getDrawSystem drawSystem))

/-- `AutoAddCategoriesAction::redoImpl` -/
def redoImpl (a : AutoAddCategoriesAction) : Exec AutoAddCategoriesAction := do
  let t ← get
  if a.groups.any fun g => t.containsCategory g.1 then
    throw (.actionExecution "Failed to redo AutoAddCategoriesAction. Category already exists.")
  else do
    let _ ← forEach (addGroup a.baseName) a.groups.zipIdx
    let _ ← forEach (fun g => AddPlayersToCategoryAction.redoImpl
      { categoryId := g.1, playerIds := g.2, seed := a.seed }) a.groups
    return a

/-- `AutoAddCategoriesAction::undoImpl` -/
def undoImpl (a : AutoAddCategoriesAction) : Exec AutoAddCategoriesAction := do
  let _ ← EraseCategoriesAction.redoImpl { categoryIds := a.groups.map (·.1) }
  return a

end AutoAddCategoriesAction

end JudoAssistant
