import JudoAssistant.Lib.Run
import JudoAssistant.Lib.Window
import JudoAssistant.Tournament.Layout

/-!
# The upcoming matches of a tatami

`WebTatamiModel` (`src/web/web_tatami_model.cpp`) keeps the list of the first unfinished matches of a
tatami.  It loads the concurrent groups of the tatami one after another until enough of their matches are
unfinished, follows the matches that start and finish, and starts again when a group that it has loaded
changes or another one comes before it.
-/

namespace JudoAssistant

/-- `WebTatamiModel`.  The sets of the loaded groups and of the unfinished matches are unordered, and so
is the map from the loaded matches to their loading times, which is a list of pairs here. -/
structure WebTatamiModel where
  tatami : TatamiLocation
  resetting : Bool := true
  loadedMatches : List (CombinedId × ℕ) := []
  loadedGroups : Finset PositionId := ∅
  unfinishedLoadedMatches : List (CombinedId × ℕ) := []
  unfinishedLoadedMatchesSet : Finset CombinedId := ∅
  matchesChanged : Bool := true
  changed : Bool := true
  matchIds : List CombinedId := []
  insertedMatches : List CombinedId := []

namespace WebTatamiModel

/-- `WebTatamiModel::DISPLAY_COUNT` -/
def displayCount : ℕ := 5

variable (t : TournamentStore) (m : WebTatamiModel)

/-- `WebTatamiModel::getMatches` -/
def getMatches : Except Failure (List CombinedId) := do
  check .tatamis !m.resetting
  return m.matchIds

/-- `WebTatamiModel::getInsertedMatches` -/
def getInsertedMatches : Except Failure (List CombinedId) := do
  check .tatamis !m.resetting
  return m.insertedMatches

/-- `WebTatamiModel::matchesChanged` -/
def getMatchesChanged : Except Failure Bool := do
  check .tatamis !m.resetting
  return m.matchesChanged

/-- One turn of the loop of `WebTatamiModel::changeMatches`. -/
def changeMatch (category : CategoryStore) (categoryId : CategoryId) (m : WebTatamiModel)
    (matchId : MatchId) : Except Failure WebTatamiModel :=
  let combinedId : CombinedId := ⟨categoryId, matchId⟩
  match m.loadedMatches.lookup combinedId with
  | none => .ok m
  | some loadingTime => do
    let match' ← category.getMatch matchId
    let wasFinished := decide (combinedId ∉ m.unfinishedLoadedMatchesSet)
    let isFinished := decide (match'.getStatus = .finished)
    if isFinished && !wasFinished then
      return { m with
        unfinishedLoadedMatches := m.unfinishedLoadedMatches.eraseP fun e => decide (e.1 = combinedId)
        unfinishedLoadedMatchesSet := m.unfinishedLoadedMatchesSet.erase combinedId }
    else if !isFinished && wasFinished then
      return { m with
        unfinishedLoadedMatches :=
          Window.insertBy Prod.snd (combinedId, loadingTime) m.unfinishedLoadedMatches
        unfinishedLoadedMatchesSet := insert combinedId m.unfinishedLoadedMatchesSet }
    else return m

/-- `WebTatamiModel::changeMatches` -/
def changeMatches (categoryId : CategoryId) (matchIds : List MatchId) :
    Except Failure WebTatamiModel :=
  if m.resetting then .ok m
  else do
    let category ← t.categories.getCategory categoryId
    matchIds.foldlM (changeMatch category categoryId) m

/-- The loop of `WebTatamiModel::changeTatamis`. -/
def changeLocations (tatami : TatamiStore) :
    List BlockLocation → WebTatamiModel → Except Failure WebTatamiModel
  | [], m => .ok m
  | location :: locations, m =>
    if m.tatami.handle.id ≠ location.getTatamiHandle.id then changeLocations tatami locations m
    else
      let m := { m with changed := true }
      let handle := location.getConcurrentGroupHandle
      if handle.id ∈ m.loadedGroups then .ok { m with resetting := true }
      else if tatami.groups.contains handle then do
        let index ← tatami.groups.getIndex handle
        if index < m.loadedGroups.card then return { m with resetting := true }
        else changeLocations tatami locations m
      else changeLocations tatami locations m

/-- `WebTatamiModel::changeTatamis` -/
def changeTatamis (locations : List BlockLocation) : Except Failure WebTatamiModel :=
  if m.resetting then .ok m
  else do
    let tatami ← t.tatamis.tatamis.at' m.tatami.handle
    changeLocations tatami locations m

/-- Several calls of `changeTatamis`, one after the other. -/
def changeTatamisAll : List (List BlockLocation) → WebTatamiModel → Except Failure WebTatamiModel
  | [], m => .ok m
  | locations :: notifications, m => do
    let m ← m.changeTatamis t locations
    changeTatamisAll notifications m

/-- `WebTatamiModel::clearChanges` -/
def clearChanges : Except Failure WebTatamiModel := do
  check .tatamis !m.resetting
  return { m with insertedMatches := [], matchesChanged := false, changed := false }

/-- `WebTatamiModel::reset`, where it is called. -/
def reset : WebTatamiModel :=
  { m with
    loadedMatches := []
    loadedGroups := ∅
    unfinishedLoadedMatches := []
    unfinishedLoadedMatchesSet := ∅
    resetting := false
    matchesChanged := true }

/-- `mLoadedMatches[combinedId] = loadingTime` -/
def assign (l : List (CombinedId × ℕ)) (combinedId : CombinedId) (loadingTime : ℕ) :
    List (CombinedId × ℕ) :=
  if (l.lookup combinedId).isSome then
    l.map fun e => if e.1 = combinedId then (combinedId, loadingTime) else e
  else l ++ [(combinedId, loadingTime)]

/-- One turn of the inner loop of `WebTatamiModel::loadBlocks`. -/
def loadMatch (m : WebTatamiModel) (combinedId : CombinedId) : Except Failure WebTatamiModel := do
  let category ← t.categories.getCategory combinedId.categoryId
  let match' ← category.getMatch combinedId.matchId
  let loadingTime := m.loadedMatches.length
  let m := { m with loadedMatches := assign m.loadedMatches combinedId loadingTime }
  if match'.getStatus = .finished then return m
  else return { m with
    unfinishedLoadedMatches := m.unfinishedLoadedMatches ++ [(combinedId, loadingTime)]
    unfinishedLoadedMatchesSet := insert combinedId m.unfinishedLoadedMatchesSet }

/-- The loop of `WebTatamiModel::loadBlocks`. -/
def loadGroups (tatami : TatamiStore) : ℕ → WebTatamiModel → Except Failure WebTatamiModel
  | fuel, m =>
    if m.unfinishedLoadedMatches.length < displayCount then
      if m.loadedGroups.card = tatami.groups.size then .ok m
      else match fuel with
        | 0 => .error .unbounded
        | fuel + 1 => do
          let handle ← tatami.groups.getHandle m.loadedGroups.card
          let group ← tatami.groups.at' handle
          let m ← group.matchIds.foldlM (loadMatch t)
            { m with loadedGroups := insert handle.id m.loadedGroups }
          loadGroups tatami fuel m
    else .ok m

/-- `WebTatamiModel::loadBlocks`.  A turn that loads a group again and none of its matches is repeated for
ever, and every other turn loads a group or a match. -/
def loadBlocks : Except Failure WebTatamiModel := do
  let tatami ← t.tatamis.tatamis.at' m.tatami.handle
  loadGroups t tatami (tatami.groups.size + displayCount) m

/-- What the loop of `WebTatamiModel::flush` makes of `mMatches`, which matches it inserts and whether it
changes the list. -/
structure Shown where
  matchIds : List CombinedId
  inserted : List CombinedId
  changed : Bool
  deriving DecidableEq

/-- The loop of `WebTatamiModel::flush`, at the end of `mMatches`. -/
def copyMatches : ℕ → List (CombinedId × ℕ) → Shown
  | _, [] => ⟨[], [], false⟩
  | i, (combinedId, _) :: unfinished =>
    if i = displayCount then ⟨[], [], false⟩
    else
      let shown := copyMatches (i + 1) unfinished
      ⟨combinedId :: shown.matchIds, combinedId :: shown.inserted, true⟩

/-- The loop of `WebTatamiModel::flush`. -/
def showMatches : ℕ → List CombinedId → List (CombinedId × ℕ) → Shown
  | i, [], unfinished => copyMatches i unfinished
  | i, _ :: matchIds, [] => { showMatches i matchIds [] with changed := true }
  | i, current :: matchIds, (combinedId, loadingTime) :: unfinished =>
    if i ≥ displayCount then
      { showMatches i matchIds ((combinedId, loadingTime) :: unfinished) with changed := true }
    else if current = combinedId then
      let shown := showMatches (i + 1) matchIds unfinished
      { shown with matchIds := current :: shown.matchIds }
    else { showMatches i matchIds ((combinedId, loadingTime) :: unfinished) with changed := true }

/-- `WebTatamiModel::flush` -/
def flush : Except Failure WebTatamiModel := do
  let m ← loadBlocks t (if m.resetting then m.reset else m)
  let shown := showMatches 0 m.matchIds m.unfinishedLoadedMatches
  return { m with
    matchIds := shown.matchIds
    insertedMatches := m.insertedMatches ++ shown.inserted
    matchesChanged := m.matchesChanged || shown.changed }

/-- The constructor of `WebTatamiModel`. -/
def new (tatami : TatamiLocation) : Except Failure WebTatamiModel := flush t { tatami := tatami }

end WebTatamiModel

end JudoAssistant
