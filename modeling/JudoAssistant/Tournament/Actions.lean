import JudoAssistant.Tournament.CategoryActions

/-!
# The actions of the repository

The remaining actions of `src/core/actions`: those on the tatamis, on the preferences and on single
fields of the tournament, the categories and the players.  `Action` is the sum of all of them, and a
session is a tournament with the stack of the actions that are done.
-/

namespace JudoAssistant

open Effect (lift)
open Exec

/-! ### Hiding matches and setting the number of tatamis -/

/-- `SetCategoriesMatchesHiddenAction`.  The changed categories are a stack, the last one first. -/
structure SetCategoriesMatchesHiddenAction where
  categoryIds : List CategoryId
  hidden : Bool
  changedCategories : List CategoryId := []

namespace SetCategoriesMatchesHiddenAction

/-- `getCategoriesThatChange` -/
def getCategoriesThatChange (a : SetCategoriesMatchesHiddenAction) (t : TournamentStore) :
    List CategoryId :=
  a.categoryIds.filter fun id => match t.categories id with
    | none => false
    | some c => c.matchesHidden ≠ a.hidden

/-- Set the flag of categories and recompute the groups of their blocks. -/
def setHidden (hidden : Bool) (ids : List CategoryId) : Exec Unit := do
  let _ ← forEach (fun id => editCategory id fun c => .ok (c.setMatchesHidden hidden)) ids
  DrawCategoriesAction.recomputeGroups ids

/-- `SetCategoriesMatchesHiddenAction::redoImpl` -/
def redoImpl (a : SetCategoriesMatchesHiddenAction) : Exec SetCategoriesMatchesHiddenAction := do
  let ids ← read fun t => .ok (a.getCategoriesThatChange t)
  setHidden a.hidden ids
  return { a with changedCategories := ids.reverse }

/-- `SetCategoriesMatchesHiddenAction::undoImpl` -/
def undoImpl (a : SetCategoriesMatchesHiddenAction) : Exec SetCategoriesMatchesHiddenAction := do
  setHidden (!a.hidden) a.changedCategories
  return { a with changedCategories := [] }

end SetCategoriesMatchesHiddenAction

/-- `SetTatamiCountAction` -/
structure SetTatamiCountAction where
  locations : List TatamiLocation
  oldCount : ℕ := 0
  erasedTatamis : List (TatamiLocation × TatamiStore) := []

namespace SetTatamiCountAction

/-- The blocks of a tatami with their locations, in order. -/
def blocksOf (l : TatamiLocation) (tatami : TatamiStore) : Except Failure (List PlacedBlock) := do
  let concurrent ← tatami.groups.inOrder
  let blocks ← concurrent.mapM fun g => do
    let sequential ← g.2.groups.inOrder
    return sequential.flatMap fun h => h.2.blocks.zipIdx.map fun b =>
      (b.1, (⟨⟨⟨l, g.1⟩, h.1⟩, b.2⟩ : BlockLocation))
  return blocks.flatten

/-- The handles of the tatamis from an index on. -/
def handlesFrom (t : TatamiList) (first : ℕ) : List TatamiLocation :=
  (t.tatamis.ids.zipIdx.drop first).map fun p => ⟨⟨p.1, p.2⟩⟩

/-- `TatamiList::eraseTatami` -/
def eraseTatami (l : TatamiLocation) (t : TatamiList) : Except Failure TatamiList := do
  check .tatamis (t.tatamis.contains l.handle)
  return ⟨t.tatamis.erase l.handle⟩

/-- The erasure of a tatami with the blocks on it. -/
def eraseOne (l : TatamiLocation) : Exec (TatamiLocation × TatamiStore) := do
  let tatami ← read fun t => t.tatamis.tatamis.at' l.handle
  editTatamis fun _ => eraseTatami l
  let blocks ← lift (blocksOf l tatami)
  let _ ← forEach (fun b => editCategory b.1.1 fun c => .ok (c.setLocation b.1.2 none)) blocks
  return (l, tatami)

/-- `SetTatamiCountAction::redoImpl` -/
def redoImpl (a : SetTatamiCountAction) : Exec SetTatamiCountAction := do
  let t ← get
  let count := t.tatamis.tatamis.size
  if count < a.locations.length then do
    editTatamis fun _ tatamis => .ok ⟨(a.locations.drop count).foldl
      (fun p l => p.insert l.handle {}) tatamis.tatamis⟩
    return { a with oldCount := count }
  else do
    let erased ← forEach eraseOne (handlesFrom t.tatamis a.locations.length)
    return { a with oldCount := count, erasedTatamis := a.erasedTatamis ++ erased }

/-- Give the blocks of an erased tatami their locations again. -/
def relocate (e : TatamiLocation × TatamiStore) : Exec Unit := do
  let blocks ← lift (blocksOf e.1 e.2)
  let _ ← forEach (fun b => editCategory b.1.1 fun c => .ok (c.setLocation b.1.2 (some b.2))) blocks

/-- `SetTatamiCountAction::undoImpl` -/
def undoImpl (a : SetTatamiCountAction) : Exec SetTatamiCountAction := do
  let t ← get
  let count := t.tatamis.tatamis.size
  if a.oldCount < count then do
    let _ ← forEach (fun l => editTatamis fun _ => eraseTatami l) (handlesFrom t.tatamis a.oldCount)
    return a
  else if count < a.oldCount then do
    let _ ← forEach relocate a.erasedTatamis
    editTatamis fun _ tatamis => .ok ⟨a.erasedTatamis.foldl
      (fun p e => (p.insert e.1.handle {}).set e.1.handle e.2) tatamis.tatamis⟩
    return { a with erasedTatamis := [] }
  else return a

end SetTatamiCountAction

/-! ### Preferences -/

/-- Change the preferred draw systems. -/
def editPreferences (f : List DrawSystemPreference → Except Failure (List DrawSystemPreference)) :
    Exec Unit := do
  let t ← get
  let rows ← lift (f t.preferences.preferredDrawSystems)
  set { t with preferences := { t.preferences with preferredDrawSystems := rows } }

/-- Write a limit into a row. -/
def setLimit (limit i : ℕ) (rows : List DrawSystemPreference) :
    Except Failure (List DrawSystemPreference) :=
  match rows[i]? with
  | some row => .ok (rows.set i { row with playerLowerLimit := limit })
  | none => .error .outOfRange

/-- `AddDrawSystemPreferenceRow` -/
structure AddDrawSystemPreferenceRow where
  row : ℕ

namespace AddDrawSystemPreferenceRow

/-- `AddDrawSystemPreferenceRow::redoImpl`: the row below is copied, or the last one. -/
def redoImpl (a : AddDrawSystemPreferenceRow) : Exec AddDrawSystemPreferenceRow := do
  editPreferences fun rows =>
    if a.row = 0 ∨ rows.length < a.row then .ok rows
    else match rows[if a.row = rows.length then a.row - 1 else a.row]? with
      | some row => .ok (rows.insertIdx a.row row)
      | none => .error .outOfRange
  return a

/-- `AddDrawSystemPreferenceRow::undoImpl` -/
def undoImpl (a : AddDrawSystemPreferenceRow) : Exec AddDrawSystemPreferenceRow := do
  editPreferences fun rows =>
    if a.row = 0 ∨ rows.length < a.row then .ok rows
    else if a.row = rows.length then .error .outOfRange
    else .ok (rows.eraseIdx a.row)
  return a

end AddDrawSystemPreferenceRow

/-- `EraseDrawSystemPreferenceRow` -/
structure EraseDrawSystemPreferenceRow where
  row : ℕ
  prevValue : Option DrawSystemPreference := none

namespace EraseDrawSystemPreferenceRow

/-- `EraseDrawSystemPreferenceRow::redoImpl` -/
def redoImpl (a : EraseDrawSystemPreferenceRow) : Exec EraseDrawSystemPreferenceRow := do
  let t ← get
  let rows := t.preferences.preferredDrawSystems
  if a.row = 0 ∨ rows.length ≤ a.row then return a
  else do
    editPreferences fun rows => .ok (rows.eraseIdx a.row)
    return { a with prevValue := rows[a.row]? }

/-- `EraseDrawSystemPreferenceRow::undoImpl` -/
def undoImpl (a : EraseDrawSystemPreferenceRow) : Exec EraseDrawSystemPreferenceRow := do
  editPreferences fun rows =>
    if a.row = 0 ∨ rows.length < a.row then .ok rows
    else match a.prevValue with
      | some row => .ok (rows.insertIdx a.row row)
      | none => .error .indeterminate
  return a

end EraseDrawSystemPreferenceRow

/-- `ChangeDrawSystemPreferenceLimitAction` -/
structure ChangeDrawSystemPreferenceLimitAction where
  row : ℕ
  limit : ℕ
  prevAboveLimits : List ℕ := []
  prevBelowLimits : List ℕ := []

namespace ChangeDrawSystemPreferenceLimitAction

/-- Cap the limits of the rows above, from row `i - 1` up; the result are the new rows and the old
limits. -/
def capAbove (limit : ℕ) : ℕ → List DrawSystemPreference → List DrawSystemPreference × List ℕ
  | 0, rows => (rows, [])
  | i + 1, rows => match rows[i]? with
    | none => (rows, [])
    | some row =>
      if row.playerLowerLimit ≤ limit then (rows, [])
      else
        let p := capAbove limit i (rows.set i { row with playerLowerLimit := limit })
        (p.1, row.playerLowerLimit :: p.2)

/-- Cap the limits of `n` rows below, from row `i` down. -/
def capBelow (limit : ℕ) : ℕ → ℕ → List DrawSystemPreference → List DrawSystemPreference × List ℕ
  | 0, _, rows => (rows, [])
  | n + 1, i, rows => match rows[i]? with
    | none => (rows, [])
    | some row =>
      if limit ≤ row.playerLowerLimit then (rows, [])
      else
        let p := capBelow limit n (i + 1) (rows.set i { row with playerLowerLimit := limit })
        (p.1, row.playerLowerLimit :: p.2)

/-- `ChangeDrawSystemPreferenceLimitAction::redoImpl` -/
def redoImpl (a : ChangeDrawSystemPreferenceLimitAction) :
    Exec ChangeDrawSystemPreferenceLimitAction := do
  let t ← get
  let rows := t.preferences.preferredDrawSystems
  match rows[a.row]? with
  | none => return a
  | some row =>
    if a.row = 0 then return a
    else do
      let above := capAbove a.limit a.row (rows.set a.row { row with playerLowerLimit := a.limit })
      let below := capBelow a.limit (rows.length - (a.row + 1)) (a.row + 1) above.1
      editPreferences fun _ => .ok below.1
      return { a with
        prevAboveLimits := a.prevAboveLimits ++ above.2
        prevBelowLimits := a.prevBelowLimits ++ (row.playerLowerLimit :: below.2) }

/-- Write limits into the rows above, from row `i - 1` up. -/
def restoreAbove : ℕ → List ℕ → List DrawSystemPreference → Except Failure (List DrawSystemPreference)
  | _, [], rows => .ok rows
  | 0, _ :: _, _ => .error .outOfRange
  | i + 1, limit :: limits, rows => do
    let rows ← setLimit limit i rows
    restoreAbove i limits rows

/-- Write limits into the rows from row `i` down. -/
def restoreBelow : ℕ → List ℕ → List DrawSystemPreference → Except Failure (List DrawSystemPreference)
  | _, [], rows => .ok rows
  | i, limit :: limits, rows => do
    let rows ← setLimit limit i rows
    restoreBelow (i + 1) limits rows

/-- `ChangeDrawSystemPreferenceLimitAction::undoImpl`.  The undo fields are kept. -/
def undoImpl (a : ChangeDrawSystemPreferenceLimitAction) :
    Exec ChangeDrawSystemPreferenceLimitAction := do
  editPreferences fun rows =>
    if rows.length ≤ a.row ∨ a.row = 0 then .ok rows
    else do
      let rows ← restoreAbove a.row a.prevAboveLimits rows
      restoreBelow a.row a.prevBelowLimits rows
  return a

end ChangeDrawSystemPreferenceLimitAction

/-- `ChangeDrawSystemPreferenceIdentifierAction`.  The undo field `mPrevIdentifier` is written and
never read. -/
structure ChangeDrawSystemPreferenceIdentifierAction where
  row : ℕ
  identifier : DrawSystemIdentifier

namespace ChangeDrawSystemPreferenceIdentifierAction

/-- The write that `redoImpl` and `undoImpl` make. -/
def write (a : ChangeDrawSystemPreferenceIdentifierAction) : Exec Unit :=
  editPreferences fun rows => match rows[a.row]? with
    | none => .ok rows
    | some row => .ok (rows.set a.row { row with drawSystem := a.identifier })

/-- `ChangeDrawSystemPreferenceIdentifierAction::redoImpl` -/
def redoImpl (a : ChangeDrawSystemPreferenceIdentifierAction) :
    Exec ChangeDrawSystemPreferenceIdentifierAction := do
  a.write
  return a

/-- `ChangeDrawSystemPreferenceIdentifierAction::undoImpl` -/
def undoImpl (a : ChangeDrawSystemPreferenceIdentifierAction) :
    Exec ChangeDrawSystemPreferenceIdentifierAction := do
  a.write
  return a

end ChangeDrawSystemPreferenceIdentifierAction

/-! ### Single values -/

section

variable {α : Type}

/-- A value of the tournament that an action changes as a whole. -/
structure TournamentField (α : Type) where
  get : TournamentStore → α
  set : α → TournamentStore → TournamentStore

/-- An action that sets a value of the tournament. -/
structure ChangeValueAction (α : Type) where
  value : α
  oldValue : Option α := none

namespace ChangeValueAction

def redoImpl (field : TournamentField α) (a : ChangeValueAction α) : Exec (ChangeValueAction α) := do
  let t ← get
  set (field.set a.value t)
  return { a with oldValue := some (field.get t) }

def undoImpl (field : TournamentField α) (a : ChangeValueAction α) : Exec (ChangeValueAction α) :=
  match a.oldValue with
  | none => throw .indeterminate
  | some value => do
    modify (field.set value)
    return a

end ChangeValueAction

end

/-- The field of `ChangeTournamentNameAction`. -/
def nameField : TournamentField String where
  get t := t.name
  set v t := { t with name := v }

/-- The field of `ChangeTournamentWebNameAction`. -/
def webNameField : TournamentField String where
  get t := t.webName
  set v t := { t with webName := v }

/-- The field of `ChangeTournamentLocationAction`. -/
def locationField : TournamentField String where
  get t := t.location
  set v t := { t with location := v }

/-- The field of `ChangeTournamentDateAction`. -/
def dateField : TournamentField String where
  get t := t.date
  set v t := { t with date := v }

/-- The field of `ChangeScoreboardStylePreferenceAction`.  The action returns early where the write
would change nothing. -/
def scoreboardStyleField : TournamentField ScoreboardStylePreference where
  get t := t.preferences.scoreboardStyle
  set v t := { t with preferences := { t.preferences with scoreboardStyle := v } }

/-- The field of `ChangeMatchCardStylePreferenceAction`.  The action returns early where the write
would change nothing. -/
def matchCardStyleField : TournamentField MatchCardStylePreference where
  get t := t.preferences.matchCardStyle
  set v t := { t with preferences := { t.preferences with matchCardStyle := v } }

/-- `ChangeCategoriesNameAction`.  The undo fields `mChangedCategories` and `mOldValues` are one
list. -/
structure ChangeCategoriesNameAction where
  categoryIds : List CategoryId
  value : String
  changedCategories : List (CategoryId × String) := []

namespace ChangeCategoriesNameAction

/-- The loop of `redoImpl`. -/
def changeName (value : String) : List CategoryId → Exec (List (CategoryId × String))
  | [] => pure []
  | id :: ids => do
    let t ← get
    match t.categories id with
    | none => changeName value ids
    | some c =>
      if c.name = value then changeName value ids
      else do
        editCategory id fun c => .ok (c.setName value)
        let changed ← changeName value ids
        return (id, c.name) :: changed

/-- `ChangeCategoriesNameAction::redoImpl` -/
def redoImpl (a : ChangeCategoriesNameAction) : Exec ChangeCategoriesNameAction := do
  let changed ← changeName a.value a.categoryIds
  return { a with changedCategories := a.changedCategories ++ changed }

/-- `ChangeCategoriesNameAction::undoImpl` -/
def undoImpl (a : ChangeCategoriesNameAction) : Exec ChangeCategoriesNameAction := do
  let _ ← forEach (fun p => editCategory p.1 fun c => .ok (c.setName p.2)) a.changedCategories
  return { a with changedCategories := [] }

end ChangeCategoriesNameAction

/-- The actions `ChangePlayers…Action` that only change a field.  The undo fields `mChangedPlayers`
and `mOldValues` are one list. -/
structure ChangePlayersAction (α : Type) where
  playerIds : List PlayerId
  value : α
  changedPlayers : List (PlayerId × α) := []

namespace ChangePlayersAction

variable {α : Type} [DecidableEq α]

def redoImpl (field : PlayerField α) (a : ChangePlayersAction α) : Exec (ChangePlayersAction α) := do
  let changed ← changeField field a.value a.playerIds
  return { a with changedPlayers := a.changedPlayers ++ changed }

omit [DecidableEq α] in
def undoImpl (field : PlayerField α) (a : ChangePlayersAction α) : Exec (ChangePlayersAction α) := do
  restoreField field a.changedPlayers
  return { a with changedPlayers := [] }

end ChangePlayersAction

/-- The field of `ChangePlayersFirstNameAction`. -/
def firstNameField : PlayerField String where
  get f := f.firstName
  set v f := { f with firstName := v }

/-- The field of `ChangePlayersLastNameAction`. -/
def lastNameField : PlayerField String where
  get f := f.lastName
  set v f := { f with lastName := v }

/-- The field of `ChangePlayersClubAction`. -/
def clubField : PlayerField String where
  get f := f.club
  set v f := { f with club := v }

/-- The field of `ChangePlayersAgeAction`. -/
def ageField : PlayerField (Option ℤ) where
  get f := f.age
  set v f := { f with age := v }

/-- The field of `ChangePlayersRankAction`. -/
def rankField : PlayerField (Option PlayerRank) where
  get f := f.rank
  set v f := { f with rank := v }

/-- The field of `ChangePlayersCountryAction`. -/
def countryField : PlayerField (Option PlayerCountry) where
  get f := f.country
  set v f := { f with country := v }

/-- The field of `ChangePlayersSexAction`. -/
def sexField : PlayerField (Option PlayerSex) where
  get f := f.sex
  set v f := { f with sex := v }

/-! ### All actions -/

/-- The actions of the repository.  `AddMatchAction` and `SetMatchPlayerAction` are not among them:
only draw systems create them, and they run inside other actions. -/
inductive Action where
  | addCategory (a : AddCategoryAction)
  | addCategoryWithPlayers (a : AddCategoryWithPlayersAction)
  | addDrawSystemPreferenceRow (a : AddDrawSystemPreferenceRow)
  | addPlayers (a : AddPlayersAction)
  | addPlayersToCategory (a : AddPlayersToCategoryAction)
  | addPlayersWithCategories (a : AddPlayersWithCategoriesAction)
  | autoAddCategories (a : AutoAddCategoriesAction)
  | changeCategoriesDrawSystem (a : ChangeCategoriesDrawSystemAction)
  | changeCategoriesName (a : ChangeCategoriesNameAction)
  | changeCategoriesRuleset (a : ChangeCategoriesRulesetAction)
  | changeDrawSystemPreferenceIdentifier (a : ChangeDrawSystemPreferenceIdentifierAction)
  | changeDrawSystemPreferenceLimit (a : ChangeDrawSystemPreferenceLimitAction)
  | changeMatchCardStylePreference (a : ChangeValueAction MatchCardStylePreference)
  | changePlayersAge (a : ChangePlayersAction (Option ℤ))
  | changePlayersBlueJudogiHint (a : ChangePlayersBlueJudogiHintAction)
  | changePlayersClub (a : ChangePlayersAction String)
  | changePlayersCountry (a : ChangePlayersAction (Option PlayerCountry))
  | changePlayersFirstName (a : ChangePlayersAction String)
  | changePlayersLastName (a : ChangePlayersAction String)
  | changePlayersRank (a : ChangePlayersAction (Option PlayerRank))
  | changePlayersSex (a : ChangePlayersAction (Option PlayerSex))
  | changePlayersWeight (a : ChangePlayersWeightAction)
  | changeScoreboardStylePreference (a : ChangeValueAction ScoreboardStylePreference)
  | changeTournamentDate (a : ChangeValueAction String)
  | changeTournamentLocation (a : ChangeValueAction String)
  | changeTournamentName (a : ChangeValueAction String)
  | changeTournamentWebName (a : ChangeValueAction String)
  | drawCategories (a : DrawCategoriesAction)
  | eraseCategories (a : EraseCategoriesAction)
  | eraseDrawSystemPreferenceRow (a : EraseDrawSystemPreferenceRow)
  | erasePlayers (a : ErasePlayersAction)
  | erasePlayersFromAllCategories (a : ErasePlayersFromAllCategoriesAction)
  | erasePlayersFromCategory (a : ErasePlayersFromCategoryAction)
  | matchEvent (a : MatchEventAction)
  | resetMatches (a : ResetMatchesAction)
  | setCategoriesMatchesHidden (a : SetCategoriesMatchesHiddenAction)
  | setTatamiCount (a : SetTatamiCountAction)
  | setTatamiLocation (a : SetTatamiLocationAction)

namespace Action

def redoImpl : Action → Exec Action
  | addCategory a => addCategory <$> a.redoImpl
  | addCategoryWithPlayers a => addCategoryWithPlayers <$> a.redoImpl
  | addDrawSystemPreferenceRow a => addDrawSystemPreferenceRow <$> a.redoImpl
  | addPlayers a => addPlayers <$> a.redoImpl
  | addPlayersToCategory a => addPlayersToCategory <$> a.redoImpl
  | addPlayersWithCategories a => addPlayersWithCategories <$> a.redoImpl
  | autoAddCategories a => autoAddCategories <$> a.redoImpl
  | changeCategoriesDrawSystem a => changeCategoriesDrawSystem <$> a.redoImpl
  | changeCategoriesName a => changeCategoriesName <$> a.redoImpl
  | changeCategoriesRuleset a => changeCategoriesRuleset <$> a.redoImpl
  | changeDrawSystemPreferenceIdentifier a => changeDrawSystemPreferenceIdentifier <$> a.redoImpl
  | changeDrawSystemPreferenceLimit a => changeDrawSystemPreferenceLimit <$> a.redoImpl
  | changeMatchCardStylePreference a =>
    changeMatchCardStylePreference <$> a.redoImpl matchCardStyleField
  | changePlayersAge a => changePlayersAge <$> a.redoImpl ageField
  | changePlayersBlueJudogiHint a => changePlayersBlueJudogiHint <$> a.redoImpl
  | changePlayersClub a => changePlayersClub <$> a.redoImpl clubField
  | changePlayersCountry a => changePlayersCountry <$> a.redoImpl countryField
  | changePlayersFirstName a => changePlayersFirstName <$> a.redoImpl firstNameField
  | changePlayersLastName a => changePlayersLastName <$> a.redoImpl lastNameField
  | changePlayersRank a => changePlayersRank <$> a.redoImpl rankField
  | changePlayersSex a => changePlayersSex <$> a.redoImpl sexField
  | changePlayersWeight a => changePlayersWeight <$> a.redoImpl
  | changeScoreboardStylePreference a =>
    changeScoreboardStylePreference <$> a.redoImpl scoreboardStyleField
  | changeTournamentDate a => changeTournamentDate <$> a.redoImpl dateField
  | changeTournamentLocation a => changeTournamentLocation <$> a.redoImpl locationField
  | changeTournamentName a => changeTournamentName <$> a.redoImpl nameField
  | changeTournamentWebName a => changeTournamentWebName <$> a.redoImpl webNameField
  | drawCategories a => drawCategories <$> a.redoImpl
  | eraseCategories a => eraseCategories <$> a.redoImpl
  | eraseDrawSystemPreferenceRow a => eraseDrawSystemPreferenceRow <$> a.redoImpl
  | erasePlayers a => erasePlayers <$> a.redoImpl
  | erasePlayersFromAllCategories a => erasePlayersFromAllCategories <$> a.redoImpl
  | erasePlayersFromCategory a => erasePlayersFromCategory <$> a.redoImpl
  | matchEvent a => matchEvent <$> a.redoImpl
  | resetMatches a => resetMatches <$> a.redoImpl
  | setCategoriesMatchesHidden a => setCategoriesMatchesHidden <$> a.redoImpl
  | setTatamiCount a => setTatamiCount <$> a.redoImpl
  | setTatamiLocation a => setTatamiLocation <$> a.redoImpl

def undoImpl : Action → Exec Action
  | addCategory a => addCategory <$> a.undoImpl
  | addCategoryWithPlayers a => addCategoryWithPlayers <$> a.undoImpl
  | addDrawSystemPreferenceRow a => addDrawSystemPreferenceRow <$> a.undoImpl
  | addPlayers a => addPlayers <$> a.undoImpl
  | addPlayersToCategory a => addPlayersToCategory <$> a.undoImpl
  | addPlayersWithCategories a => addPlayersWithCategories <$> a.undoImpl
  | autoAddCategories a => autoAddCategories <$> a.undoImpl
  | changeCategoriesDrawSystem a => changeCategoriesDrawSystem <$> a.undoImpl
  | changeCategoriesName a => changeCategoriesName <$> a.undoImpl
  | changeCategoriesRuleset a => changeCategoriesRuleset <$> a.undoImpl
  | changeDrawSystemPreferenceIdentifier a => changeDrawSystemPreferenceIdentifier <$> a.undoImpl
  | changeDrawSystemPreferenceLimit a => changeDrawSystemPreferenceLimit <$> a.undoImpl
  | changeMatchCardStylePreference a =>
    changeMatchCardStylePreference <$> a.undoImpl matchCardStyleField
  | changePlayersAge a => changePlayersAge <$> a.undoImpl ageField
  | changePlayersBlueJudogiHint a => changePlayersBlueJudogiHint <$> a.undoImpl
  | changePlayersClub a => changePlayersClub <$> a.undoImpl clubField
  | changePlayersCountry a => changePlayersCountry <$> a.undoImpl countryField
  | changePlayersFirstName a => changePlayersFirstName <$> a.undoImpl firstNameField
  | changePlayersLastName a => changePlayersLastName <$> a.undoImpl lastNameField
  | changePlayersRank a => changePlayersRank <$> a.undoImpl rankField
  | changePlayersSex a => changePlayersSex <$> a.undoImpl sexField
  | changePlayersWeight a => changePlayersWeight <$> a.undoImpl
  | changeScoreboardStylePreference a =>
    changeScoreboardStylePreference <$> a.undoImpl scoreboardStyleField
  | changeTournamentDate a => changeTournamentDate <$> a.undoImpl dateField
  | changeTournamentLocation a => changeTournamentLocation <$> a.undoImpl locationField
  | changeTournamentName a => changeTournamentName <$> a.undoImpl nameField
  | changeTournamentWebName a => changeTournamentWebName <$> a.undoImpl webNameField
  | drawCategories a => drawCategories <$> a.undoImpl
  | eraseCategories a => eraseCategories <$> a.undoImpl
  | eraseDrawSystemPreferenceRow a => eraseDrawSystemPreferenceRow <$> a.undoImpl
  | erasePlayers a => erasePlayers <$> a.undoImpl
  | erasePlayersFromAllCategories a => erasePlayersFromAllCategories <$> a.undoImpl
  | erasePlayersFromCategory a => erasePlayersFromCategory <$> a.undoImpl
  | matchEvent a => matchEvent <$> a.undoImpl
  | resetMatches a => resetMatches <$> a.undoImpl
  | setCategoriesMatchesHidden a => setCategoriesMatchesHidden <$> a.undoImpl
  | setTatamiCount a => setTatamiCount <$> a.undoImpl
  | setTatamiLocation a => setTatamiLocation <$> a.undoImpl

end Action

end JudoAssistant
