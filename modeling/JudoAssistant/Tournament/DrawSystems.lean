import JudoAssistant.Tournament.Algorithm
import JudoAssistant.Tournament.Basic

/-!
# Draw systems

A draw system (`src/core/draw_systems`) creates the matches of a category when it is drawn
(`initCategory`), ranks the players (`getResults`) and, after a result has changed, returns the
actions that bring the later matches of the category up to date (`updateCategory`).
-/

namespace JudoAssistant

/-- `AddMatchAction` -/
structure AddMatchAction where
  combinedId : CombinedId
  type : MatchType
  title : String
  bye : Bool
  whitePlayerId : Option PlayerId
  bluePlayerId : Option PlayerId
  deriving DecidableEq, Repr

/-- `SetMatchPlayerAction` -/
structure SetMatchPlayerAction where
  combinedId : CombinedId
  playerIndex : PlayerIndex
  playerId : Option PlayerId
  /-- An undo field. -/
  oldPlayerId : Option PlayerId := none
  deriving DecidableEq, Repr

/-- The undo fields of `MatchEventAction`.  The constructor from an id leaves the flag `mDidSave`
unwritten; an action that was read from the network starts with a clear flag; `save` sets the flag
and nothing clears it. -/
inductive Saved where
  | unwritten
  | clear
  | state (prevState : MatchState) (prevEventSize : ℕ)
  deriving DecidableEq, Repr

/-- The actions that `updateCategory` returns, with the actions that they run in turn as a stack. -/
inductive DrawAction where
  | setMatchPlayer (a : SetMatchPlayerAction)
  | setMatchBye (combinedId : CombinedId) (bye : Bool) (saved : Saved)
      (drawActions : List DrawAction)

/-- `MatchId::generate`, on the outputs of the generator. -/
def generateMatchId (c : CategoryStore) : ℕ → Mt19937 → Except Failure (MatchId × Mt19937)
  | 0, _ => .error .unbounded
  | n + 1, e =>
    let (x, e) := e.next
    if c.containsMatch ⟨x⟩ then generateMatchId c n e else .ok (⟨x⟩, e)

/-- `DrawSystem::ResultList`: the players with their ranks. -/
abbrev ResultList := List (PlayerId × Option ℕ)

/-! ### Pools -/

namespace PoolDrawSystem

/-- The loop that swaps a carried value with one element after the other. -/
def carry (x : PlayerId) : List PlayerId → List PlayerId
  | [] => []
  | y :: ys => x :: carry y ys

/-- The permutation of the ids after a round: the first one stays, the others move on by one. -/
def rotate : List PlayerId → List PlayerId
  | [] => []
  | x :: xs => x :: match xs.getLast? with
    | none => []
    | some last => carry last xs

/-- One round: the first player meets the last one, the second the last but one, and so on. -/
def evenRound (ids : List PlayerId) : List (PlayerId × PlayerId) :=
  (ids.zip ids.reverse).take (ids.length / 2)

def evenRounds : ℕ → List PlayerId → List (PlayerId × PlayerId)
  | 0, _ => []
  | n + 1, ids => evenRound ids ++ evenRounds n (rotate ids)

/-- `createMatchOrderForEvenNumber` -/
def createMatchOrderForEvenNumber (playerIds : List PlayerId) :
    Except Failure (List (PlayerId × PlayerId)) := do
  check .drawSystem (playerIds.length % 2 = 0)
  return evenRounds (playerIds.length - 1) playerIds

/-- The slots of the players in a round, for `2 * k + 1` players. -/
def matchSlots (k round : ℕ) : List (ℕ × ℕ) :=
  let last := ((round / 2) % (k + 1), 2 * k)
  let odd := (List.range k).map fun j =>
    let i := j + 1
    ((if round ≤ 2 * i then i else i + (round - 2 * i)) % (k + 1), 2 * i - 2)
  let even := (List.range k).map fun j =>
    let i := j + 1
    ((i + min round (2 * k + 3 - 2 * i) - 1) % (k + 1), 2 * i - 1)
  last :: (odd ++ even)

/-- The comparison of pairs. -/
def slotLt (a b : ℕ × ℕ) : Bool := a.1 < b.1 || (a.1 == b.1 && decide (a.2 < b.2))

/-- The players of the slots after the first one, two at a time. -/
def pairSlots (playerIds : List PlayerId) : List (ℕ × ℕ) → Except Failure (List (PlayerId × PlayerId))
  | a :: b :: rest => match playerIds[a.2]?, playerIds[b.2]? with
    | some p, some q => do
      let pairs ← pairSlots playerIds rest
      return (p, q) :: pairs
    | _, _ => .error .outOfRange
  | [_] => .error .outOfRange
  | [] => .ok []

/-- `createMatchOrderForOddNumber` -/
def createMatchOrderForOddNumber (playerIds : List PlayerId) :
    Except Failure (List (PlayerId × PlayerId)) := do
  check .drawSystem (playerIds.length % 2 = 1)
  let rounds ← (List.range playerIds.length).mapM fun round =>
    pairSlots playerIds (stdSort slotLt (matchSlots (playerIds.length / 2) (round + 1))).tail
  return rounds.flatten

variable (t : TournamentStore) (c : CategoryStore)

/-- `PoolDrawSystem::createMatch` -/
def createMatch (composited : Bool) (first second : PlayerId) (e : Mt19937) :
    Except Failure (AddMatchAction × Mt19937) := do
  let (matchId, e) ← generateMatchId c Mt19937.period e
  let player ← t.getPlayer first
  let isFirstPlayerBlue := player.fields.blueJudogiHint
  return ({
    combinedId := ⟨c.id, matchId⟩
    type := .elimination
    title := if composited then "Elimination" else "Pool"
    bye := false
    whitePlayerId := some (if isFirstPlayerBlue then second else first)
    bluePlayerId := some (if isFirstPlayerBlue then first else second) }, e)

/-- The loop that creates the matches of the order. -/
def createMatches (composited : Bool) :
    List (PlayerId × PlayerId) → Mt19937 → Except Failure (List AddMatchAction)
  | [], _ => .ok []
  | (first, second) :: pairs, e => do
    let (action, e) ← createMatch t c composited first second e
    let actions ← createMatches composited pairs e
    return action :: actions

/-- `PoolDrawSystem::initCategory` -/
def initCategory (d : PoolDrawSystem) (playerIds : List PlayerId) (seed : ℕ) :
    Except Failure (PoolDrawSystem × List AddMatchAction) :=
  if playerIds.length ≤ 1 then .ok ({ d with players := playerIds, matchIds := [] }, [])
  else do
    let players := (shuffle playerIds (Mt19937.init seed)).1
    let matchOrder ← if players.length % 2 = 0 then createMatchOrderForEvenNumber players
      else createMatchOrderForOddNumber players
    let actions ← createMatches t c d.composited matchOrder (Mt19937.init seed)
    return ({ d with players := players, matchIds := actions.map (·.combinedId.matchId) }, actions)

/-- The winner of a finished match.  The rulesets agree on him. -/
def winner (m : MatchStore) : Except Failure PlayerId := do
  let index ← RulesetIdentifier.getWinner m
  let index ← optionalValue index
  optionalValue (m.getPlayer index)

/-- The number of won matches by player, over the matches between the players of a list. -/
def mutualWins (players : List PlayerId) : List MatchId → Except Failure (PlayerId → ℕ)
  | [] => .ok fun _ => 0
  | id :: ids => do
    let m ← c.getMatch id
    let white ← optionalValue (m.getPlayer .white)
    let blue ← optionalValue (m.getPlayer .blue)
    if white ∈ players ∧ blue ∈ players then do
      let player ← winner m
      let wins ← mutualWins players ids
      return Function.update wins player (wins player + 1)
    else mutualWins players ids

/-- The ranks of rows that are sorted by a number: the first row has the rank `rank`, and a row with
the number of the row before shares its rank. -/
def rankBy (wins : PlayerId → ℕ) : ℕ → PlayerId → ℕ → List PlayerId → ResultList
  | _, _, _, [] => []
  | index, previous, rank, player :: players =>
    let rank := if wins player = wins previous then rank else index
    (player, some rank) :: rankBy wins (index + 1) player rank players

variable (d : PoolDrawSystem)

/-- `orderByWinsWithinGroup`, for the rows from `start` on that are given. -/
def orderByWinsWithinGroup (start : ℕ) (rows : ResultList) : Except Failure ResultList :=
  if rows.length < 2 then .ok rows
  else do
    let wins ← mutualWins c (rows.map (·.1)) d.matchIds
    match stdSort (fun a b => decide (wins b < wins a)) (rows.map (·.1)) with
    | [] => return []
    | first :: players =>
      return (first, some (start + 1)) :: rankBy wins (start + 2) first (start + 1) players

/-- The weights of the players, when all of them have one. -/
def playerWeights : List PlayerId → Except Failure (Option (PlayerId → ℚ))
  | [] => .ok (some fun _ => 0)
  | id :: ids => do
    let player ← t.getPlayer id
    match player.fields.weight with
    | none => return none
    | some weight => do
      let weights ← playerWeights ids
      return weights.map fun w => Function.update w id weight

/-- What the wins of a player add up to: the time, the ippons and the other wins. -/
structure WinTotals where
  winDuration : ℤ := 0
  ippons : ℕ := 0
  wazaris : ℕ := 0
  deriving DecidableEq, Repr

def winTotals : List MatchId → Except Failure (PlayerId → WinTotals)
  | [] => .ok fun _ => {}
  | id :: ids => do
    let m ← c.getMatch id
    let index ← RulesetIdentifier.getWinner m
    let index ← optionalValue index
    let player ← optionalValue (m.getPlayer index)
    let totals ← winTotals ids
    let old := totals player
    return Function.update totals player {
      winDuration := old.winDuration + m.state.duration
      ippons := if (m.getScore index).ippon then old.ippons + 1 else old.ippons
      wazaris := if (m.getScore index).ippon then old.wazaris else old.wazaris + 1 }

/-- The comparison of `orderByRemainingCriteria`. -/
def remainingLt (totals : PlayerId → WinTotals) (weights : Option (PlayerId → ℚ))
    (a b : PlayerId) : Bool :=
  if (totals a).ippons ≠ (totals b).ippons then (totals b).ippons < (totals a).ippons
  else if (totals a).wazaris ≠ (totals b).wazaris then (totals b).wazaris < (totals a).wazaris
  else if (totals a).winDuration ≠ (totals b).winDuration then
    (totals a).winDuration < (totals b).winDuration
  else match weights with
    | none => a.value < b.value
    | some w =>
      -- `std::fabs(w a - w b) < 0.005`
      if w a - w b < 5 / 1000 ∧ w b - w a < 5 / 1000 then a.value < b.value
      else w a < w b

/-- `orderByRemainingCriteria`, for the rows from `start` on that are given. -/
def orderByRemainingCriteria (start : ℕ) (rows : ResultList) : Except Failure ResultList :=
  if rows.length < 2 then .ok rows
  else do
    let weights ← playerWeights t (rows.map (·.1))
    let totals ← winTotals c d.matchIds
    let players := stdSort (remainingLt totals weights) (rows.map (·.1))
    return players.zipIdx.map fun (player, i) => (player, some (start + i + 1))

/-- The loop over the tied groups: `group` holds the rows from `start` on that share a rank. -/
def orderTies (order : ℕ → ResultList → Except Failure ResultList) :
    ℕ → ResultList → ResultList → Except Failure ResultList
  | start, group, [] => order start group
  | start, group, row :: rows =>
    if group.getLast?.map (·.2) = some row.2 then orderTies order start (group ++ [row]) rows
    else do
      let ordered ← order start group
      let rest ← orderTies order (start + group.length) [row] rows
      return ordered ++ rest

/-- `PoolDrawSystem::getResults` -/
def getResults : Except Failure ResultList :=
  if d.players.length ≤ 1 then .ok []
  else if !(c.getStatus .elimination).isFinished then .ok []
  else do
    let rows := d.players.zipIdx.map fun (player, i) => (player, some (i + 1))
    let rows ← orderByWinsWithinGroup c d 0 rows
    let rows ← orderTies (orderByWinsWithinGroup c d) 0 (rows.take 1) (rows.drop 1)
    orderTies (orderByRemainingCriteria t c d) 0 (rows.take 1) (rows.drop 1)

end PoolDrawSystem

/-! ### Double pools -/

/-- `MergeQueueElement` -/
structure MergeQueueElement where
  index : ℕ
  matchCount : ℕ
  totalMatchCount : ℕ
  deriving DecidableEq, Repr

/-- `MergeQueueElement::operator<` -/
def MergeQueueElement.lt (a b : MergeQueueElement) : Bool :=
  if a.matchCount * b.totalMatchCount ≠ b.matchCount * a.totalMatchCount then
    decide (b.matchCount * a.totalMatchCount < a.matchCount * b.totalMatchCount)
  else if a.totalMatchCount < b.totalMatchCount then
    decide (a.totalMatchCount < b.totalMatchCount)
  else decide (a.index < b.index)

/-- `std::priority_queue::push` on a queue of at most one element, the top first. -/
def MergeQueueElement.push (e : MergeQueueElement) : List MergeQueueElement → List MergeQueueElement
  | [] => [e]
  | x :: queue => if x.lt e then e :: x :: queue else x :: e :: queue

namespace DoublePoolDrawSystem

/-- The loop that merges the matches of the two pools. -/
def mergeActions : ℕ → List MergeQueueElement → List AddMatchAction → List AddMatchAction →
    Except Failure (List AddMatchAction)
  | _, [], _, _ => .ok []
  | 0, _ :: _, _, _ => .error .unbounded
  | fuel + 1, e :: queue, first, second =>
    let e' := { e with matchCount := e.matchCount + 1 }
    let queue := if e'.matchCount = e'.totalMatchCount then queue else e'.push queue
    if e.index = 0 then match first with
      | [] => .error .outOfRange
      | action :: first => do
        let actions ← mergeActions fuel queue first second
        return action :: actions
    else match second with
      | [] => .error .outOfRange
      | action :: second => do
        let actions ← mergeActions fuel queue first second
        return action :: actions

variable (t : TournamentStore) (c : CategoryStore)

/-- A semifinal or the final as it is created, without players. -/
def finalMatch (title : String) (matchId : MatchId) : AddMatchAction where
  combinedId := ⟨c.id, matchId⟩
  type := .final
  title := title
  bye := false
  whitePlayerId := none
  bluePlayerId := none

/-- `DoublePoolDrawSystem::initCategory` -/
def initCategory (d : DoublePoolDrawSystem) (playerIds : List PlayerId) (seed : ℕ) :
    Except Failure (DoublePoolDrawSystem × List AddMatchAction) := do
  check .drawSystem (playerIds.length = c.players.card)
  if playerIds.length < 4 then
    return ({ d with matchIds := [], players := playerIds }, [])
  else do
    let (players, e) := shuffle playerIds (Mt19937.init seed)
    let firstSeed := e.next
    let secondSeed := firstSeed.2.next
    let (firstPool, firstActions) ← PoolDrawSystem.initCategory t c { composited := true }
      (players.take (players.length / 2)) firstSeed.1
    let (secondPool, secondActions) ← PoolDrawSystem.initCategory t c { composited := true }
      (players.drop (players.length / 2)) secondSeed.1
    let merged ← mergeActions (firstActions.length + secondActions.length + 2)
      (MergeQueueElement.push ⟨1, 0, secondActions.length⟩
        (MergeQueueElement.push ⟨0, 0, firstActions.length⟩ []))
      firstActions secondActions
    let (firstId, g) ← generateMatchId c Mt19937.period (Mt19937.init seed)
    let (secondId, g) ← generateMatchId c Mt19937.period g
    let (finalId, _) ← generateMatchId c Mt19937.period g
    let actions := merged ++ [finalMatch c "Semi-Final" firstId, finalMatch c "Semi-Final" secondId,
      finalMatch c "Final" finalId]
    return ({
      matchIds := actions.map (·.combinedId.matchId)
      players := players
      firstPool := some firstPool
      secondPool := some secondPool }, actions)

/-- The match at a position from the end of `mMatches`. -/
def matchFromEnd (d : DoublePoolDrawSystem) (n : ℕ) : Except Failure MatchStore :=
  if d.matchIds.length < n then .error .outOfRange
  else match d.matchIds[d.matchIds.length - n]? with
    | none => .error .outOfRange
    | some id => c.getMatch id

/-- The action that sets a player of a match, if he differs from the one that is there. -/
def assign (m : MatchStore) (i : PlayerIndex) (player : Option PlayerId) : List DrawAction :=
  if m.getPlayer i = player then []
  else [.setMatchPlayer { combinedId := m.combinedId, playerIndex := i, playerId := player }]

/-- The actions that set the two players of a match, white first. -/
def assignBoth (m : MatchStore) (players : Option PlayerId × Option PlayerId) : List DrawAction :=
  assign m .white players.1 ++ assign m .blue players.2

/-- A pair of opponents, swapped if the first one is to wear the blue judogi. -/
def opponents (first second : PlayerId) : Except Failure (Option PlayerId × Option PlayerId) := do
  let player ← t.getPlayer first
  return if player.fields.blueJudogiHint then (some second, some first) else (some first, some second)

/-- The player in a row of the results of a pool. -/
def rowPlayer (results : ResultList) (i : ℕ) : Except Failure PlayerId :=
  match results[i]? with
  | some row => .ok row.1
  | none => .error .outOfRange

/-- `getResults` through the pointer to a pool. -/
def poolResults (pool : Option PoolDrawSystem) : Except Failure ResultList :=
  match pool with
  | some pool => PoolDrawSystem.getResults t c pool
  | none => .error .outOfRange

/-- `DoublePoolDrawSystem::updateCategory` -/
def updateCategory (d : DoublePoolDrawSystem) : Except Failure (List DrawAction) :=
  if d.players.length < 4 then .ok []
  else do
    let firstSemiFinal ← matchFromEnd c d 3
    let secondSemiFinal ← matchFromEnd c d 2
    let finals ← matchFromEnd c d 1
    if !(c.getStatus .elimination).isFinished then
      return assignBoth firstSemiFinal (none, none) ++ assignBoth secondSemiFinal (none, none) ++
        assignBoth finals (none, none)
    else do
      let firstPoolResults ← poolResults t c d.firstPool
      let secondPoolResults ← poolResults t c d.secondPool
      let firstWinner ← rowPlayer firstPoolResults 0
      let secondRunnerUp ← rowPlayer secondPoolResults 1
      let firstPlayers ← opponents t firstWinner secondRunnerUp
      let secondWinner ← rowPlayer secondPoolResults 0
      let firstRunnerUp ← rowPlayer firstPoolResults 1
      let secondPlayers ← opponents t secondWinner firstRunnerUp
      let semiFinals := assignBoth firstSemiFinal firstPlayers ++
        assignBoth secondSemiFinal secondPlayers
      if firstSemiFinal.getStatus = .finished ∧ secondSemiFinal.getStatus = .finished then do
        let white ← PoolDrawSystem.winner firstSemiFinal
        let blue ← PoolDrawSystem.winner secondSemiFinal
        let players ← opponents t white blue
        return semiFinals ++ assignBoth finals players
      else return semiFinals ++ assignBoth finals (none, none)

end DoublePoolDrawSystem

/-! ### Best of three -/

namespace BestOfThreeDrawSystem

variable (t : TournamentStore) (c : CategoryStore)

/-- `BestOfThreeDrawSystem::initCategory` -/
def initCategory (playerIds : List PlayerId) (seed : ℕ) :
    Except Failure (BestOfThreeDrawSystem × List AddMatchAction) := do
  check .drawSystem (playerIds.length = c.players.card)
  match playerIds with
  | [first, second] =>
    let (white, blue) := if (Mt19937.init seed).next.1 % 2 = 0 then (first, second)
      else (second, first)
    let player ← t.getPlayer white
    let (white, blue) := if player.fields.blueJudogiHint then (blue, white) else (white, blue)
    let (firstId, g) ← generateMatchId c Mt19937.period (Mt19937.init seed)
    let (secondId, g) ← generateMatchId c Mt19937.period g
    let (thirdId, _) ← generateMatchId c Mt19937.period g
    let ids := [firstId, secondId, thirdId]
    return ({ matchIds := ids, players := playerIds }, ids.map fun id => {
      combinedId := ⟨c.id, id⟩
      type := .elimination
      title := "Best-of-Three"
      bye := false
      whitePlayerId := some white
      bluePlayerId := some blue })
  | _ => return ({ matchIds := [], players := playerIds }, [])

/-- The bye status of the third match, given the first two. -/
def wantsBye (first second : MatchStore) : Except Failure Bool :=
  if first.getStatus = .finished ∧ second.getStatus = .finished then do
    let firstWinner ← RulesetIdentifier.getWinner first
    let secondWinner ← RulesetIdentifier.getWinner second
    return firstWinner.isSome && secondWinner.isSome && firstWinner == secondWinner
  else .ok false

/-- `BestOfThreeDrawSystem::updateCategory` -/
def updateCategory (d : BestOfThreeDrawSystem) : Except Failure (List DrawAction) :=
  if d.players.length ≠ 2 then .ok []
  else match d.matchIds with
    | firstId :: secondId :: thirdId :: _ => do
      let first ← c.getMatch firstId
      let second ← c.getMatch secondId
      let bye ← wantsBye first second
      let third ← c.getMatch thirdId
      return if third.bye = bye then [] else [.setMatchBye ⟨c.id, thirdId⟩ bye .unwritten []]
    | _ => .error .outOfRange

/-- The match with an index. -/
def matchAt (d : BestOfThreeDrawSystem) (i : ℕ) : Except Failure MatchStore :=
  match d.matchIds[i]? with
  | some id => c.getMatch id
  | none => .error .outOfRange

/-- What a match adds to the number of matches that white has won. -/
def whiteWinCount (m : MatchStore) : Except Failure ℕ := do
  let winner ← RulesetIdentifier.getWinner m
  return if winner = some .white then 1 else 0

/-- What the third match adds, where it is necessary. -/
def thirdWinCount (d : BestOfThreeDrawSystem) (count : ℕ) : Except Failure ℕ :=
  if count = 1 then do
    let third ← matchAt c d 2
    whiteWinCount third
  else .ok 0

/-- `BestOfThreeDrawSystem::getResults` -/
def getResults (d : BestOfThreeDrawSystem) : Except Failure ResultList :=
  if d.players.length ≠ 2 then .ok []
  else if !(c.getStatus .elimination).isFinished then .ok []
  else do
    let first ← matchAt c d 0
    check .drawSystem (first.getStatus = .finished)
    let firstCount ← whiteWinCount first
    let second ← matchAt c d 1
    let secondCount ← whiteWinCount second
    let thirdCount ← thirdWinCount c d (firstCount + secondCount)
    let white ← optionalValue (first.getPlayer .white)
    let blue ← optionalValue (first.getPlayer .blue)
    return if 1 < firstCount + secondCount + thirdCount then [(white, some 1), (blue, some 2)]
      else [(blue, some 1), (white, some 2)]

end BestOfThreeDrawSystem

namespace DrawSystem

/-- `DrawSystem::initCategory` -/
def initCategory (t : TournamentStore) (c : CategoryStore) (playerIds : List PlayerId) (seed : ℕ) :
    DrawSystem → Except Failure (DrawSystem × List AddMatchAction)
  | pool d => do
    let (d, actions) ← d.initCategory t c playerIds seed
    return (pool d, actions)
  | doublePool d => do
    let (d, actions) ← d.initCategory t c playerIds seed
    return (doublePool d, actions)
  | bestOfThree _ => do
    let (d, actions) ← BestOfThreeDrawSystem.initCategory t c playerIds seed
    return (bestOfThree d, actions)

/-- `DrawSystem::updateCategory` -/
def updateCategory (t : TournamentStore) (c : CategoryStore) :
    DrawSystem → Except Failure (List DrawAction)
  | pool _ => .ok []
  | doublePool d => d.updateCategory t c
  | bestOfThree d => d.updateCategory c

end DrawSystem

end JudoAssistant
