import Mathlib.Algebra.Order.Ring.Rat
import Mathlib.Data.Finset.Sort
import Mathlib.Logic.Function.Basic
import Mathlib.Order.Lattice

/-!
# The tournament store

`TournamentStore` (`src/core/stores/tournament_store.cpp`) owns the players and the categories; a
category owns its matches in order.  The cross references are stored at both ends: a category has
the set of its players and a player the set of his categories, a match has its two players and a
player the set of his matches.  This file embeds the stores, their accessors and their assertions.

An `std::unordered_map` from ids is a partial function, an `std::unordered_set` a finite set and an
array over an enumeration a pair of values.  Times are in milliseconds.
-/

namespace JudoAssistant

/-- `PlayerId` -/
structure PlayerId where
  value : ℕ
  deriving DecidableEq, Repr

/-- `CategoryId` -/
structure CategoryId where
  value : ℕ
  deriving DecidableEq, Repr

/-- `MatchId` -/
structure MatchId where
  value : ℕ
  deriving DecidableEq, Repr

/-- `PositionId` -/
structure PositionId where
  value : ℕ
  deriving DecidableEq, Repr

/-- `CombinedId`: a match together with its category. -/
structure CombinedId where
  categoryId : CategoryId
  matchId : MatchId
  deriving DecidableEq, Repr

instance : LinearOrder PlayerId := LinearOrder.lift' PlayerId.value fun a b h => by
  cases a; cases b; simpa using h

instance : LinearOrder CategoryId := LinearOrder.lift' CategoryId.value fun a b h => by
  cases a; cases b; simpa using h

/-- The class in which an `assert` stands. -/
inductive Component where
  | tournamentStore
  | categoryStore
  | playerStore
  | matchStore
  | categoryStatus
  | tatamis
  | ruleset
  | drawSystem
  | action
  deriving DecidableEq, Repr

/-- The ways in which the code does not return. -/
inductive Failure where
  /-- `ActionExecutionException` -/
  | actionExecution (what : String)
  /-- A failing `assert`. -/
  | assertion (component : Component)
  /-- `std::bad_optional_access` -/
  | badOptionalAccess
  /-- An access outside a container, or through a null pointer. -/
  | outOfRange
  /-- A read of a field that no constructor has written. -/
  | indeterminate
  /-- More steps than a loop or a recursion was allowed. -/
  | unbounded
  deriving DecidableEq, Repr

/-- `assert` -/
def check (component : Component) (b : Bool) : Except Failure Unit :=
  if b then .ok () else .error (.assertion component)

/-- `std::optional::value` -/
def optionalValue {α : Type} : Option α → Except Failure α
  | some a => .ok a
  | none => .error .badOptionalAccess

/-! ### Matches -/

/-- `MatchStore::PlayerIndex` -/
inductive PlayerIndex where
  | white
  | blue
  deriving DecidableEq, Repr

/-- The other player of the match. -/
def PlayerIndex.other : PlayerIndex → PlayerIndex
  | white => blue
  | blue => white

/-- An array over `MatchStore::PlayerIndex`. -/
structure ByPlayer (α : Type) where
  white : α
  blue : α
  deriving DecidableEq, Repr

namespace ByPlayer

variable {α : Type}

def get (a : ByPlayer α) : PlayerIndex → α
  | .white => a.white
  | .blue => a.blue

def set (a : ByPlayer α) (i : PlayerIndex) (x : α) : ByPlayer α :=
  match i with
  | .white => { a with white := x }
  | .blue => { a with blue := x }

@[simp] theorem get_set_self (a : ByPlayer α) (i : PlayerIndex) (x : α) : (a.set i x).get i = x := by
  cases i <;> rfl

@[simp] theorem set_set (a : ByPlayer α) (i : PlayerIndex) (x y : α) :
    (a.set i x).set i y = a.set i y := by
  cases i <;> rfl

@[simp] theorem set_get (a : ByPlayer α) (i : PlayerIndex) : a.set i (a.get i) = a := by
  cases i <;> rfl

end ByPlayer

/-- `MatchType` -/
inductive MatchType where
  | elimination
  | final
  deriving DecidableEq, Repr

/-- An array over `MatchType`. -/
structure ByType (α : Type) where
  elimination : α
  final : α
  deriving DecidableEq, Repr

namespace ByType

variable {α : Type}

def get (a : ByType α) : MatchType → α
  | .elimination => a.elimination
  | .final => a.final

def set (a : ByType α) (i : MatchType) (x : α) : ByType α :=
  match i with
  | .elimination => { a with elimination := x }
  | .final => { a with final := x }

@[simp] theorem get_set_self (a : ByType α) (i : MatchType) (x : α) : (a.set i x).get i = x := by
  cases i <;> rfl

theorem get_set_of_ne (a : ByType α) {i j : MatchType} (h : i ≠ j) (x : α) : (a.set i x).get j = a.get j := by
  cases i <;> cases j <;> first | rfl | exact absurd rfl h

@[simp] theorem set_set (a : ByType α) (i : MatchType) (x y : α) :
    (a.set i x).set i y = a.set i y := by
  cases i <;> rfl

@[simp] theorem set_get (a : ByType α) (i : MatchType) : a.set i (a.get i) = a := by
  cases i <;> rfl

end ByType

/-- `MatchStatus` -/
inductive MatchStatus where
  | notStarted
  | paused
  | unpaused
  | finished
  deriving DecidableEq, Repr

/-- `MatchStore::Score` -/
structure Score where
  wazari : ℕ := 0
  shido : ℕ := 0
  ippon : Bool := false
  directIppon : Bool := false
  hansokuMake : Bool := false
  directHansokuMake : Bool := false
  deriving DecidableEq, Repr

/-- `MatchStore::State` -/
structure MatchState where
  status : MatchStatus
  goldenScore : Bool := false
  /-- The time at which the clock was last resumed. -/
  resumeTime : ℤ := 0
  /-- The match duration when the clock was last paused. -/
  duration : ℤ := 0
  scores : ByPlayer Score := ⟨{}, {}⟩
  osaekomi : Option (PlayerIndex × ℤ) := none
  osaekomiWazari : Bool := false
  deriving DecidableEq, Repr

/-- The constructor `MatchStore::State::State`. -/
def MatchState.init (finished : Bool) : MatchState where
  status := if finished then .finished else .notStarted

/-- `MatchEventType` -/
inductive MatchEventType where
  | ippon
  | wazari
  | shido
  | hansokuMake
  | ipponOsaekomi
  | wazariOsaekomi
  | cancelIppon
  | cancelWazari
  | cancelShido
  | cancelHansokuMake
  deriving DecidableEq, Repr

/-- `MatchEvent` -/
structure MatchEvent where
  type : MatchEventType
  playerIndex : PlayerIndex
  /-- The match duration at the time of the event. -/
  duration : ℤ
  deriving DecidableEq, Repr

/-- `MatchStore` -/
structure MatchStore where
  combinedId : CombinedId
  type : MatchType
  title : String
  permanentBye : Bool
  bye : Bool
  players : ByPlayer (Option PlayerId)
  state : MatchState
  events : List MatchEvent
  deriving DecidableEq, Repr

namespace MatchStore

/-- The constructor of a match without events. -/
def init (combinedId : CombinedId) (type : MatchType) (title : String) (permanentBye : Bool)
    (whitePlayer bluePlayer : Option PlayerId) : MatchStore where
  combinedId := combinedId
  type := type
  title := title
  permanentBye := permanentBye
  bye := permanentBye
  players := ⟨whitePlayer, bluePlayer⟩
  state := MatchState.init permanentBye
  events := []

def id (m : MatchStore) : MatchId := m.combinedId.matchId

def getPlayer (m : MatchStore) (i : PlayerIndex) : Option PlayerId := m.players.get i

def setPlayer (m : MatchStore) (i : PlayerIndex) (player : Option PlayerId) : MatchStore :=
  { m with players := m.players.set i player }

def getScore (m : MatchStore) (i : PlayerIndex) : Score := m.state.scores.get i

def setScore (m : MatchStore) (i : PlayerIndex) (score : Score) : MatchStore :=
  { m with state := { m.state with scores := m.state.scores.set i score } }

def getStatus (m : MatchStore) : MatchStatus := m.state.status

def setStatus (m : MatchStore) (status : MatchStatus) : MatchStore :=
  { m with state := { m.state with status := status } }

def setBye (m : MatchStore) (bye : Bool) : Except Failure MatchStore := do
  check .matchStore (!m.permanentBye)
  return { m with bye := bye }

def setGoldenScore (m : MatchStore) (b : Bool) : MatchStore :=
  { m with state := { m.state with goldenScore := b } }

def setDuration (m : MatchStore) (duration : ℤ) : MatchStore :=
  { m with state := { m.state with duration := duration } }

def setResumeTime (m : MatchStore) (time : ℤ) : MatchStore :=
  { m with state := { m.state with resumeTime := time } }

def setOsaekomi (m : MatchStore) (osaekomi : Option (PlayerIndex × ℤ)) : MatchStore :=
  { m with state := { m.state with osaekomi := osaekomi } }

def setOsaekomiWazari (m : MatchStore) (b : Bool) : MatchStore :=
  { m with state := { m.state with osaekomiWazari := b } }

def currentDuration (m : MatchStore) (masterTime : ℤ) : ℤ :=
  if m.state.status ≠ .unpaused then m.state.duration
  else masterTime - m.state.resumeTime + m.state.duration

def pushEvent (m : MatchStore) (event : MatchEvent) : MatchStore :=
  { m with events := m.events ++ [event] }

def setState (m : MatchStore) (state : MatchState) : MatchStore := { m with state := state }

def setEvents (m : MatchStore) (events : List MatchEvent) : MatchStore := { m with events := events }

def clearState (m : MatchStore) : MatchStore := m.setState (MatchState.init m.bye)

end MatchStore

/-! ### Players -/

/-- `PlayerRank` -/
inductive PlayerRank where
  | kyu6 | kyu5 | kyu4 | kyu3 | kyu2 | kyu1
  | dan1 | dan2 | dan3 | dan4 | dan5 | dan6 | dan7 | dan8 | dan9 | dan10
  deriving DecidableEq, Repr

/-- `PlayerCountry` -/
inductive PlayerCountry where
  | denmark
  | france
  deriving DecidableEq, Repr

/-- `PlayerSex` -/
inductive PlayerSex where
  | male
  | female
  deriving DecidableEq, Repr

/-- `PlayerFields`.  A weight is a rational number instead of a `float`. -/
structure PlayerFields where
  firstName : String := ""
  lastName : String := ""
  age : Option ℤ := none
  rank : Option PlayerRank := none
  club : String := ""
  weight : Option ℚ := none
  country : Option PlayerCountry := none
  sex : Option PlayerSex := none
  blueJudogiHint : Bool := false
  deriving DecidableEq, Repr

/-- `PlayerStore` -/
structure PlayerStore where
  id : PlayerId
  fields : PlayerFields
  categories : Finset CategoryId
  matchIds : Finset CombinedId
  deriving DecidableEq

namespace PlayerStore

def init (id : PlayerId) (fields : PlayerFields) : PlayerStore := ⟨id, fields, ∅, ∅⟩

def setFields (p : PlayerStore) (fields : PlayerFields) : PlayerStore := { p with fields := fields }

def addMatch (p : PlayerStore) (combinedId : CombinedId) : Except Failure PlayerStore := do
  check .playerStore (combinedId ∉ p.matchIds)
  return { p with matchIds := insert combinedId p.matchIds }

def eraseMatch (p : PlayerStore) (combinedId : CombinedId) : PlayerStore :=
  { p with matchIds := p.matchIds.erase combinedId }

def addCategory (p : PlayerStore) (categoryId : CategoryId) : Except Failure PlayerStore := do
  check .playerStore (categoryId ∉ p.categories)
  return { p with categories := insert categoryId p.categories }

def eraseCategory (p : PlayerStore) (categoryId : CategoryId) : Except Failure PlayerStore := do
  check .playerStore (categoryId ∈ p.categories)
  return { p with categories := p.categories.erase categoryId }

end PlayerStore

/-! ### Tatami locations -/

/-- `PositionHandle`.  Handles are compared by their ids, the index is the place at which an element
is inserted. -/
structure PositionHandle where
  id : PositionId
  index : ℕ
  deriving DecidableEq, Repr

/-- `TatamiLocation` -/
structure TatamiLocation where
  handle : PositionHandle
  deriving DecidableEq, Repr

/-- `ConcurrentGroupLocation` -/
structure ConcurrentGroupLocation where
  tatami : TatamiLocation
  handle : PositionHandle
  deriving DecidableEq, Repr

/-- `SequentialGroupLocation` -/
structure SequentialGroupLocation where
  concurrentGroup : ConcurrentGroupLocation
  handle : PositionHandle
  deriving DecidableEq, Repr

/-- `BlockLocation` -/
structure BlockLocation where
  sequentialGroup : SequentialGroupLocation
  pos : ℕ
  deriving DecidableEq, Repr

namespace BlockLocation

def getTatamiHandle (l : BlockLocation) : PositionHandle :=
  l.sequentialGroup.concurrentGroup.tatami.handle

def getConcurrentGroupHandle (l : BlockLocation) : PositionHandle :=
  l.sequentialGroup.concurrentGroup.handle

def getSequentialGroupHandle (l : BlockLocation) : PositionHandle := l.sequentialGroup.handle

end BlockLocation

/-- `ConcurrentGroupLocation::operator==` -/
def ConcurrentGroupLocation.same (a b : ConcurrentGroupLocation) : Bool :=
  a.handle.id == b.handle.id && a.tatami.handle.id == b.tatami.handle.id

/-- `SequentialGroupLocation::operator==` -/
def SequentialGroupLocation.same (a b : SequentialGroupLocation) : Bool :=
  a.handle.id == b.handle.id && a.concurrentGroup.same b.concurrentGroup

/-! ### Categories -/

/-- `DrawSystemIdentifier` -/
inductive DrawSystemIdentifier where
  | pool
  | doublePool
  | bestOfThree
  deriving DecidableEq, Repr

/-- `RulesetIdentifier`.  The rulesets have no state, so a category keeps the identifier. -/
inductive RulesetIdentifier where
  | twentyEighteen
  | twentyEighteenTwoMinute
  | twentyEighteenThreeMinute
  deriving DecidableEq, Repr

/-- `PoolDrawSystem` -/
structure PoolDrawSystem where
  matchIds : List MatchId := []
  players : List PlayerId := []
  composited : Bool := false
  deriving DecidableEq, Repr

/-- `DoublePoolDrawSystem` -/
structure DoublePoolDrawSystem where
  matchIds : List MatchId := []
  players : List PlayerId := []
  firstPool : Option PoolDrawSystem := none
  secondPool : Option PoolDrawSystem := none
  deriving DecidableEq, Repr

/-- `BestOfThreeDrawSystem` -/
structure BestOfThreeDrawSystem where
  matchIds : List MatchId := []
  players : List PlayerId := []
  deriving DecidableEq, Repr

/-- `DrawSystem` -/
inductive DrawSystem where
  | pool (d : PoolDrawSystem)
  | doublePool (d : DoublePoolDrawSystem)
  | bestOfThree (d : BestOfThreeDrawSystem)
  deriving DecidableEq, Repr

namespace DrawSystem

/-- `DrawSystem::getDrawSystem` -/
def getDrawSystem : DrawSystemIdentifier → DrawSystem
  | .pool => .pool {}
  | .doublePool => .doublePool {}
  | .bestOfThree => .bestOfThree {}

def getIdentifier : DrawSystem → DrawSystemIdentifier
  | pool _ => .pool
  | doublePool _ => .doublePool
  | bestOfThree _ => .bestOfThree

def hasFinalBlock : DrawSystem → Bool
  | doublePool _ => true
  | _ => false

end DrawSystem

/-- `CategoryStatus` -/
structure CategoryStatus where
  notStartedMatches : ℕ := 0
  startedMatches : ℕ := 0
  finishedMatches : ℕ := 0
  deriving DecidableEq, Repr

namespace CategoryStatus

def isFinished (s : CategoryStatus) : Bool := s.notStartedMatches == 0 && s.startedMatches == 0

def isStarted (s : CategoryStatus) : Bool :=
  decide (0 < s.startedMatches) || decide (0 < s.finishedMatches)

/-- `++` on the counter of a status. -/
def increment (s : CategoryStatus) : MatchStatus → CategoryStatus
  | .notStarted => { s with notStartedMatches := s.notStartedMatches + 1 }
  | .paused | .unpaused => { s with startedMatches := s.startedMatches + 1 }
  | .finished => { s with finishedMatches := s.finishedMatches + 1 }

/-- `--` on the counter of a status, with the assertion that stands before it. -/
def decrement (s : CategoryStatus) : MatchStatus → Except Failure CategoryStatus
  | .notStarted => do
    check .categoryStatus (0 < s.notStartedMatches)
    return { s with notStartedMatches := s.notStartedMatches - 1 }
  | .paused | .unpaused => do
    check .categoryStatus (0 < s.startedMatches)
    return { s with startedMatches := s.startedMatches - 1 }
  | .finished => do
    check .categoryStatus (0 < s.finishedMatches)
    return { s with finishedMatches := s.finishedMatches - 1 }

end CategoryStatus

/-- `CategoryStore`.  `matchMap` is the index of `matchList` by match id; `matchCount` is a `size_t`
that wraps around. -/
structure CategoryStore where
  id : CategoryId
  name : String
  players : Finset PlayerId
  matchList : List MatchStore
  matchMap : MatchId → Option ℕ
  matchCount : ByType UInt64
  status : ByType CategoryStatus
  location : ByType (Option BlockLocation)
  ruleset : RulesetIdentifier
  drawSystem : DrawSystem
  matchesHidden : Bool

namespace CategoryStore

def init (id : CategoryId) (name : String) (ruleset : RulesetIdentifier) (drawSystem : DrawSystem) :
    CategoryStore where
  id := id
  name := name
  players := ∅
  matchList := []
  matchMap := fun _ => none
  matchCount := ⟨0, 0⟩
  status := ⟨{}, {}⟩
  location := ⟨none, none⟩
  ruleset := ruleset
  drawSystem := drawSystem
  matchesHidden := false

def addPlayer (c : CategoryStore) (player : PlayerId) : Except Failure CategoryStore := do
  check .categoryStore (player ∉ c.players)
  return { c with players := insert player c.players }

def erasePlayer (c : CategoryStore) (player : PlayerId) : Except Failure CategoryStore := do
  check .categoryStore (player ∈ c.players)
  return { c with players := c.players.erase player }

def containsMatch (c : CategoryStore) (id : MatchId) : Bool := (c.matchMap id).isSome

def getMatch (c : CategoryStore) (id : MatchId) : Except Failure MatchStore :=
  match c.matchMap id with
  | none => .error (.assertion .categoryStore)
  | some i => match c.matchList[i]? with
    | none => .error .outOfRange
    | some m => .ok m

/-- Write through the reference that `getMatch` returns. -/
def setMatch (c : CategoryStore) (id : MatchId) (m : MatchStore) : CategoryStore :=
  match c.matchMap id with
  | none => c
  | some i => { c with matchList := c.matchList.set i m }

def pushMatch (c : CategoryStore) (m : MatchStore) : Except Failure CategoryStore := do
  check .categoryStore (c.matchMap m.id).isNone
  return { c with
    matchList := c.matchList ++ [m]
    matchMap := Function.update c.matchMap m.id (some c.matchList.length)
    matchCount := if m.permanentBye then c.matchCount
      else c.matchCount.set m.type (c.matchCount.get m.type + 1) }

def popMatch (c : CategoryStore) : Except Failure CategoryStore :=
  match c.matchList.getLast? with
  | none => .error .outOfRange
  | some m => .ok { c with
      matchList := c.matchList.dropLast
      matchMap := Function.update c.matchMap m.id none
      matchCount := c.matchCount.set m.type (c.matchCount.get m.type - 1) }

def clearMatches (c : CategoryStore) : CategoryStore :=
  { c with matchList := [], matchMap := fun _ => none, matchCount := ⟨0, 0⟩ }

def getStatus (c : CategoryStore) (type : MatchType) : CategoryStatus := c.status.get type

def setStatus (c : CategoryStore) (type : MatchType) (status : CategoryStatus) : CategoryStore :=
  { c with status := c.status.set type status }

def getLocation (c : CategoryStore) (type : MatchType) : Option BlockLocation := c.location.get type

def setLocation (c : CategoryStore) (type : MatchType) (location : Option BlockLocation) :
    CategoryStore :=
  { c with location := c.location.set type location }

def setDrawSystem (c : CategoryStore) (drawSystem : DrawSystem) : CategoryStore :=
  { c with drawSystem := drawSystem }

def setRuleset (c : CategoryStore) (ruleset : RulesetIdentifier) : CategoryStore :=
  { c with ruleset := ruleset }

def setName (c : CategoryStore) (name : String) : CategoryStore := { c with name := name }

def setMatchesHidden (c : CategoryStore) (hidden : Bool) : CategoryStore :=
  { c with matchesHidden := hidden }

end CategoryStore

/-! ### Preferences -/

/-- `DrawSystemPreference` -/
structure DrawSystemPreference where
  playerLowerLimit : ℕ
  drawSystem : DrawSystemIdentifier
  deriving DecidableEq, Repr

/-- `ScoreboardStylePreference` -/
inductive ScoreboardStylePreference where
  | national
  | international
  deriving DecidableEq, Repr

/-- `MatchCardStylePreference` -/
inductive MatchCardStylePreference where
  | national
  deriving DecidableEq, Repr

/-- `PreferencesStore`, with the values that its constructor gives. -/
structure PreferencesStore where
  preferredDrawSystems : List DrawSystemPreference :=
    [⟨1, .bestOfThree⟩, ⟨3, .pool⟩, ⟨6, .doublePool⟩]
  scoreboardStyle : ScoreboardStylePreference := .national
  matchCardStyle : MatchCardStylePreference := .national
  deriving DecidableEq, Repr

namespace PreferencesStore

/-- The loop of `getPreferredDrawSystem`, from row `i` down. -/
def searchRow (rows : List DrawSystemPreference) (size : ℕ) : ℕ → ℕ
  | 0 => 0
  | i + 1 => match rows[i + 1]? with
    | some row => if size < row.playerLowerLimit then searchRow rows size i else i + 1
    | none => i + 1

/-- `PreferencesStore::getPreferredDrawSystem` -/
def getPreferredDrawSystem (p : PreferencesStore) (size : ℕ) : Except Failure DrawSystemIdentifier :=
  let rows := p.preferredDrawSystems
  match rows[searchRow rows size (rows.length - 1)]? with
  | some row => .ok row.drawSystem
  | none => .error .outOfRange

end PreferencesStore

end JudoAssistant
