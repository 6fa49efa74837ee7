import JudoAssistant.Tournament.Stores

/-!
# Rulesets

`Ruleset` and `TwentyEighteenRuleset` (`src/core/rulesets`): what an event does to the score, the
clock and the status of one match.  The three rulesets differ in the normal time only.  An operation
that asserts its own precondition returns an error where the assertion fails.
-/

namespace JudoAssistant

namespace RulesetIdentifier

/-- `getNormalTime` -/
def getNormalTime : RulesetIdentifier → ℤ
  | twentyEighteen => 4 * 60 * 1000
  | twentyEighteenTwoMinute => 2 * 60 * 1000
  | twentyEighteenThreeMinute => 3 * 60 * 1000

/-- `getExpectedTime` -/
def getExpectedTime : RulesetIdentifier → ℤ
  | twentyEighteen => 4 * 60 * 1000
  | twentyEighteenTwoMinute => 2 * 60 * 1000
  | twentyEighteenThreeMinute => 3 * 60 * 1000

/-- `Ruleset::getDefaultRuleset` -/
def default : RulesetIdentifier := twentyEighteen

variable (r : RulesetIdentifier)

/-! ### Winner and end of the match -/

/-- The part of the two functions `getWinner` that looks at disqualifications and ippons. -/
def decidedWinner (m : MatchStore) : Option PlayerIndex :=
  if (m.getScore .blue).hansokuMake then some .white
  else if (m.getScore .white).hansokuMake then some .blue
  else if (m.getScore .white).ippon then some .white
  else if (m.getScore .blue).ippon then some .blue
  else none

/-- The part of the two functions `getWinner` that compares the numbers of wazaris. -/
def wazariWinner (m : MatchStore) : Option PlayerIndex :=
  if (m.getScore .blue).wazari < (m.getScore .white).wazari then some .white
  else if (m.getScore .white).wazari < (m.getScore .blue).wazari then some .blue
  else none

/-- `getWinner(match, masterTime)` -/
def getWinnerAt (m : MatchStore) (masterTime : ℤ) : Option PlayerIndex :=
  if (m.getPlayer .white).isNone then some .blue
  else if (m.getPlayer .blue).isNone then some .white
  else match decidedWinner m with
    | some i => some i
    | none => if r.getNormalTime ≤ m.currentDuration masterTime then wazariWinner m else none

/-- `getWinner(match)`, for finished matches. -/
def getWinner (m : MatchStore) : Except Failure (Option PlayerIndex) :=
  if (m.getPlayer .white).isNone then .ok (some .blue)
  else if (m.getPlayer .blue).isNone then .ok (some .white)
  else do
    check .ruleset (m.getStatus == .finished)
    match decidedWinner m with
    | some i => return some i
    | none => return wazariWinner m

/-- `isFinished` -/
def isFinished (m : MatchStore) (masterTime : ℤ) : Bool :=
  if m.bye then true
  else if (m.getPlayer .white).isNone then false
  else if (m.getPlayer .blue).isNone then false
  else if m.getStatus = .unpaused then false
  else if m.state.osaekomi.isSome then false
  else if (m.getScore .white).hansokuMake || (m.getScore .blue).hansokuMake then true
  else (r.getWinnerAt m masterTime).isSome

/-! ### The clock -/

def shouldPause (m : MatchStore) (masterTime : ℤ) : Bool :=
  if m.getStatus ≠ .unpaused then false
  else if r.getNormalTime < m.currentDuration masterTime ∧ !m.state.goldenScore then true
  else (r.getWinnerAt m masterTime).isSome

def canPause (m : MatchStore) : Bool := m.getStatus = .unpaused

def pause (m : MatchStore) (masterTime : ℤ) : Except Failure MatchStore := do
  check .ruleset (canPause m)
  let duration := m.currentDuration masterTime
  let duration := if r.getNormalTime < duration ∧ !m.state.goldenScore then r.getNormalTime
    else duration
  -- A match counts as finished only once the clock has stopped.
  let m := (m.setDuration duration).setStatus .paused
  if r.isFinished m masterTime then return m.setStatus .finished
  else if r.getNormalTime ≤ duration then return m.setGoldenScore true
  else return m

def canResume (m : MatchStore) (masterTime : ℤ) : Bool :=
  m.getStatus ≠ .unpaused && !r.isFinished m masterTime

def resume (m : MatchStore) (masterTime : ℤ) : Except Failure MatchStore := do
  check .ruleset (r.canResume m masterTime)
  return (m.setResumeTime masterTime).setStatus .unpaused

/-- `Ruleset::updateStatus` -/
def updateStatus (m : MatchStore) (masterTime : ℤ) : MatchStore :=
  if m.getStatus = .unpaused then m
  else if r.isFinished m masterTime then
    let m := m.setStatus .finished
    if m.currentDuration masterTime ≤ r.getNormalTime then m.setGoldenScore false else m
  else
    let m := m.setStatus .paused
    if r.getNormalTime ≤ m.currentDuration masterTime then m.setGoldenScore true else m

/-! ### Scores -/

def canAwardIppon (m : MatchStore) (i : PlayerIndex) : Bool :=
  !(m.getScore i.other).ippon && !(m.getScore i).ippon

def awardIppon (m : MatchStore) (i : PlayerIndex) (masterTime : ℤ) : Except Failure MatchStore := do
  check .ruleset (canAwardIppon m i)
  return r.updateStatus (m.setScore i { m.getScore i with ippon := true, directIppon := true })
    masterTime

def canCancelIppon (m : MatchStore) (i : PlayerIndex) : Bool := (m.getScore i).directIppon

def cancelIppon (m : MatchStore) (i : PlayerIndex) (masterTime : ℤ) : Except Failure MatchStore := do
  check .ruleset (canCancelIppon m i)
  return r.updateStatus (m.setScore i { m.getScore i with directIppon := false, ippon := false })
    masterTime

def canAwardWazari (m : MatchStore) (i : PlayerIndex) : Bool :=
  !(m.getScore i.other).ippon && !(m.getScore i).ippon

def awardWazari (m : MatchStore) (i : PlayerIndex) (masterTime : ℤ) : Except Failure MatchStore := do
  check .ruleset (canAwardWazari m i)
  let score := { m.getScore i with wazari := (m.getScore i).wazari + 1 }
  let score := if score.wazari = 2 then { score with ippon := true, wazari := 0 } else score
  return r.updateStatus (m.setScore i score) masterTime

def canCancelWazari (m : MatchStore) (i : PlayerIndex) : Bool :=
  decide (0 < (m.getScore i).wazari) || ((m.getScore i).ippon && !(m.getScore i).directIppon)

def cancelWazari (m : MatchStore) (i : PlayerIndex) (masterTime : ℤ) : Except Failure MatchStore := do
  check .ruleset (canCancelWazari m i)
  let score := m.getScore i
  let score := if score.wazari = 1 then { score with wazari := 0 }
    else if score.ippon then { score with wazari := 1, ippon := false }
    else score
  return r.updateStatus (m.setScore i score) masterTime

def canAwardShido (m : MatchStore) (i : PlayerIndex) : Bool :=
  !(m.getScore i).hansokuMake && !(m.getScore i.other).hansokuMake

def awardShido (m : MatchStore) (i : PlayerIndex) (masterTime : ℤ) : Except Failure MatchStore := do
  check .ruleset (canAwardShido m i)
  let score := { m.getScore i with shido := (m.getScore i).shido + 1 }
  let score := if score.shido = 3 then { score with hansokuMake := true } else score
  return r.updateStatus (m.setScore i score) masterTime

def canCancelShido (m : MatchStore) (i : PlayerIndex) : Bool := 0 < (m.getScore i).shido

def cancelShido (m : MatchStore) (i : PlayerIndex) (masterTime : ℤ) : Except Failure MatchStore := do
  check .ruleset (canCancelShido m i)
  let score := { m.getScore i with shido := (m.getScore i).shido - 1 }
  let score := if score.hansokuMake && !score.directHansokuMake then
      { score with hansokuMake := false }
    else score
  return r.updateStatus (m.setScore i score) masterTime

def canAwardHansokuMake (m : MatchStore) (i : PlayerIndex) : Bool :=
  !(m.getScore i).directHansokuMake && !(m.getScore i.other).hansokuMake

def awardHansokuMake (m : MatchStore) (i : PlayerIndex) (masterTime : ℤ) :
    Except Failure MatchStore := do
  check .ruleset (canAwardHansokuMake m i)
  return r.updateStatus
    (m.setScore i { m.getScore i with hansokuMake := true, directHansokuMake := true }) masterTime

def canCancelHansokuMake (m : MatchStore) (i : PlayerIndex) : Bool :=
  (m.getScore i).directHansokuMake

def cancelHansokuMake (m : MatchStore) (i : PlayerIndex) (masterTime : ℤ) :
    Except Failure MatchStore := do
  check .ruleset (canCancelHansokuMake m i)
  let score := { m.getScore i with directHansokuMake := false }
  let score := if score.shido < 3 then { score with hansokuMake := false } else score
  return r.updateStatus (m.setScore i score) masterTime

/-! ### Osaekomi -/

def canStartOsaekomi (m : MatchStore) (i : PlayerIndex) : Bool :=
  !(m.getScore i).ippon && !(m.getScore i.other).ippon

def startOsaekomi (m : MatchStore) (i : PlayerIndex) (masterTime : ℤ) :
    Except Failure MatchStore := do
  check .ruleset (canStartOsaekomi m i)
  return (m.setOsaekomi (some (i, masterTime))).setOsaekomiWazari false

def canStopOsaekomi (m : MatchStore) : Bool := m.state.osaekomi.isSome

def stopOsaekomi (m : MatchStore) (masterTime : ℤ) : MatchStore :=
  let m := (m.setOsaekomi none).setOsaekomiWazari false
  if m.getStatus = .paused ∧ r.isFinished m masterTime then m.setStatus .finished else m

end RulesetIdentifier

end JudoAssistant
