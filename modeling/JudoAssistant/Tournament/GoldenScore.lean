import JudoAssistant.Tournament.Clock
import JudoAssistant.Tournament.Scores

/-!
# Golden score at the end of normal time

A match that is finished when normal time is over is not in golden score.  `updateStatus` takes the
mark back where it finds such a match decided; `pause` and `stopOsaekomi` finish a match as they find
it.  The file says which events leave the mark on a match that is decided at the end of normal time.
-/

namespace JudoAssistant

open Effect
open Exec (check_ok)

namespace RulesetIdentifier

variable {r : RulesetIdentifier} {m m' m₁ : MatchStore} {i : PlayerIndex} {time : ℤ}

/-- The scores have a winner once normal time is over. -/
def decided (m : MatchStore) : Bool := (decidedWinner m).isSome || (wazariWinner m).isSome

/-- The match is in golden score, and no time has passed there. -/
def AtBell (r : RulesetIdentifier) (m : MatchStore) (time : ℤ) : Prop :=
  m.state.goldenScore = true ∧ m.currentDuration time ≤ r.getNormalTime

instance (r : RulesetIdentifier) (m : MatchStore) (time : ℤ) : Decidable (AtBell r m time) :=
  inferInstanceAs (Decidable (_ ∧ _))

/-- The event gives a winner to a match that has none at the end of normal time. -/
def decides (m : MatchStore) : MatchEventKind → Bool
  | .awardIppon i _ _ => canAwardIppon m i
  | .awardWazari i _ osaekomi => !(osaekomi && m.state.osaekomiWazari) && canAwardWazari m i
  | .awardShido i _ => canAwardShido m i && (m.getScore i).shido == 2
  | .awardHansokuMake i _ => canAwardHansokuMake m i
  | .cancelWazari i _ => canCancelWazari m i
  | _ => false

/-- The event finishes a match that has been marked golden score although no time has passed there: it
ends the osaekomi that kept a decided match open, or it decides the match while the clock runs. -/
def Untimely (r : RulesetIdentifier) (m : MatchStore) (k : MatchEventKind) : Prop :=
  ∃ time, k.masterTime = some time ∧ AtBell r m time ∧
    (k = .stopOsaekomi time ∧ m.state.osaekomi.isSome = true ∧ decided m = true ∨
      m.getStatus = .unpaused ∧ m.state.osaekomi = none ∧ decides m k = true)

/-- A match that was decided in normal time is not marked golden score. -/
def Timely (r : RulesetIdentifier) (m : MatchStore) : Prop :=
  m.getStatus = .finished → m.state.duration ≤ r.getNormalTime → m.state.goldenScore = false

/-- The match is timely, and nobody leads in golden score while the clock runs. -/
structure BellSound (r : RulesetIdentifier) (m : MatchStore) : Prop where
  timely : r.Timely m
  fresh : m.getStatus = .notStarted → m.state.goldenScore = false
  undecided : m.getStatus = .unpaused → m.state.goldenScore = true → m.state.osaekomi = none → decided m = false

/-! ### Who leads -/

theorem decided_iff (m : MatchStore) (i : PlayerIndex) : decided m = true ↔
    (m.getScore i).hansokuMake = true ∨ (m.getScore i.other).hansokuMake = true ∨ (m.getScore i).ippon = true ∨
      (m.getScore i.other).ippon = true ∨ (m.getScore i).wazari ≠ (m.getScore i.other).wazari := by
  unfold decided decidedWinner wazariWinner
  cases i <;> simp only [PlayerIndex.other] <;> split_ifs <;> simp_all <;> omega

theorem decided_congr (h : m'.state.scores = m.state.scores) : decided m' = decided m := by
  have hget : m'.getScore = m.getScore := funext fun i => congrArg (ByPlayer.get · i) h
  unfold decided decidedWinner wazariWinner
  rw [hget]

theorem isSome_stoppedWinner (h : r.getNormalTime ≤ m.state.duration) :
    (r.stoppedWinner m).isSome = decided m := by
  unfold stoppedWinner decided
  cases decidedWinner m with
  | some i => rfl
  | none => rw [if_pos h, Option.isSome_none, Bool.false_or]

theorem decided_of_stoppedWinner (h : (r.stoppedWinner m).isSome = true) : decided m = true := by
  unfold stoppedWinner at h
  unfold decided
  cases hdecided : decidedWinner m with
  | some i => rfl
  | none =>
    rw [hdecided] at h
    simp only at h
    split at h
    · rw [h, Bool.or_true]
    · cases h

theorem shouldPause_golden (hm : m.Contested) (hunpaused : m.getStatus = .unpaused)
    (hgolden : m.state.goldenScore = true)
    (hover : r.getNormalTime ≤ m.currentDuration time) : r.shouldPause m time = decided m := by
  have hcap : ¬(r.getNormalTime < m.currentDuration time ∧ (!m.state.goldenScore) = true) := fun hcap => by
    rw [hgolden] at hcap
    cases hcap.2
  rw [shouldPause, if_neg (not_not.2 hunpaused), if_neg hcap, getWinnerAt, hm.isNone, hm.isNone]
  unfold decided
  cases decidedWinner m with
  | some i => rfl
  | none => simp [hover]

/-! ### The end of an event -/

/-- The end of an event: the clock stops if it should. -/
def conclude (r : RulesetIdentifier) (m : MatchStore) (time : ℤ) : Except Failure MatchStore :=
  if r.shouldPause m time then r.pause m time else .ok m

theorem conclude_of_stopped (h : m.getStatus ≠ .unpaused) : r.conclude m time = .ok m := by
  rw [conclude, shouldPause, if_pos h]
  rfl

theorem bellSound_of_finished (h : m.getStatus = .finished) (htimely : r.Timely m) : r.BellSound m := by
  refine ⟨htimely, fun hfresh => ?_, fun hrunning => ?_⟩
  · rw [h] at hfresh
    cases hfresh
  · rw [h] at hrunning
    cases hrunning

theorem bellSound_of_paused (h : m.getStatus = .paused) : r.BellSound m := by
  refine ⟨fun hfinished => ?_, fun hfresh => ?_, fun hrunning => ?_⟩
  · rw [h] at hfinished
    cases hfinished
  · rw [h] at hfresh
    cases hfresh
  · rw [h] at hrunning
    cases hrunning

/-- Golden score is kept only where the clock has passed the end of normal time. -/
theorem currentDuration_of_golden (hgolden : m.state.goldenScore = true) :
    r.pausedDuration m time = m.currentDuration time := by
  rw [pausedDuration, hgolden]
  exact if_neg fun hcap => (nomatch hcap.2)

theorem bellSound_pause (hm : m.Contested) (hbell : r.AtBell m time → m.state.osaekomi = none → decided m = false)
    (h : r.pause m time = .ok m') : r.BellSound m' := by
  obtain ⟨hunpaused, rfl⟩ := pause_ok.1 h
  have hstop : (r.stop m time).Contested := hm.congr rfl rfl
  have hscores : decided (r.stop m time) = decided m := decided_congr rfl
  split
  · next hfinished =>
    refine bellSound_of_finished rfl fun _ hnormal => ?_
    have hstopped : (r.stop m time).getStatus ≠ .unpaused := fun hrunning => nomatch hrunning
    obtain ⟨hosaekomi, hwinner⟩ := (isFinished_of_stopped hstop hstopped).1 hfinished
    have hdecided := decided_of_stoppedWinner hwinner
    by_contra hgolden
    have hgolden : m.state.goldenScore = true := eq_true_of_ne_false hgolden
    have hle : r.pausedDuration m time ≤ r.getNormalTime := hnormal
    rw [currentDuration_of_golden hgolden] at hle
    rw [hscores, hbell ⟨hgolden, hle⟩ hosaekomi] at hdecided
    cases hdecided
  · split <;> exact bellSound_of_paused rfl

theorem bellSound_conclude (hm : m.Contested) (hclock : r.ClockSound m) (hstart : StartedBy time m)
    (hunpaused : m.getStatus = .unpaused)
    (hbell : r.AtBell m time → m.state.osaekomi = none → decided m = false) (h : r.conclude m time = .ok m') :
    r.BellSound m' := by
  unfold conclude at h
  split at h
  · exact bellSound_pause hm hbell h
  · next hstay =>
    cases h
    refine ⟨fun hfinished => ?_, fun hfresh => ?_, fun _ hgolden _ => ?_⟩
    · rw [hunpaused] at hfinished
      cases hfinished
    · rw [hunpaused] at hfresh
      cases hfresh
    · have hover := (hclock.golden hgolden).trans (le_currentDuration hstart hunpaused)
      rw [shouldPause_golden hm hunpaused hgolden hover] at hstay
      exact Bool.eq_false_iff.2 hstay

/-! ### Awards and cancellations -/

/-- The match has the same players and state, up to the scores and the flag. -/
structure Rescored (m m₁ : MatchStore) : Prop where
  bye : m₁.bye = m.bye
  players : m₁.players = m.players
  state : m₁.state = { m.state with scores := m₁.state.scores, osaekomiWazari := m₁.state.osaekomiWazari }

/-- Write a score, update the status and note the event. -/
def noteScore (r : RulesetIdentifier) (m : MatchStore) (time : ℤ) (i : PlayerIndex) (s : Score) (b : Bool)
    (event : MatchEvent) : MatchStore :=
  ((r.updateStatus (m.setScore i s) time).setOsaekomiWazari b).pushEvent event

/-- An event is an award or a cancellation. -/
def Scoring (k : MatchEventKind) : Bool :=
  match k with
  | .awardIppon .. | .awardWazari .. | .awardShido .. | .awardHansokuMake .. => true
  | .cancelIppon .. | .cancelWazari .. | .cancelShido .. | .cancelHansokuMake .. => true
  | _ => false

theorem updateStatus_of_unpaused (h : m.getStatus = .unpaused) : r.updateStatus m time = m := if_pos h

theorem decided_setScore (m : MatchStore) (i : PlayerIndex) (s : Score) : decided (m.setScore i s) = true ↔
    s.hansokuMake = true ∨ (m.getScore i.other).hansokuMake = true ∨ s.ippon = true ∨
      (m.getScore i.other).ippon = true ∨ s.wazari ≠ (m.getScore i.other).wazari := by
  rw [decided_iff _ i, MatchStore.getScore_setScore_self, MatchStore.getScore_setScore_other]

theorem rescored_noteScore (h : m.getStatus = .unpaused) (i : PlayerIndex) (s : Score) (b : Bool) (event : MatchEvent) :
    Rescored m (r.noteScore m time i s b event) := by
  rw [noteScore, updateStatus_of_unpaused (m := m.setScore i s) h]
  exact ⟨rfl, rfl, rfl⟩

theorem status_updateStatus (h : m.getStatus ≠ .unpaused) : (r.updateStatus m time).getStatus ≠ .unpaused := by
  rw [updateStatus, if_neg h]
  split <;> simp only <;> split <;> exact fun hrunning => (nomatch hrunning)

theorem stopped_noteScore (h : m.getStatus ≠ .unpaused) (i : PlayerIndex) (s : Score) (b : Bool)
    (event : MatchEvent) : (r.noteScore m time i s b event).getStatus ≠ .unpaused := by
  have hset : (m.setScore i s).getStatus ≠ .unpaused := h
  exact status_updateStatus hset

/-- `updateStatus` takes the mark back where it finishes the match. -/
theorem bellSound_noteScore (h : m.getStatus ≠ .unpaused) (i : PlayerIndex) (s : Score) (b : Bool)
    (event : MatchEvent) : r.BellSound (r.noteScore m time i s b event) := by
  have hstopped : (m.setScore i s).getStatus ≠ .unpaused := h
  unfold noteScore updateStatus
  rw [if_neg hstopped]
  split
  · have hcurrent : ((m.setScore i s).setStatus .finished).currentDuration time = m.state.duration :=
      currentDuration_of_stopped (m := (m.setScore i s).setStatus .finished) (fun hrunning => nomatch hrunning) time
    simp only [hcurrent]
    split
    · exact bellSound_of_finished rfl fun _ _ => rfl
    · next hover => exact bellSound_of_finished rfl fun _ hnormal => absurd hnormal hover
  · simp only
    split <;> exact bellSound_of_paused rfl

/-- What an award or a cancellation comes to: a score is noted, and the clock stops if it should. -/
structure ScoringStep (r : RulesetIdentifier) (m : MatchStore) (k : MatchEventKind) (time : ℤ) (m₁ : MatchStore) :
    Prop where
  effect : k.rules.effect r m = r.conclude m₁ time
  stopped : m.getStatus ≠ .unpaused → m₁.getStatus ≠ .unpaused ∧ r.BellSound m₁
  running : m.getStatus = .unpaused →
    Rescored m m₁ ∧ (m.ScoresSound → decided m = false → decided m₁ = decides m k)

theorem decided_noteScore (h : m.getStatus = .unpaused) (i : PlayerIndex) (s : Score) (b : Bool) (event : MatchEvent) :
    decided (r.noteScore m time i s b event) = decided (m.setScore i s) := by
  rw [noteScore, updateStatus_of_unpaused (m := m.setScore i s) h]
  exact decided_congr rfl

theorem scoringStep_noteScore {k : MatchEventKind} {s : Score} {b : Bool} {event : MatchEvent}
    (heffect : k.rules.effect r m = r.conclude (r.noteScore m time i s b event) time)
    (hdecided : m.ScoresSound → decided m = false → decided (m.setScore i s) = decides m k) :
    ScoringStep r m k time (r.noteScore m time i s b event) := by
  refine ⟨heffect, fun hstopped =>
    ⟨stopped_noteScore hstopped i s b event, bellSound_noteScore hstopped i s b event⟩,
    fun hunpaused => ⟨rescored_noteScore hunpaused i s b event, fun hscores hopen => ?_⟩⟩
  rw [decided_noteScore hunpaused]
  exact hdecided hscores hopen

/-- The same after another score of the player. -/
theorem scoringStep_twice {k : MatchEventKind} {s₀ s : Score} {b : Bool} {event : MatchEvent}
    (heffect : k.rules.effect r m =
      r.conclude (r.noteScore (r.updateStatus (m.setScore i s₀) time) time i s b event) time)
    (hdecided : decided ((m.setScore i s₀).setScore i s) = decides m k) :
    ScoringStep r m k time (r.noteScore (r.updateStatus (m.setScore i s₀) time) time i s b event) := by
  refine ⟨heffect, fun hstopped => ?_, fun hunpaused => ?_⟩
  · have hset : (r.updateStatus (m.setScore i s₀) time).getStatus ≠ .unpaused :=
      status_updateStatus (m := m.setScore i s₀) hstopped
    exact ⟨stopped_noteScore hset i s b event, bellSound_noteScore hset i s b event⟩
  · have hset : (m.setScore i s₀).getStatus = .unpaused := hunpaused
    rw [updateStatus_of_unpaused hset]
    refine ⟨?_, fun _ _ => (decided_noteScore hset i s b event).trans hdecided⟩
    have hscored : Rescored (m.setScore i s₀) (r.noteScore (m.setScore i s₀) time i s b event) :=
      rescored_noteScore hset i s b event
    exact ⟨hscored.bye, hscored.players, hscored.state⟩

/-- An award or a cancellation that only calls the ruleset. -/
theorem scoringStep_score {can : MatchStore → PlayerIndex → Bool} {type : MatchEventType} {s : Score}
    {k : MatchEventKind}
    {change : RulesetIdentifier → MatchStore → PlayerIndex → ℤ → Except Failure MatchStore}
    (hk : k.rules = EventRules.score can change type i time)
    (h : change r m i time = .ok (r.updateStatus (m.setScore i s) time))
    (hdecided : m.ScoresSound → decided m = false → decided (m.setScore i s) = decides m k) :
    ∃ m₁, ScoringStep r m k time m₁ := by
  refine ⟨r.noteScore m time i s (r.updateStatus (m.setScore i s) time).state.osaekomiWazari
    ⟨type, i, (r.updateStatus (m.setScore i s) time).currentDuration time⟩, scoringStep_noteScore ?_ hdecided⟩
  simp only [hk, EventRules.score, h]
  rfl

/-- Nobody leads. -/
theorem decided_eq_false (h : decided m = false) (i : PlayerIndex) :
    (m.getScore i).hansokuMake = false ∧ (m.getScore i.other).hansokuMake = false ∧ (m.getScore i).ippon = false ∧
      (m.getScore i.other).ippon = false ∧ (m.getScore i).wazari = (m.getScore i.other).wazari := by
  rw [Bool.eq_false_iff, Ne, decided_iff m i] at h
  simpa using h

theorem effect_awardWazari {s : Score} {osaekomi : Bool}
    (h : r.awardWazari m i time = .ok (r.updateStatus (m.setScore i s) time)) :
    (EventRules.awardWazari i time osaekomi).effect r m = r.conclude (r.noteScore m time i s
      (osaekomi || (r.updateStatus (m.setScore i s) time).state.osaekomiWazari)
      ⟨if osaekomi then .wazariOsaekomi else .wazari, i,
        (r.updateStatus (m.setScore i s) time).currentDuration time⟩)
      time := by
  simp only [EventRules.awardWazari, h]
  cases osaekomi <;> rfl

theorem effect_ippon {type : MatchEventType} (hcan : canAwardIppon m i = true) : ∃ b event,
    (r.awardIppon m i time).bind (EventRules.record r type i time) =
      r.conclude (r.noteScore m time i (m.getScore i).withIppon b event) time := by
  have hcheck : check .ruleset (canAwardIppon m i) = .ok () := check_ok.2 hcan
  refine ⟨(r.updateStatus (m.setScore i (m.getScore i).withIppon) time).state.osaekomiWazari,
    ⟨type, i, (r.updateStatus (m.setScore i (m.getScore i).withIppon) time).currentDuration time⟩, ?_⟩
  rw [awardIppon, hcheck]
  rfl

/-- An ippon that takes the wazari of the osaekomi back writes the score twice. -/
theorem scoringStep_awardIppon {osaekomi : Bool} (hguard : canAwardIppon m i = true) :
    ∃ m₁, ScoringStep r m (.awardIppon i time osaekomi) time m₁ := by
  have hdecides : decides m (.awardIppon i time osaekomi) = true := hguard
  by_cases hcancel : (m.state.osaekomiWazari && canCancelWazari m i) = true
  · have hcheck : check .ruleset (canCancelWazari m i) = .ok () := check_ok.2 (Bool.and_eq_true_iff.1 hcancel).2
    have hcall : r.cancelWazari m i time = .ok (r.updateStatus (m.setScore i (m.getScore i).withoutWazari) time) := by
      rw [cancelWazari, hcheck]
      rfl
    have hcan := canAwardIppon_cancelWazari hguard hcall
    obtain ⟨b, event, heffect⟩ : ∃ b event, (r.awardIppon _ i time).bind
        (EventRules.record r (if osaekomi then .ipponOsaekomi else .ippon) i time) = _ := effect_ippon hcan
    have hrules : (MatchEventKind.awardIppon i time osaekomi).rules.effect r m = r.conclude
        (r.noteScore (r.updateStatus (m.setScore i (m.getScore i).withoutWazari) time) time i
          ((r.updateStatus (m.setScore i (m.getScore i).withoutWazari) time).getScore i).withIppon b event) time := by
      simp only [MatchEventKind.rules, EventRules.awardIppon, EventRules.cancelOsaekomiWazari, if_pos hcancel, hcall]
      exact heffect
    refine ⟨_, scoringStep_twice hrules ?_⟩
    rw [hdecides]
    exact (decided_setScore _ i _).2 (.inr (.inr (.inl rfl)))
  · obtain ⟨b, event, heffect⟩ : ∃ b event, (r.awardIppon m i time).bind
        (EventRules.record r (if osaekomi then .ipponOsaekomi else .ippon) i time) = _ := effect_ippon hguard
    have hrules : (MatchEventKind.awardIppon i time osaekomi).rules.effect r m =
        r.conclude (r.noteScore m time i (m.getScore i).withIppon b event) time := by
      simp only [MatchEventKind.rules, EventRules.awardIppon, EventRules.cancelOsaekomiWazari, if_neg hcancel]
      exact heffect
    refine ⟨_, scoringStep_noteScore hrules fun _ _ => ?_⟩
    rw [hdecides]
    exact (decided_setScore m i _).2 (.inr (.inr (.inl rfl)))

theorem exists_scoringStep {k : MatchEventKind} (htime : k.masterTime = some time) (hk : Scoring k = true)
    (hguard : k.rules.guard r m = true) : ∃ m₁, ScoringStep r m k time m₁ := by
  cases k with
  | awardIppon i time osaekomi =>
    cases htime
    exact scoringStep_awardIppon hguard
  | awardWazari i time osaekomi =>
    cases htime
    have hguard : (!(osaekomi && m.state.osaekomiWazari) && canAwardWazari m i) = true := hguard
    have hcheck : check .ruleset (canAwardWazari m i) = .ok () := check_ok.2 (Bool.and_eq_true_iff.1 hguard).2
    have hcall : r.awardWazari m i time = .ok (r.updateStatus (m.setScore i (m.getScore i).withWazari) time) := by
      rw [awardWazari, hcheck]
      rfl
    refine ⟨_, scoringStep_noteScore (effect_awardWazari hcall) fun _ hopen => ?_⟩
    obtain ⟨-, -, -, -, hwazari⟩ := decided_eq_false hopen i
    rw [Bool.eq_iff_iff, decided_setScore, decides, hguard, Score.withWazari]
    split
    · simp
    · simp [hwazari]
  | awardShido i time =>
    cases htime
    have hcheck : check .ruleset (canAwardShido m i) = .ok () := check_ok.2 hguard
    refine scoringStep_score rfl (by rw [awardShido, hcheck]; rfl) fun _ hopen => ?_
    obtain ⟨hown, hother, hippon, hippon', hwazari⟩ := decided_eq_false hopen i
    have hguard : canAwardShido m i = true := hguard
    rw [Bool.eq_iff_iff, decided_setScore, decides, hguard]
    have hiff : (m.getScore i).shido + 1 = 3 ↔ (m.getScore i).shido = 2 := by omega
    simp only [hiff, Bool.true_and, beq_iff_eq]
    split
    · next htwo => simp [htwo]
    · next htwo => simp [htwo, hown, hother, hippon, hippon', hwazari]
  | awardHansokuMake i time =>
    cases htime
    have hcheck : check .ruleset (canAwardHansokuMake m i) = .ok () := check_ok.2 hguard
    refine scoringStep_score rfl (by rw [awardHansokuMake, hcheck]; rfl) fun _ _ => ?_
    rw [decides, show canAwardHansokuMake m i = true from hguard]
    exact (decided_setScore m i _).2 (.inl rfl)
  | cancelIppon i time =>
    cases htime
    have hcheck : check .ruleset (canCancelIppon m i) = .ok () := check_ok.2 hguard
    refine scoringStep_score rfl (by rw [cancelIppon, hcheck]; rfl) fun hscores hopen => ?_
    -- A direct ippon would have decided the match before.
    have hippon := (hscores.score i).directIppon hguard
    rw [(decided_eq_false hopen i).2.2.1] at hippon
    cases hippon
  | cancelWazari i time =>
    cases htime
    have hcheck : check .ruleset (canCancelWazari m i) = .ok () := check_ok.2 hguard
    refine scoringStep_score rfl (by rw [cancelWazari, hcheck]; rfl) fun hscores hopen => ?_
    obtain ⟨-, -, hippon, -, hwazari⟩ := decided_eq_false hopen i
    have hguard : canCancelWazari m i = true := hguard
    have hone : (m.getScore i).wazari = 1 := by
      have hle := (hscores.score i).wazari
      simp only [canCancelWazari, hippon, Bool.false_and, Bool.or_false, decide_eq_true_eq] at hguard
      omega
    rw [Bool.eq_iff_iff, decided_setScore, decides, hguard, if_pos hone]
    simp [← hwazari, hone]
  | cancelShido i time =>
    cases htime
    have hcheck : check .ruleset (canCancelShido m i) = .ok () := check_ok.2 hguard
    refine scoringStep_score rfl (by rw [cancelShido, hcheck]; rfl) fun _ hopen => ?_
    obtain ⟨hown, hother, hippon, hippon', hwazari⟩ := decided_eq_false hopen i
    have hnot : decides m (.cancelShido i time) = false := rfl
    rw [hnot, Bool.eq_iff_iff, decided_setScore]
    simp [hown, hother, hippon, hippon', hwazari]
  | cancelHansokuMake i time =>
    cases htime
    have hcheck : check .ruleset (canCancelHansokuMake m i) = .ok () := check_ok.2 hguard
    refine scoringStep_score rfl (by rw [cancelHansokuMake, hcheck]; rfl) fun hscores hopen => ?_
    have hmake := (hscores.score i).hansokuMake.2 (.inl hguard)
    rw [(decided_eq_false hopen i).1] at hmake
    cases hmake
  | _ => cases hk

/-! ### The events -/

/-- An event that decides a match is an award or a cancellation that takes effect. -/
theorem scoring_of_decides {k : MatchEventKind} (h : decides m k = true) :
    Scoring k = true ∧ k.rules.guard r m = true := by
  cases k with
  | awardIppon i time osaekomi => exact ⟨rfl, h⟩
  | awardWazari i time osaekomi => exact ⟨rfl, h⟩
  | awardShido i time => exact ⟨rfl, (Bool.and_eq_true_iff.1 h).1⟩
  | awardHansokuMake i time => exact ⟨rfl, h⟩
  | cancelWazari i time => exact ⟨rfl, h⟩
  | _ => cases h

namespace Rescored

theorem contested (h : Rescored m m₁) (hm : m.Contested) : m₁.Contested := hm.congr h.bye h.players

theorem getStatus (h : Rescored m m₁) : m₁.getStatus = m.getStatus := by
  rw [MatchStore.getStatus, h.state]
  rfl

theorem osaekomi (h : Rescored m m₁) : m₁.state.osaekomi = m.state.osaekomi := by
  rw [h.state]

theorem clockSound (h : Rescored m m₁) (hclock : r.ClockSound m) : r.ClockSound m₁ := by
  refine hclock.congr h.getStatus ?_ ?_
  · rw [h.state]
  · rw [h.state]

theorem startedBy (h : Rescored m m₁) (hstart : StartedBy time m) : StartedBy time m₁ := by
  unfold StartedBy MatchStore.getStatus
  rw [h.state]
  exact hstart

theorem atBell (h : Rescored m m₁) : r.AtBell m₁ time ↔ r.AtBell m time := by
  unfold AtBell MatchStore.currentDuration
  rw [h.state]

end Rescored

theorem bellSound_scoring {k : MatchEventKind} (hm : m.Contested) (hclock : r.ClockSound m) (hscores : m.ScoresSound)
    (h : r.BellSound m) (hstart : StartedBy time m) (htime : k.masterTime = some time) (hk : Scoring k = true)
    (hok : ¬Untimely r m k) (hguard : k.rules.guard r m = true) (heffect : k.rules.effect r m = .ok m') :
    r.BellSound m' := by
  obtain ⟨m₁, hstep⟩ := exists_scoringStep htime hk hguard
  rw [hstep.effect] at heffect
  by_cases hunpaused : m.getStatus = .unpaused
  · obtain ⟨hscored, hdecided⟩ := hstep.running hunpaused
    refine bellSound_conclude (hscored.contested hm) (hscored.clockSound hclock) (hscored.startedBy hstart)
      (hscored.getStatus.trans hunpaused) (fun hbell hosaekomi => ?_) heffect
    have hbell := hscored.atBell.1 hbell
    have hosaekomi := hscored.osaekomi.symm.trans hosaekomi
    have hopen := h.undecided hunpaused hbell.1 hosaekomi
    rw [hdecided hscores hopen]
    by_contra hdecides
    exact hok ⟨time, htime, hbell, .inr ⟨hunpaused, hosaekomi, eq_true_of_ne_false hdecides⟩⟩
  · obtain ⟨hstopped, hbell⟩ := hstep.stopped hunpaused
    rw [conclude_of_stopped hstopped] at heffect
    cases heffect
    exact hbell

theorem stopOsaekomi_of_unpaused (h : m.getStatus = .unpaused) : r.stopOsaekomi m time = release m := by
  have hne : (release m).getStatus ≠ .paused := fun hpaused => by
    rw [show (release m).getStatus = m.getStatus from rfl, h] at hpaused
    cases hpaused
  exact if_neg fun hpaused => hne hpaused.1

theorem bellSound_stopOsaekomi (hm : m.Contested) (hclock : r.ClockSound m) (h : r.BellSound m)
    (hstart : StartedBy time m) (hok : ¬Untimely r m (.stopOsaekomi time)) (hguard : m.state.osaekomi.isSome = true)
    (heffect : r.conclude (r.stopOsaekomi m time) time = .ok m') : r.BellSound m' := by
  have hrelease : (release m).Contested := hm.congr rfl rfl
  have hscores : decided (release m) = decided m := decided_congr rfl
  have hopen : r.AtBell m time → decided m = false := fun hbell => by
    by_contra hdecided
    exact hok ⟨time, rfl, hbell, .inl ⟨rfl, hguard, eq_true_of_ne_false hdecided⟩⟩
  by_cases hunpaused : m.getStatus = .unpaused
  · rw [stopOsaekomi_of_unpaused hunpaused] at heffect
    exact bellSound_conclude hrelease (hclock.congr rfl rfl rfl) hstart hunpaused
      (fun hbell _ => hscores.trans (hopen hbell)) heffect
  · have hstopped : (release m).getStatus ≠ .unpaused := hunpaused
    have hm₁ : r.stopOsaekomi m time = if (release m).getStatus = .paused ∧ r.isFinished (release m) time then
        (release m).setStatus .finished else release m := rfl
    rw [hm₁] at heffect
    split at heffect
    · next hover =>
      have hend : ((release m).setStatus .finished).getStatus ≠ .unpaused := fun hrunning => nomatch hrunning
      rw [conclude_of_stopped hend] at heffect
      cases heffect
      refine bellSound_of_finished rfl fun _ hnormal => ?_
      by_contra hgolden
      have hgolden : m.state.goldenScore = true := eq_true_of_ne_false hgolden
      have hle : m.currentDuration time ≤ r.getNormalTime := by
        rw [currentDuration_of_stopped hunpaused]
        exact hnormal
      have hdecided := decided_of_stoppedWinner (winner_of_paused hrelease hover.1 hover.2)
      rw [hscores, hopen ⟨hgolden, hle⟩] at hdecided
      cases hdecided
    · rw [conclude_of_stopped hstopped] at heffect
      cases heffect
      exact ⟨h.timely, h.fresh, fun hrunning => absurd hrunning hstopped⟩

/-- An event that is not untimely keeps the match timely. -/
theorem BellSound.next {k : MatchEventKind} (hm : m.Contested) (hclock : r.ClockSound m) (hscores : m.ScoresSound)
    (h : r.BellSound m) (hstart : ∀ time ∈ k.masterTime, StartedBy time m) (hbye : k ≠ .setMatchBye true)
    (hok : ¬Untimely r m k) (hnext : k.next r m = some m') : r.BellSound m' := by
  obtain rfl | ⟨hguard, heffect⟩ := MatchEventKind.next_eq_some hnext
  · exact h
  by_cases hk : Scoring k = true
  · obtain ⟨time, htime⟩ : ∃ time, k.masterTime = some time := by
      cases k <;> first | exact ⟨_, rfl⟩ | cases hk
    exact bellSound_scoring hm hclock hscores h (hstart time htime) htime hk hok hguard heffect
  cases k with
  | pauseMatch time =>
    have hpause : r.pause m time = .ok m' := heffect
    have hunpaused := (pause_ok.1 hpause).1
    exact bellSound_pause hm (fun hbell hosaekomi => h.undecided hunpaused hbell.1 hosaekomi) hpause
  | resumeMatch time =>
    obtain ⟨hstopped, hopen, rfl⟩ := resume_ok.1 (show r.resume m time = .ok m' from heffect)
    refine ⟨by rintro ⟨⟩, by rintro ⟨⟩, fun _ hgolden hosaekomi => ?_⟩
    by_contra hdecided
    have hwinner := isSome_stoppedWinner (hclock.golden hgolden)
    have hfinished : r.isFinished m time = true :=
      (isFinished_of_stopped hm hstopped).2 ⟨hosaekomi, hwinner.trans (eq_true_of_ne_false hdecided)⟩
    rw [hopen] at hfinished
    cases hfinished
  | startOsaekomi i time =>
    simp only [MatchEventKind.rules, EventRules.startOsaekomi, except_bind_ok] at heffect
    obtain ⟨m₁, h₁, heffect⟩ := heffect
    obtain rfl : m₁ = hold m i time := by
      simp only [startOsaekomi, except_bind_ok, except_pure_ok] at h₁
      obtain ⟨_, _, rfl⟩ := h₁
      rfl
    split at heffect
    · obtain ⟨-, -, rfl⟩ := resume_ok.1 heffect
      exact ⟨by rintro ⟨⟩, by rintro ⟨⟩, by rintro _ _ ⟨⟩⟩
    · cases heffect
      exact ⟨h.timely, h.fresh, by rintro _ _ ⟨⟩⟩
  | stopOsaekomi time =>
    exact bellSound_stopOsaekomi hm hclock h (hstart time rfl) hok hguard heffect
  | setMatchBye bye =>
    cases bye with
    | true => exact absurd rfl hbye
    | false =>
      simp only [MatchEventKind.rules, EventRules.setMatchBye, hm.bye] at hguard
      cases hguard
  | _ => exact absurd rfl hk

/-- A clock that stops with a winner where no time has passed in golden score leaves the mark. -/
theorem exists_conclude (hm : m.Contested) (hclock : r.ClockSound m) (hstart : StartedBy time m)
    (hunpaused : m.getStatus = .unpaused) (hbell : r.AtBell m time) (hosaekomi : m.state.osaekomi = none)
    (hdecided : decided m = true) : ∃ m', r.conclude m time = .ok m' ∧ ¬r.Timely m' := by
  obtain ⟨hgolden, hnormal⟩ := hbell
  have hover := (hclock.golden hgolden).trans (le_currentDuration hstart hunpaused)
  have hcurrent : r.pausedDuration m time = m.currentDuration time := currentDuration_of_golden hgolden
  have hstop : (r.stop m time).Contested := hm.congr rfl rfl
  have hstopped : (r.stop m time).getStatus ≠ .unpaused := fun hrunning => nomatch hrunning
  have hlate : r.getNormalTime ≤ (r.stop m time).state.duration := hover.trans hcurrent.ge
  have hwinner : (r.stoppedWinner (r.stop m time)).isSome = true :=
    (isSome_stoppedWinner hlate).trans ((decided_congr rfl).trans hdecided)
  have hfinished : r.isFinished (r.stop m time) time = true :=
    (isFinished_of_stopped hstop hstopped).2 ⟨hosaekomi, hwinner⟩
  refine ⟨(r.stop m time).setStatus .finished, ?_, fun htimely => ?_⟩
  · rw [conclude, if_pos ((shouldPause_golden hm hunpaused hgolden hover).trans hdecided)]
    exact pause_ok.2 ⟨hunpaused, (if_pos hfinished).symm⟩
  · have hmark : m.state.goldenScore = false := htimely rfl (hcurrent.le.trans hnormal)
    rw [hgolden] at hmark
    cases hmark

/-- The end of the osaekomi that kept a decided match open leaves the mark. -/
theorem exists_stopOsaekomi (hm : m.Contested) (hclock : r.ClockSound m) (h : r.BellSound m) (hstart : StartedBy time m)
    (hbell : r.AtBell m time) (hdecided : decided m = true) :
    ∃ m', r.conclude (r.stopOsaekomi m time) time = .ok m' ∧ ¬r.Timely m' := by
  have hrelease : (release m).Contested := hm.congr rfl rfl
  have hscores : decided (release m) = decided m := decided_congr rfl
  by_cases hunpaused : m.getStatus = .unpaused
  · rw [stopOsaekomi_of_unpaused hunpaused]
    exact exists_conclude hrelease (hclock.congr rfl rfl rfl) hstart hunpaused hbell rfl (hscores.trans hdecided)
  · obtain ⟨hgolden, hnormal⟩ := hbell
    rw [currentDuration_of_stopped hunpaused] at hnormal
    have hpaused : m.getStatus = .paused := by
      cases hstatus : m.getStatus with
      | notStarted => exact absurd (h.fresh hstatus) (ne_of_eq_of_ne hgolden (by decide))
      | unpaused => exact absurd hstatus hunpaused
      | paused => rfl
      | finished => exact absurd (h.timely hstatus hnormal) (ne_of_eq_of_ne hgolden (by decide))
    have hwinner : (r.stoppedWinner (release m)).isSome = true := by
      have hover : r.getNormalTime ≤ (release m).state.duration := hclock.golden hgolden
      rw [isSome_stoppedWinner hover, hscores, hdecided]
    have hfinished : r.isFinished (release m) time = true :=
      (isFinished_of_stopped hrelease hunpaused).2 ⟨rfl, hwinner⟩
    have hend : r.stopOsaekomi m time = (release m).setStatus .finished := if_pos ⟨hpaused, hfinished⟩
    have hstopped : ((release m).setStatus .finished).getStatus ≠ .unpaused := fun hrunning => nomatch hrunning
    rw [hend]
    refine ⟨_, conclude_of_stopped hstopped, fun htimely => ?_⟩
    have hmark : m.state.goldenScore = false := htimely rfl hnormal
    rw [hgolden] at hmark
    cases hmark

/-- An untimely event leaves the mark. -/
theorem exists_not_timely {k : MatchEventKind} (hm : m.Contested) (hclock : r.ClockSound m) (hscores : m.ScoresSound)
    (h : r.BellSound m) (hstart : ∀ time ∈ k.masterTime, StartedBy time m) (hbad : Untimely r m k) :
    ∃ m', k.next r m = some m' ∧ ¬r.Timely m' := by
  obtain ⟨time, htime, hbell, ⟨rfl, hosaekomi, hdecided⟩ | ⟨hunpaused, hosaekomi, hdecides⟩⟩ := hbad
  · suffices hend : ∃ m', r.conclude (r.stopOsaekomi m time) time = .ok m' ∧ ¬r.Timely m' by
      obtain ⟨m', heffect, hnot⟩ := hend
      exact ⟨m', MatchEventKind.next_of_effect hosaekomi heffect, hnot⟩
    exact exists_stopOsaekomi hm hclock h (hstart time htime) hbell hdecided
  · obtain ⟨hk, hguard⟩ := scoring_of_decides (r := r) hdecides
    obtain ⟨m₁, hstep⟩ := exists_scoringStep htime hk hguard
    obtain ⟨hscored, hdecided⟩ := hstep.running hunpaused
    have hopen := h.undecided hunpaused hbell.1 hosaekomi
    obtain ⟨m', hend, hnot⟩ := exists_conclude (hscored.contested hm) (hscored.clockSound hclock)
      (hscored.startedBy (hstart time htime)) (hscored.getStatus.trans hunpaused) (hscored.atBell.2 hbell)
      (hscored.osaekomi.trans hosaekomi) ((hdecided hscores hopen).trans hdecides)
    exact ⟨m', MatchEventKind.next_of_effect hguard (hstep.effect.trans hend), hnot⟩

/-! ### Runs -/

theorem contested_next {k : MatchEventKind} (hm : m.Contested) (hbye : k ≠ .setMatchBye true)
    (hnext : k.next r m = some m') : m'.Contested := by
  obtain rfl | ⟨time, ht⟩ | ⟨i, time, -, -, -, rfl⟩ := next_cases hm hbye hnext
  · exact hm
  · obtain ⟨state, events, rfl⟩ := Touches.advances ht
    exact hm.congr rfl rfl
  · exact hm.congr rfl rfl

theorem scoresSound_next {k : MatchEventKind} (h : m.ScoresSound) (hnext : k.next r m = some m') : m'.ScoresSound := by
  obtain rfl | ⟨hguard, heffect⟩ := MatchEventKind.next_eq_some hnext
  · exact h
  · exact MatchEventKind.scoresSound_effect h hguard heffect

/-- What holds of a match before events in order of time. -/
structure BellRun (r : RulesetIdentifier) (es : List MatchEventKind) (m : MatchStore) : Prop where
  contested : m.Contested
  clock : r.ClockSound m
  scores : m.ScoresSound
  bell : r.BellSound m
  started : ∀ time ∈ es.filterMap MatchEventKind.masterTime, StartedBy time m
  times : (es.filterMap MatchEventKind.masterTime).Pairwise (· ≤ ·)
  noBye : .setMatchBye true ∉ es

theorem bellRun_init {id : CombinedId} {type : MatchType} {title : String} {white blue : PlayerId}
    {es : List MatchEventKind} (htimes : (es.filterMap MatchEventKind.masterTime).Pairwise (· ≤ ·))
    (hbye : .setMatchBye true ∉ es) : r.BellRun es (.init id type title false (some white) (some blue)) where
  contested := contested_init id type title white blue
  clock := clockSound_init id type title false (some white) (some blue)
  scores := MatchStore.scoresSound_init id type title false (some white) (some blue)
  bell := ⟨fun hfinished => (nomatch hfinished), fun _ => rfl, fun hrunning => (nomatch hrunning)⟩
  started := fun _ _ => startedBy_of_stopped fun hrunning => (nomatch hrunning)
  times := htimes
  noBye := hbye

theorem BellRun.next {k : MatchEventKind} {es : List MatchEventKind} (h : r.BellRun (k :: es) m)
    (hok : ¬Untimely r m k) (hnext : k.next r m = some m') : r.BellRun es m' := by
  have hne : k ≠ .setMatchBye true := fun hk => h.noBye (hk ▸ List.mem_cons_self)
  have hnow : ∀ time ∈ k.masterTime, StartedBy time m := fun time hk =>
    h.started time (MatchEventKind.mem_masterTimes_cons.2 (.inl hk))
  obtain ⟨hfirst, htimes⟩ := MatchEventKind.masterTimes_cons h.times
  obtain ⟨hclock, -, hstart⟩ := h.clock.next hnow hnext
  refine ⟨contested_next h.contested hne hnext, hclock, scoresSound_next h.scores hnext,
    h.bell.next h.contested h.clock h.scores hnow hne hok hnext, fun time he => ?_, htimes,
    fun hmem => h.noBye (List.mem_cons_of_mem _ hmem)⟩
  exact hstart time (fun time' hk => hfirst time' hk time he)
    (h.started time (MatchEventKind.mem_masterTimes_cons.2 (.inr he)))

/-- In every state of a run of events on a fresh match with two players that is never made a bye, whose master
times do not decrease, a finished match whose stored duration is at most the normal time is not marked golden
score if and only if no event is untimely. -/
theorem timely_iff (r : RulesetIdentifier) {id : CombinedId} {type : MatchType} {title : String}
    {white blue : PlayerId} {es : List MatchEventKind} (hbye : .setMatchBye true ∉ es)
    (htimes : (es.filterMap MatchEventKind.masterTime).Pairwise (· ≤ ·)) :
    Runs.Guarded (MatchEventKind.next r) (fun m k => ¬Untimely r m k) es
        (.init id type title false (some white) (some blue)) ↔
      ∀ es₁ m, es₁ <+: es →
        Runs.run (MatchEventKind.next r) es₁ (.init id type title false (some white) (some blue)) =
        some m → m.getStatus = .finished → m.state.duration ≤ r.getNormalTime →
          m.state.goldenScore = false := by
  refine Runs.guarded_iff_of_rest (fun es m (h : r.BellRun es m) => h.bell.timely) ?_ ?_ (bellRun_init htimes hbye)
  · exact fun k es m m' h hok hnext => h.next hok hnext
  · intro k es m h hbad
    exact exists_not_timely h.contested h.clock h.scores h.bell
      (fun time hk => h.started time (MatchEventKind.mem_masterTimes_cons.2 (.inl hk))) (not_not.1 hbad)

/-- White leads by a wazari when normal time ends under an osaekomi of blue, which then ends without a score. -/
def bellEvents : List MatchEventKind :=
  [.resumeMatch 0, .awardWazari .white 1000 false, .startOsaekomi .blue 235000, .pauseMatch 240000,
    .stopOsaekomi 243000]

theorem timely_iff_bell :
    Runs.Guarded (MatchEventKind.next .twentyEighteen) (fun m k => ¬Untimely .twentyEighteen m k) bellEvents
        (.init ⟨⟨1⟩, ⟨0⟩⟩ .elimination "" false (some ⟨1⟩) (some ⟨2⟩)) ↔
      ∀ es₁ m, es₁ <+: bellEvents → Runs.run (MatchEventKind.next .twentyEighteen) es₁
        (.init ⟨⟨1⟩, ⟨0⟩⟩ .elimination "" false (some ⟨1⟩) (some ⟨2⟩)) = some m →
          m.getStatus = .finished →
          m.state.duration ≤ getNormalTime .twentyEighteen → m.state.goldenScore = false :=
  timely_iff .twentyEighteen (by decide) (by decide)

/-- White has won in normal time, and the match is marked golden score. -/
theorem not_timely_bell :
    .setMatchBye true ∉ bellEvents ∧ (bellEvents.filterMap MatchEventKind.masterTime).Pairwise (· ≤ ·) ∧
      ∃ m, Runs.run (MatchEventKind.next .twentyEighteen) bellEvents
        (.init ⟨⟨1⟩, ⟨0⟩⟩ .elimination "" false (some ⟨1⟩) (some ⟨2⟩)) = some m ∧
        m.getStatus = .finished ∧ m.state.duration ≤ getNormalTime .twentyEighteen ∧
          m.state.goldenScore = true := by
  have hrun : (Runs.run (MatchEventKind.next .twentyEighteen) bellEvents
      (.init ⟨⟨1⟩, ⟨0⟩⟩ .elimination "" false (some ⟨1⟩) (some ⟨2⟩))).map
        (fun m => (m.getStatus, m.state.duration, m.state.goldenScore)) = some (.finished, 240000, true) := by decide
  obtain ⟨m, hm, hends⟩ := Option.map_eq_some_iff.1 hrun
  obtain ⟨hfinished, hends⟩ := Prod.mk.inj hends
  obtain ⟨hduration, hgolden⟩ := Prod.mk.inj hends
  exact ⟨by decide, by decide, m, hm, hfinished, hduration.le, hgolden⟩

end RulesetIdentifier

end JudoAssistant
