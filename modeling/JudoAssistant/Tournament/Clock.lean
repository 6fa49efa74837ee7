import Mathlib.Logic.Relation
import JudoAssistant.Lib.Run
import JudoAssistant.Tournament.Specs

/-!
# The clock and the status of a match

A match event is a chain of touches: a score is written and the status updated, the clock is stopped or
started, an osaekomi begins or ends, or the event is noted.  What every touch keeps holds of a match
after any sequence of events.
-/

namespace JudoAssistant

open Effect
open Exec (check_ok)

/-! ### Events on one match -/

namespace MatchEventKind

/-- The master time of an event. -/
def masterTime : MatchEventKind → Option ℤ
  | awardIppon _ time _ | awardWazari _ time _ | awardShido _ time | awardHansokuMake _ time => some time
  | cancelIppon _ time | cancelWazari _ time | cancelShido _ time | cancelHansokuMake _ time => some time
  | pauseMatch time | resumeMatch time | startOsaekomi _ time | stopOsaekomi time => some time
  | setMatchBye _ => none

theorem mem_masterTimes_cons {k : MatchEventKind} {es : List MatchEventKind} {time : ℤ} :
    time ∈ (k :: es).filterMap masterTime ↔ time ∈ k.masterTime ∨ time ∈ es.filterMap masterTime := by
  simp only [List.mem_filterMap, List.mem_cons, exists_eq_or_imp, Option.mem_def]

/-- The first of events in order of time comes before the others. -/
theorem masterTimes_cons {k : MatchEventKind} {es : List MatchEventKind}
    (h : ((k :: es).filterMap masterTime).Pairwise (· ≤ ·)) :
    (∀ time ∈ k.masterTime, ∀ time' ∈ es.filterMap masterTime, time ≤ time') ∧
      (es.filterMap masterTime).Pairwise (· ≤ ·) := by
  cases hk : k.masterTime with
  | none =>
    rw [List.filterMap_cons_none hk] at h
    exact ⟨fun time hmem => (nomatch hmem), h⟩
  | some time =>
    rw [List.filterMap_cons_some hk, List.pairwise_cons] at h
    refine ⟨fun time₁ hmem time' he => ?_, h.2⟩
    cases hmem
    exact h.1 time' he

/-- What an event does to its match.  Where its guard fails, it leaves the match alone. -/
def next (r : RulesetIdentifier) (m : MatchStore) (k : MatchEventKind) : Option MatchStore :=
  if k.rules.guard r m then (k.rules.effect r m).toOption else some m

theorem effect_of_next {r : RulesetIdentifier} {m m' : MatchStore} {k : MatchEventKind}
    (hguard : k.rules.guard r m = true) (h : next r m k = some m') : k.rules.effect r m = .ok m' := by
  rw [next, if_pos hguard] at h
  cases heffect : k.rules.effect r m with
  | error e =>
    rw [heffect] at h
    cases h
  | ok m₁ =>
    rw [heffect] at h
    cases h
    rfl

theorem next_eq_some {r : RulesetIdentifier} {m m' : MatchStore} {k : MatchEventKind} (h : next r m k = some m') :
    m' = m ∨ k.rules.guard r m = true ∧ k.rules.effect r m = .ok m' := by
  by_cases hguard : k.rules.guard r m = true
  · exact .inr ⟨hguard, effect_of_next hguard h⟩
  · rw [next, if_neg hguard] at h
    cases h
    exact .inl rfl

theorem next_of_effect {r : RulesetIdentifier} {m m' : MatchStore} {k : MatchEventKind}
    (hguard : k.rules.guard r m = true) (heffect : k.rules.effect r m = .ok m') : next r m k = some m' := by
  rw [next, if_pos hguard, heffect]
  rfl

end MatchEventKind

/-- A match with two players that is no bye. -/
structure MatchStore.Contested (m : MatchStore) : Prop where
  bye : m.bye = false
  players : ∀ i, (m.getPlayer i).isSome = true

theorem MatchStore.Contested.congr {m m' : MatchStore} (hm : m.Contested) (hbye : m'.bye = m.bye)
    (hplayers : m'.players = m.players) : m'.Contested := by
  refine ⟨hbye.trans hm.bye, fun i => ?_⟩
  rw [getPlayer, hplayers]
  exact hm.players i

theorem MatchStore.Contested.isNone {m : MatchStore} (hm : m.Contested) (i : PlayerIndex) :
    (m.getPlayer i).isNone = false :=
  Option.isNone_eq_false_iff.2 (hm.players i)

/-- The match has another state and more events. -/
def MatchStore.Advances (m m' : MatchStore) : Prop :=
  ∃ state events, m' = (m.setState state).setEvents (m.events ++ events)

theorem MatchStore.Advances.refl (m : MatchStore) : m.Advances m := by
  refine ⟨m.state, [], ?_⟩
  rw [List.append_nil]
  rfl

theorem MatchStore.Advances.trans {m₁ m₂ m₃ : MatchStore} (h : m₁.Advances m₂) (h' : m₂.Advances m₃) :
    m₁.Advances m₃ := by
  obtain ⟨state, events, rfl⟩ := h
  obtain ⟨state', events', rfl⟩ := h'
  refine ⟨state', events ++ events', ?_⟩
  rw [← List.append_assoc]
  rfl

namespace RulesetIdentifier

variable {r : RulesetIdentifier} {m m' : MatchStore} {i : PlayerIndex} {time : ℤ}

/-! ### The winner without the clock -/

/-- The winner of a match whose clock is stopped. -/
def stoppedWinner (r : RulesetIdentifier) (m : MatchStore) : Option PlayerIndex :=
  match decidedWinner m with
  | some i => some i
  | none => if r.getNormalTime ≤ m.state.duration then wazariWinner m else none

theorem currentDuration_of_stopped (h : m.getStatus ≠ .unpaused) (time : ℤ) :
    m.currentDuration time = m.state.duration := if_pos h

theorem getWinnerAt_of_stopped (hm : m.Contested) (h : m.getStatus ≠ .unpaused) (time : ℤ) :
    r.getWinnerAt m time = r.stoppedWinner m := by
  rw [getWinnerAt, hm.isNone, hm.isNone, currentDuration_of_stopped h]
  rfl

theorem getWinner_of_finished (hm : m.Contested) (h : m.getStatus = .finished)
    (hsome : (r.stoppedWinner m).isSome = true) : getWinner m = .ok (r.stoppedWinner m) := by
  have hcheck : check .ruleset (m.getStatus == .finished) = .ok () := by
    rw [h]
    rfl
  rw [getWinner, hm.isNone, hm.isNone, hcheck]
  unfold stoppedWinner at hsome ⊢
  cases hdecided : decidedWinner m with
  | some i => rfl
  | none =>
    rw [hdecided] at hsome
    simp only at hsome ⊢
    split at hsome
    · next hnormal =>
      rw [if_pos hnormal]
      rfl
    · cases hsome

theorem isSome_decidedWinner_of_hansokuMake
    (h : ((m.getScore .white).hansokuMake || (m.getScore .blue).hansokuMake) = true) :
    (decidedWinner m).isSome = true := by
  unfold decidedWinner
  rw [Bool.or_eq_true] at h
  split
  · rfl
  · next hblue =>
    rw [if_pos (h.resolve_right hblue)]
    rfl

/-- A match whose clock is stopped is finished if it has a winner and no osaekomi is running. -/
theorem isFinished_of_stopped (hm : m.Contested) (h : m.getStatus ≠ .unpaused) :
    r.isFinished m time = true ↔ m.state.osaekomi = none ∧ (r.stoppedWinner m).isSome = true := by
  rw [isFinished, hm.bye, hm.isNone, hm.isNone, if_neg h, getWinnerAt_of_stopped hm h]
  simp only [Bool.false_eq_true, if_false]
  cases hosaekomi : m.state.osaekomi with
  | some o => simp
  | none =>
    simp only [Option.isSome_none, Bool.false_eq_true, if_false, true_and]
    split
    · next hmake =>
      have hdecided := isSome_decidedWinner_of_hansokuMake hmake
      refine ⟨fun _ => ?_, fun _ => rfl⟩
      obtain ⟨i, hi⟩ := Option.isSome_iff_exists.1 hdecided
      rw [stoppedWinner, hi]
      rfl
    · rfl

/-! ### Touches -/

/-- The match after an osaekomi has begun. -/
def hold (m : MatchStore) (i : PlayerIndex) (time : ℤ) : MatchStore :=
  (m.setOsaekomi (some (i, time))).setOsaekomiWazari false

/-- The match after an osaekomi has ended. -/
def release (m : MatchStore) : MatchStore := (m.setOsaekomi none).setOsaekomiWazari false

/-- An osaekomi that begins on a finished match does not start the clock again: normal time is over, and
there is no golden score. -/
def Overdue (r : RulesetIdentifier) (m : MatchStore) : Prop :=
  m.getStatus = .finished ∧ r.getNormalTime ≤ m.state.duration ∧ m.state.goldenScore = false

instance (r : RulesetIdentifier) (m : MatchStore) : Decidable (Overdue r m) :=
  inferInstanceAs (Decidable (_ ∧ _ ∧ _))

/-- One change of a match at some master time. -/
inductive Touch (r : RulesetIdentifier) (time : ℤ) : MatchStore → MatchStore → Prop
  | score (m : MatchStore) (i : PlayerIndex) (s : Score) : Touch r time m (r.updateStatus (m.setScore i s) time)
  | pause {m m' : MatchStore} (h : r.pause m time = .ok m') : Touch r time m m'
  | resume {m m' : MatchStore} (h : r.resume m time = .ok m') : Touch r time m m'
  | hold {m : MatchStore} (i : PlayerIndex) (h : m.getStatus = .unpaused ∨
      m.getStatus ≠ .finished ∧ r.getNormalTime ≤ m.state.duration) : Touch r time m (hold m i time)
  | holdResumed {m : MatchStore} (i : PlayerIndex) (h : m.getStatus ≠ .unpaused)
      (hopen : r.isFinished (RulesetIdentifier.hold m i time) time = false) :
      Touch r time m (((RulesetIdentifier.hold m i time).setResumeTime time).setStatus .unpaused)
  | stopOsaekomi {m : MatchStore} (h : m.state.osaekomi.isSome = true) : Touch r time m (r.stopOsaekomi m time)
  | note (m : MatchStore) (events : List MatchEvent) (osaekomiWazari : Bool) :
      Touch r time m ((m.setEvents (m.events ++ events)).setOsaekomiWazari osaekomiWazari)

/-- Changes of a match at one master time. -/
abbrev Touches (r : RulesetIdentifier) (time : ℤ) : MatchStore → MatchStore → Prop :=
  Relation.ReflTransGen (Touch r time)

namespace Touch

/-- A score that is written after a check. -/
theorem of_write {b : Bool} {s : Score} (h : (do
      check .ruleset b
      return r.updateStatus (m.setScore i s) time : Except Failure MatchStore) = .ok m') : Touch r time m m' := by
  simp only [except_bind_ok, except_pure_ok] at h
  obtain ⟨_, _, rfl⟩ := h
  exact .score m i s

theorem pushEvent (event : MatchEvent) : Touch r time m (m.pushEvent event) :=
  .note m [event] m.state.osaekomiWazari

theorem setOsaekomiWazari (b : Bool) : Touch r time m (m.setOsaekomiWazari b) := by
  have hnote : Touch r time m _ := .note m [] b
  rwa [List.append_nil] at hnote

end Touch

/-- The clock stops if it should. -/
theorem touches_of_shouldPause
    (h : (if r.shouldPause m time then r.pause m time else .ok m) = .ok m') : Touches r time m m' := by
  split at h
  · exact .single (.pause h)
  · cases h
    exact .refl

theorem touches_record {type : MatchEventType} (h : EventRules.record r type i time m = .ok m') :
    Touches r time m m' :=
  .head (.pushEvent _) (touches_of_shouldPause h)

/-- An award or a cancellation is a chain of touches if the change of the score is one. -/
theorem touches_score {can : MatchStore → PlayerIndex → Bool}
    {change : RulesetIdentifier → MatchStore → PlayerIndex → ℤ → Except Failure MatchStore}
    {type : MatchEventType} (hchange : ∀ m', change r m i time = .ok m' → Touch r time m m')
    (h : (EventRules.score can change type i time).effect r m = .ok m') : Touches r time m m' := by
  simp only [EventRules.score, except_bind_ok] at h
  obtain ⟨m₁, h₁, h⟩ := h
  exact .head (hchange m₁ h₁) (touches_record h)

theorem touches_awardIppon {osaekomi : Bool} (h : (EventRules.awardIppon i time osaekomi).effect r m = .ok m') :
    Touches r time m m' := by
  simp only [EventRules.awardIppon, except_bind_ok] at h
  obtain ⟨m₁, h₁, m₂, h₂, h⟩ := h
  have hcancel : Touches r time m m₁ := by
    unfold EventRules.cancelOsaekomiWazari at h₁
    split at h₁
    · exact .single (.of_write h₁)
    · cases h₁
      exact .refl
  exact hcancel.trans (.head (.of_write h₂) (touches_record h))

theorem touches_awardWazari {osaekomi : Bool} (h : (EventRules.awardWazari i time osaekomi).effect r m = .ok m') :
    Touches r time m m' := by
  simp only [EventRules.awardWazari, except_bind_ok] at h
  obtain ⟨m₁, h₁, h⟩ := h
  refine .head (.of_write h₁) ?_
  split at h
  · exact .head (.setOsaekomiWazari true) (touches_record h)
  · exact touches_record h

/-- An osaekomi that begins is one touch, except on a finished match that is overdue. -/
theorem touches_startOsaekomi (h : (EventRules.startOsaekomi i time).effect r m = .ok m') :
    Touches r time m m' ∨ Overdue r m ∧ m' = hold m i time := by
  simp only [EventRules.startOsaekomi, except_bind_ok] at h
  obtain ⟨m₁, h₁, h⟩ := h
  have hm₁ : m₁ = hold m i time := by
    simp only [startOsaekomi, except_bind_ok, except_pure_ok] at h₁
    obtain ⟨_, _, rfl⟩ := h₁
    rfl
  subst hm₁
  split at h
  · next hresume =>
    simp only [resume, except_bind_ok, check_ok, canResume, Bool.and_eq_true, Bool.not_eq_true', except_pure_ok] at h
    obtain ⟨_, hcan, rfl⟩ := h
    exact .inl (.single (.holdResumed i hresume.1 hcan.2))
  · next hstay =>
    cases h
    by_cases hunpaused : m.getStatus = .unpaused
    · exact .inl (.single (.hold i (.inl hunpaused)))
    · rw [not_and_or, not_not] at hstay
      have hover := hstay.resolve_left hunpaused
      rw [not_or, not_lt, Bool.not_eq_true] at hover
      by_cases hfinished : m.getStatus = .finished
      · exact .inr ⟨⟨hfinished, hover⟩, rfl⟩
      · exact .inl (.single (.hold i (.inr ⟨hfinished, hover.1⟩)))

/-- An event with a master time is a chain of touches, or the beginning of an osaekomi on a match that is
overdue. -/
theorem touches_effect {k : MatchEventKind} (htime : k.masterTime = some time) (hguard : k.rules.guard r m = true)
    (h : k.rules.effect r m = .ok m') :
    Touches r time m m' ∨ ∃ i, k = .startOsaekomi i time ∧ Overdue r m ∧ m' = hold m i time := by
  cases k with
  | setMatchBye bye => cases htime
  | startOsaekomi i time =>
    cases htime
    exact (touches_startOsaekomi h).imp_right fun hoverdue => ⟨i, rfl, hoverdue⟩
  | awardIppon i time osaekomi =>
    cases htime
    exact .inl (touches_awardIppon h)
  | awardWazari i time osaekomi =>
    cases htime
    exact .inl (touches_awardWazari h)
  | awardShido i time =>
    cases htime
    exact .inl (touches_score (fun _ => .of_write) h)
  | awardHansokuMake i time =>
    cases htime
    exact .inl (touches_score (fun _ => .of_write) h)
  | cancelIppon i time =>
    cases htime
    exact .inl (touches_score (fun _ => .of_write) h)
  | cancelWazari i time =>
    cases htime
    exact .inl (touches_score (fun _ => .of_write) h)
  | cancelShido i time =>
    cases htime
    exact .inl (touches_score (fun _ => .of_write) h)
  | cancelHansokuMake i time =>
    cases htime
    exact .inl (touches_score (fun _ => .of_write) h)
  | pauseMatch time =>
    cases htime
    exact .inl (.single (.pause h))
  | resumeMatch time =>
    cases htime
    exact .inl (.single (.resume h))
  | stopOsaekomi time =>
    cases htime
    exact .inl (.head (.stopOsaekomi hguard) (touches_of_shouldPause h))

/-! ### The clock and golden score -/

/-- Golden score agrees with the duration. -/
structure ClockSound (r : RulesetIdentifier) (m : MatchStore) : Prop where
  golden : m.state.goldenScore = true → r.getNormalTime ≤ m.state.duration
  normal : m.state.goldenScore = false → m.state.duration ≤ r.getNormalTime
  paused : m.getStatus = .paused → r.getNormalTime ≤ m.state.duration → m.state.goldenScore = true

/-- A running clock was started at the given time or before. -/
def StartedBy (time : ℤ) (m : MatchStore) : Prop := m.getStatus = .unpaused → m.state.resumeTime ≤ time

theorem StartedBy.mono {time' : ℤ} (h : StartedBy time m) (htime : time ≤ time') : StartedBy time' m :=
  fun hunpaused => (h hunpaused).trans htime

theorem startedBy_of_stopped (h : m.getStatus ≠ .unpaused) : StartedBy time m := fun hunpaused => absurd hunpaused h

/-- Only the status, golden score and the duration matter. -/
theorem ClockSound.congr (h : r.ClockSound m) (hstatus : m'.getStatus = m.getStatus)
    (hgolden : m'.state.goldenScore = m.state.goldenScore) (hduration : m'.state.duration = m.state.duration) :
    r.ClockSound m' := by
  constructor
  · rw [hgolden, hduration]
    exact h.golden
  · rw [hgolden, hduration]
    exact h.normal
  · rw [hstatus, hgolden, hduration]
    exact h.paused

theorem ClockSound.of_not_paused (h : r.ClockSound m) (hstatus : m'.getStatus ≠ .paused)
    (hgolden : m'.state.goldenScore = m.state.goldenScore) (hduration : m'.state.duration = m.state.duration) :
    r.ClockSound m' := by
  refine ⟨?_, ?_, fun hpaused => absurd hpaused hstatus⟩
  · rw [hgolden, hduration]
    exact h.golden
  · rw [hgolden, hduration]
    exact h.normal

theorem duration_updateStatus (r : RulesetIdentifier) (m : MatchStore) (time : ℤ) :
    (r.updateStatus m time).state.duration = m.state.duration := by
  unfold updateStatus
  split
  · rfl
  · split <;> simp only <;> split <;> rfl

theorem ClockSound.updateStatus (h : r.ClockSound m) : r.ClockSound (r.updateStatus m time) := by
  unfold RulesetIdentifier.updateStatus
  split
  · exact h
  · next hstopped =>
    have hfinished : (m.setStatus .finished).currentDuration time = m.state.duration :=
      currentDuration_of_stopped (m := m.setStatus .finished) (show MatchStatus.finished ≠ .unpaused by decide) time
    have hpaused : (m.setStatus .paused).currentDuration time = m.state.duration :=
      currentDuration_of_stopped (m := m.setStatus .paused) (show MatchStatus.paused ≠ .unpaused by decide) time
    split
    · simp only [hfinished]
      split
      · next hle => exact ⟨fun hgolden => (nomatch hgolden), fun _ => hle, fun hpaused => (nomatch hpaused)⟩
      · exact h.of_not_paused (show MatchStatus.finished ≠ .paused by decide) rfl rfl
    · simp only [hpaused]
      split
      · next hle => exact ⟨fun _ => hle, fun hgolden => (nomatch hgolden), fun _ _ => rfl⟩
      · next hle => exact ⟨h.golden, h.normal, fun _ hover => absurd hover hle⟩

theorem StartedBy.updateStatus {time' : ℤ} (h : StartedBy time' m) : StartedBy time' (r.updateStatus m time) := by
  unfold RulesetIdentifier.updateStatus
  split
  · exact h
  · split <;> simp only <;> split <;> exact fun hunpaused => (nomatch hunpaused)

/-- The duration that `pause` stores. -/
def pausedDuration (r : RulesetIdentifier) (m : MatchStore) (time : ℤ) : ℤ :=
  if r.getNormalTime < m.currentDuration time ∧ !m.state.goldenScore then r.getNormalTime
  else m.currentDuration time

/-- Stop the clock without a look at the winner. -/
def stop (r : RulesetIdentifier) (m : MatchStore) (time : ℤ) : MatchStore :=
  (m.setDuration (r.pausedDuration m time)).setStatus .paused

theorem pause_ok : r.pause m time = .ok m' ↔ m.getStatus = .unpaused ∧
    m' = if r.isFinished (r.stop m time) time then (r.stop m time).setStatus .finished
      else if r.getNormalTime ≤ r.pausedDuration m time then (r.stop m time).setGoldenScore true
      else r.stop m time := by
  have hpause : r.pause m time = (do
      check .ruleset (canPause m)
      return if r.isFinished (r.stop m time) time then (r.stop m time).setStatus .finished
        else if r.getNormalTime ≤ r.pausedDuration m time then (r.stop m time).setGoldenScore true
        else r.stop m time) := by
    unfold pause
    refine congrArg _ (funext fun _ => ?_)
    show (if r.isFinished (r.stop m time) time then _
      else if r.getNormalTime ≤ r.pausedDuration m time then _ else _) = _
    split
    · rfl
    · split <;> rfl
  simp only [hpause, except_bind_ok, check_ok, canPause, decide_eq_true_eq, except_pure_ok]
  constructor
  · rintro ⟨_, hcan, h⟩
    exact ⟨hcan, h.symm⟩
  · rintro ⟨hcan, h⟩
    exact ⟨(), hcan, h.symm⟩

theorem resume_ok : r.resume m time = .ok m' ↔ m.getStatus ≠ .unpaused ∧ r.isFinished m time = false ∧
    m' = (m.setResumeTime time).setStatus .unpaused := by
  simp only [resume, except_bind_ok, check_ok, canResume, Bool.and_eq_true, decide_eq_true_eq, Bool.not_eq_true',
    except_pure_ok]
  constructor
  · rintro ⟨_, ⟨hstopped, hcan⟩, h⟩
    exact ⟨hstopped, hcan, h.symm⟩
  · rintro ⟨hstopped, hcan, h⟩
    exact ⟨(), ⟨hstopped, hcan⟩, h.symm⟩

theorem le_currentDuration (hstart : StartedBy time m) (hunpaused : m.getStatus = .unpaused) :
    m.state.duration ≤ m.currentDuration time := by
  have hresume := hstart hunpaused
  have hcurrent : m.currentDuration time = time - m.state.resumeTime + m.state.duration :=
    if_neg (not_not.2 hunpaused)
  omega

theorem le_pausedDuration (h : r.ClockSound m) (hstart : StartedBy time m) (hunpaused : m.getStatus = .unpaused) :
    m.state.duration ≤ r.pausedDuration m time := by
  unfold pausedDuration
  split
  · next hcap =>
    apply h.normal
    simpa using hcap.2
  · exact le_currentDuration hstart hunpaused

theorem ClockSound.pause (h : r.ClockSound m) (hstart : StartedBy time m) (hpause : r.pause m time = .ok m') :
    r.ClockSound m' ∧ StartedBy time m' ∧ m.state.duration ≤ m'.state.duration := by
  obtain ⟨hunpaused, rfl⟩ := pause_ok.1 hpause
  have hle := le_pausedDuration h hstart hunpaused
  have hgolden : m.state.goldenScore = true → r.getNormalTime ≤ r.pausedDuration m time :=
    fun hgolden => (h.golden hgolden).trans hle
  have hnormal : m.state.goldenScore = false → r.pausedDuration m time ≤ r.getNormalTime := by
    intro hgolden
    unfold pausedDuration
    split
    · exact le_rfl
    · next hcap =>
      rw [hgolden, not_and_or, not_lt] at hcap
      exact hcap.resolve_right fun hfalse => hfalse rfl
  split
  · exact ⟨⟨hgolden, hnormal, fun hpaused => (nomatch hpaused)⟩, fun hunpaused => (nomatch hunpaused), hle⟩
  · split
    · next hover =>
      exact ⟨⟨fun _ => hover, fun hgolden => (nomatch hgolden), fun _ _ => rfl⟩,
        fun hunpaused => (nomatch hunpaused), hle⟩
    · next hover =>
      exact ⟨⟨hgolden, hnormal, fun _ hover' => absurd hover' hover⟩, fun hunpaused => (nomatch hunpaused), hle⟩

/-- A touch keeps golden score right and does not turn back the clock. -/
theorem ClockSound.touch (h : r.ClockSound m) (hstart : StartedBy time m) (ht : Touch r time m m') :
    r.ClockSound m' ∧ StartedBy time m' ∧ m.state.duration ≤ m'.state.duration := by
  cases ht with
  | score i s =>
    have hscore : r.ClockSound (m.setScore i s) := h.congr rfl rfl rfl
    exact ⟨hscore.updateStatus, .updateStatus hstart, (duration_updateStatus r _ time).ge⟩
  | pause ht => exact h.pause hstart ht
  | resume ht =>
    obtain ⟨-, -, rfl⟩ := resume_ok.1 ht
    exact ⟨h.of_not_paused (fun hpaused => nomatch hpaused) rfl rfl, fun _ => le_rfl, le_rfl⟩
  | hold i _ => exact ⟨h.congr rfl rfl rfl, hstart, le_rfl⟩
  | holdResumed i _ _ => exact ⟨h.of_not_paused (fun hpaused => nomatch hpaused) rfl rfl, fun _ => le_rfl, le_rfl⟩
  | stopOsaekomi _ =>
    unfold RulesetIdentifier.stopOsaekomi
    simp only
    split
    · exact ⟨h.of_not_paused (fun hpaused => nomatch hpaused) rfl rfl,
        fun hunpaused => (nomatch hunpaused), le_rfl⟩
    · exact ⟨h.congr rfl rfl rfl, hstart, le_rfl⟩
  | note events osaekomiWazari => exact ⟨h.congr rfl rfl rfl, hstart, le_rfl⟩

theorem ClockSound.touches (h : r.ClockSound m) (hstart : StartedBy time m) (ht : Touches r time m m') :
    r.ClockSound m' ∧ StartedBy time m' ∧ m.state.duration ≤ m'.state.duration := by
  induction ht with
  | refl => exact ⟨h, hstart, le_rfl⟩
  | tail _ ht ih =>
    obtain ⟨h₁, hstart₁, hle₁⟩ := ih
    obtain ⟨h₂, hstart₂, hle₂⟩ := h₁.touch hstart₁ ht
    exact ⟨h₂, hstart₂, hle₁.trans hle₂⟩

/-- An event keeps golden score right, if the clock was not started after it. -/
theorem ClockSound.next {k : MatchEventKind} (h : r.ClockSound m) (hstart : ∀ time ∈ k.masterTime, StartedBy time m)
    (hnext : k.next r m = some m') :
    r.ClockSound m' ∧ m.state.duration ≤ m'.state.duration ∧
      ∀ time', (∀ time ∈ k.masterTime, time ≤ time') → StartedBy time' m → StartedBy time' m' := by
  obtain rfl | ⟨hguard, heffect⟩ := MatchEventKind.next_eq_some hnext
  · exact ⟨h, le_rfl, fun _ _ hstart' => hstart'⟩
  cases htime : k.masterTime with
  | some time =>
    rw [htime] at hstart
    have hstart : StartedBy time m := hstart time rfl
    have hkept : r.ClockSound m' ∧ StartedBy time m' ∧ m.state.duration ≤ m'.state.duration := by
      obtain ht | ⟨i, -, -, rfl⟩ := touches_effect htime hguard heffect
      · exact h.touches hstart ht
      · exact ⟨h.congr rfl rfl rfl, hstart, le_rfl⟩
    obtain ⟨h', hstart', hle⟩ := hkept
    exact ⟨h', hle, fun time' hlater _ => hstart'.mono (hlater time rfl)⟩
  | none =>
    cases k with
    | setMatchBye bye =>
      simp only [MatchEventKind.rules, EventRules.setMatchBye, MatchStore.setBye, except_bind_ok,
        except_pure_ok] at heffect
      obtain ⟨_, _, rfl⟩ := heffect
      have hstatus : (if bye then MatchStatus.finished else .notStarted) ≠ .paused ∧
          (if bye then MatchStatus.finished else .notStarted) ≠ .unpaused := by
        cases bye <;> decide
      exact ⟨h.of_not_paused hstatus.1 rfl rfl, le_rfl, fun _ _ _ => startedBy_of_stopped hstatus.2⟩
    | _ => cases htime

/-- A run that is followed by more events. -/
theorem ClockSound.run {es es' : List MatchEventKind} (h : r.ClockSound m)
    (hstart : ∀ time ∈ (es ++ es').filterMap MatchEventKind.masterTime, StartedBy time m)
    (htimes : ((es ++ es').filterMap MatchEventKind.masterTime).Pairwise (· ≤ ·))
    (hrun : Runs.run (MatchEventKind.next r) es m = some m') :
    r.ClockSound m' ∧ m.state.duration ≤ m'.state.duration ∧
      ∀ time ∈ es'.filterMap MatchEventKind.masterTime, StartedBy time m' := by
  induction es generalizing m with
  | nil =>
    cases hrun
    exact ⟨h, le_rfl, hstart⟩
  | cons k es ih =>
    obtain ⟨m₁, hnext, hrun⟩ := Runs.run_cons hrun
    have hsorted : (∀ time ∈ k.masterTime, ∀ time' ∈ (es ++ es').filterMap MatchEventKind.masterTime,
      time ≤ time') ∧ _ :=
      MatchEventKind.masterTimes_cons htimes
    have hlater : ∀ time' ∈ (es ++ es').filterMap MatchEventKind.masterTime, StartedBy time' m :=
      fun time' he => hstart time' (MatchEventKind.mem_masterTimes_cons.2 (.inr he))
    obtain ⟨h₁, hle₁, hstart₁⟩ :=
      h.next (fun time hk => hstart time (MatchEventKind.mem_masterTimes_cons.2 (.inl hk))) hnext
    obtain ⟨h', hle', hstart'⟩ :=
      ih h₁ (fun time' he => hstart₁ time' (fun time hk => hsorted.1 time hk time' he)
      (hlater time' he)) hsorted.2 hrun
    exact ⟨h', hle₁.trans hle', hstart'⟩

theorem clockSound_init (id : CombinedId) (type : MatchType) (title : String) (bye : Bool)
    (white blue : Option PlayerId) : r.ClockSound (.init id type title bye white blue) := by
  have hnormal : 0 < r.getNormalTime := by cases r <;> decide
  refine ⟨fun hgolden => (nomatch hgolden), fun _ => hnormal.le, fun hpaused => ?_⟩
  cases bye <;> cases hpaused

/-- After any events on a fresh match whose master times do not decrease golden score agrees with the
duration, and whatever events follow, the duration does not decrease. -/
theorem clock_run (r : RulesetIdentifier) {id : CombinedId} {type : MatchType} {title : String} {bye : Bool}
    {white blue : Option PlayerId} {es es' : List MatchEventKind}
    (htimes : ((es ++ es').filterMap MatchEventKind.masterTime).Pairwise (· ≤ ·))
    (hrun : Runs.run (MatchEventKind.next r) es (.init id type title bye white blue) = some m)
    (hrun' : Runs.run (MatchEventKind.next r) es' m = some m') :
    (m.state.goldenScore = true → r.getNormalTime ≤ m.state.duration) ∧
      (m.state.goldenScore = false → m.state.duration ≤ r.getNormalTime) ∧
      (m.getStatus = .paused → r.getNormalTime ≤ m.state.duration → m.state.goldenScore = true) ∧
      m.state.duration ≤ m'.state.duration := by
  have hstopped : (MatchStore.init id type title bye white blue).getStatus ≠ .unpaused := by
    cases bye <;> exact fun hunpaused => (nomatch hunpaused)
  obtain ⟨h, -, hstart⟩ := (clockSound_init id type title bye white blue).run
    (fun _ _ => startedBy_of_stopped hstopped) htimes hrun
  have htimes' : ((es' ++ []).filterMap MatchEventKind.masterTime).Pairwise (· ≤ ·) := by
    rw [List.append_nil]
    rw [List.filterMap_append] at htimes
    exact (List.pairwise_append.1 htimes).2.1
  obtain ⟨-, hle, -⟩ := h.run (by rwa [List.append_nil]) htimes' hrun'
  exact ⟨h.golden, h.normal, h.paused, hle⟩

/-- A match that passes into golden score, and the events that follow there. -/
theorem clock_run_goldenScore :
    ∃ m m', Runs.run (MatchEventKind.next .twentyEighteen)
        [.resumeMatch 0, .awardShido .blue 200000, .pauseMatch 250000]
        (.init ⟨⟨1⟩, ⟨0⟩⟩ .elimination "" false (some ⟨1⟩) (some ⟨2⟩)) = some m ∧
      Runs.run (MatchEventKind.next .twentyEighteen)
        [.resumeMatch 260000, .startOsaekomi .white 265000, .awardWazari .white 280000 true] m = some m' ∧
      (m.state.goldenScore = true → getNormalTime .twentyEighteen ≤ m.state.duration) ∧
      (m.state.goldenScore = false → m.state.duration ≤ getNormalTime .twentyEighteen) ∧
      (m.getStatus = .paused → getNormalTime .twentyEighteen ≤ m.state.duration → m.state.goldenScore = true) ∧
      m.state.duration ≤ m'.state.duration := by
  have hrun : ((Runs.run (MatchEventKind.next .twentyEighteen)
      [.resumeMatch 0, .awardShido .blue 200000, .pauseMatch 250000]
      (.init ⟨⟨1⟩, ⟨0⟩⟩ .elimination "" false (some ⟨1⟩) (some ⟨2⟩))).bind fun m =>
        (Runs.run (MatchEventKind.next .twentyEighteen)
          [.resumeMatch 260000, .startOsaekomi .white 265000, .awardWazari .white 280000 true] m)).isSome = true := by
    decide
  obtain ⟨m', hm'⟩ := Option.isSome_iff_exists.1 hrun
  obtain ⟨m, hm, hm'⟩ := Option.bind_eq_some_iff.1 hm'
  exact ⟨m, m', hm, hm', clock_run .twentyEighteen (by decide) hm hm'⟩

/-! ### What a touch leaves -/

theorem advances_of_state (h : m' = m.setState m'.state) : m.Advances m' := by
  refine ⟨m'.state, [], ?_⟩
  rw [List.append_nil]
  exact h

/-- A touch writes the state of the match and may add events. -/
theorem Touch.advances (ht : Touch r time m m') : m.Advances m' := by
  cases ht with
  | score i s =>
    apply advances_of_state
    unfold updateStatus
    split
    · rfl
    · split <;> simp only <;> split <;> rfl
  | pause ht =>
    obtain ⟨-, rfl⟩ := pause_ok.1 ht
    apply advances_of_state
    split
    · rfl
    · split <;> rfl
  | resume ht =>
    obtain ⟨-, -, rfl⟩ := resume_ok.1 ht
    exact advances_of_state rfl
  | hold i _ => exact advances_of_state rfl
  | holdResumed i _ _ => exact advances_of_state rfl
  | stopOsaekomi _ =>
    apply advances_of_state
    unfold RulesetIdentifier.stopOsaekomi
    simp only
    split <;> rfl
  | note events osaekomiWazari => exact ⟨{ m.state with osaekomiWazari := osaekomiWazari }, events, rfl⟩

/-- No touch takes a match back to its beginning. -/
theorem Touch.notStarted (ht : Touch r time m m') (h : m'.getStatus = .notStarted) : m.getStatus = .notStarted := by
  cases ht with
  | score i s =>
    unfold updateStatus at h
    split at h
    · exact h
    · split at h <;> simp only at h <;> split at h <;> cases h
  | pause ht =>
    obtain ⟨-, rfl⟩ := pause_ok.1 ht
    split at h
    · cases h
    · split at h <;> cases h
  | resume ht =>
    obtain ⟨-, -, rfl⟩ := resume_ok.1 ht
    cases h
  | hold i _ => exact h
  | holdResumed i _ _ => cases h
  | stopOsaekomi _ =>
    unfold RulesetIdentifier.stopOsaekomi at h
    simp only at h
    split at h
    · cases h
    · exact h
  | note events osaekomiWazari => exact h

/-- A bye stays finished. -/
theorem Touch.bye (ht : Touch r time m m') (hbye : m.bye = true) (h : m.getStatus = .finished) :
    m'.getStatus = .finished := by
  have hfinished : ∀ m₁ : MatchStore, m₁.bye = true → r.isFinished m₁ time = true := fun m₁ h₁ => by
    rw [isFinished, h₁, if_pos rfl]
  cases ht with
  | score i s =>
    unfold updateStatus
    split
    · exact h
    · rw [if_pos (hfinished (m.setScore i s) hbye)]
      simp only
      split <;> rfl
  | pause ht =>
    rw [(pause_ok.1 ht).1] at h
    cases h
  | resume ht =>
    have hopen := (resume_ok.1 ht).2.1
    rw [hfinished m hbye] at hopen
    cases hopen
  | hold i _ => exact h
  | holdResumed i _ hopen =>
    rw [hfinished (RulesetIdentifier.hold m i time) hbye] at hopen
    cases hopen
  | stopOsaekomi _ =>
    unfold RulesetIdentifier.stopOsaekomi
    simp only
    split
    · rfl
    · exact h
  | note events osaekomiWazari => exact h

theorem Touches.advances (ht : Touches r time m m') : m.Advances m' := by
  induction ht with
  | refl => exact .refl m
  | tail _ ht ih => exact ih.trans ht.advances

theorem Touches.notStarted (ht : Touches r time m m') (h : m'.getStatus = .notStarted) : m.getStatus = .notStarted := by
  induction ht with
  | refl => exact h
  | tail _ ht ih => exact ih (ht.notStarted h)

theorem Touches.bye (ht : Touches r time m m') (hbye : m.bye = true) (h : m.getStatus = .finished) :
    m'.getStatus = .finished := by
  induction ht with
  | refl => exact h
  | tail hts ht ih =>
    obtain ⟨state, events, rfl⟩ := Touches.advances hts
    exact ht.bye hbye ih

/-- What an event with a master time leaves of its match. -/
structure Follows (m m' : MatchStore) : Prop where
  advances : m.Advances m'
  notStarted : m'.getStatus = .notStarted → m.getStatus = .notStarted
  bye : m.bye = true → m.getStatus = .finished → m'.getStatus = .finished

theorem follows_effect {k : MatchEventKind} (htime : k.masterTime = some time) (hguard : k.rules.guard r m = true)
    (h : k.rules.effect r m = .ok m') : Follows m m' := by
  obtain ht | ⟨i, -, -, rfl⟩ := touches_effect htime hguard h
  · exact ⟨Touches.advances ht, Touches.notStarted ht, Touches.bye ht⟩
  · exact ⟨advances_of_state rfl, fun hfresh => hfresh, fun _ hfinished => hfinished⟩

/-! ### The status -/

/-- The status says finished where the rules do. -/
structure StatusSound (r : RulesetIdentifier) (m : MatchStore) : Prop where
  contested : m.Contested
  fresh : m.getStatus = .notStarted → m.state.osaekomi = none ∧ m.state.duration < r.getNormalTime
  finished : m.getStatus = .finished ↔
    m.getStatus ≠ .unpaused ∧ m.state.osaekomi = none ∧ (r.stoppedWinner m).isSome = true

/-- A finished match has a winner. -/
structure WinnerSound (r : RulesetIdentifier) (m : MatchStore) : Prop where
  contested : m.Contested
  winner : m.getStatus = .finished → (r.stoppedWinner m).isSome = true

theorem contested_touch (hm : m.Contested) (ht : Touch r time m m') : m'.Contested := by
  obtain ⟨state, events, rfl⟩ := ht.advances
  exact hm.congr rfl rfl

theorem statusSound_of_unpaused (hm : m.Contested) (h : m.getStatus = .unpaused) : r.StatusSound m := by
  refine ⟨hm, fun hfresh => ?_, fun hfinished => ?_, fun hstopped => absurd h hstopped.1⟩
  · rw [h] at hfresh
    cases hfresh
  · rw [h] at hfinished
    cases hfinished

theorem statusSound_of_finished (hm : m.Contested) (h : m.getStatus = .finished) (hosaekomi : m.state.osaekomi = none)
    (hwinner : (r.stoppedWinner m).isSome = true) : r.StatusSound m := by
  refine ⟨hm, fun hfresh => ?_, fun _ => ⟨fun hunpaused => ?_, hosaekomi, hwinner⟩, fun _ => h⟩
  · rw [h] at hfresh
    cases hfresh
  · rw [h] at hunpaused
    cases hunpaused

theorem statusSound_of_paused (hm : m.Contested) (h : m.getStatus = .paused)
    (hopen : ¬(m.state.osaekomi = none ∧ (r.stoppedWinner m).isSome = true)) : r.StatusSound m := by
  refine ⟨hm, fun hfresh => ?_, fun hfinished => ?_, fun hover => absurd hover.2 hopen⟩
  · rw [h] at hfresh
    cases hfresh
  · rw [h] at hfinished
    cases hfinished

theorem winner_of_paused (hm : m.Contested) (hpaused : m.getStatus = .paused)
    (hfinished : r.isFinished m time = true) : (r.stoppedWinner m).isSome = true := by
  have hstopped : m.getStatus ≠ .unpaused := by
    rw [hpaused]
    decide
  exact ((isFinished_of_stopped hm hstopped).1 hfinished).2

theorem StatusSound.updateStatus (hm : m.Contested) : r.StatusSound (r.updateStatus m time) := by
  unfold RulesetIdentifier.updateStatus
  split
  · next hunpaused => exact statusSound_of_unpaused hm hunpaused
  · next hstopped =>
    have hover : r.isFinished m time = true ↔ _ := isFinished_of_stopped hm hstopped
    split
    · next hfinished =>
      obtain ⟨hosaekomi, hwinner⟩ := hover.1 hfinished
      simp only
      split <;> exact statusSound_of_finished (hm.congr rfl rfl) rfl hosaekomi hwinner
    · next hopen =>
      rw [hover] at hopen
      simp only
      split <;> exact statusSound_of_paused (hm.congr rfl rfl) rfl hopen

theorem StatusSound.pause (hm : m.Contested) (h : r.pause m time = .ok m') : r.StatusSound m' := by
  obtain ⟨-, rfl⟩ := pause_ok.1 h
  have hstop : (r.stop m time).Contested := hm.congr rfl rfl
  have hover : r.isFinished (r.stop m time) time = true ↔ _ :=
    isFinished_of_stopped hstop (fun hunpaused => nomatch hunpaused)
  split
  · next hfinished =>
    obtain ⟨hosaekomi, hwinner⟩ := hover.1 hfinished
    exact statusSound_of_finished (hm.congr rfl rfl) rfl hosaekomi hwinner
  · next hopen =>
    rw [hover] at hopen
    split <;> exact statusSound_of_paused (hm.congr rfl rfl) rfl hopen

/-- A touch keeps the status right. -/
theorem StatusSound.touch (h : r.StatusSound m) (ht : Touch r time m m') : r.StatusSound m' := by
  have hm' : m'.Contested := contested_touch h.contested ht
  cases ht with
  | score i s =>
    have hscore : (m.setScore i s).Contested := h.contested.congr rfl rfl
    exact .updateStatus hscore
  | pause ht => exact .pause h.contested ht
  | resume ht =>
    obtain ⟨-, -, rfl⟩ := resume_ok.1 ht
    exact statusSound_of_unpaused hm' rfl
  | hold i hhold =>
    obtain hunpaused | ⟨hopen, hover⟩ := hhold
    · exact statusSound_of_unpaused hm' hunpaused
    · refine ⟨hm', fun hfresh => absurd (h.fresh hfresh).2 hover.not_gt,
        fun hfinished => absurd hfinished hopen, ?_⟩
      rintro ⟨-, hosaekomi, -⟩
      cases hosaekomi
  | holdResumed i _ _ => exact statusSound_of_unpaused hm' rfl
  | stopOsaekomi hosaekomi =>
    have hsome : m.state.osaekomi ≠ none := Option.isSome_iff_ne_none.1 hosaekomi
    have hrelease : (release m).Contested := h.contested.congr rfl rfl
    show r.StatusSound (if (release m).getStatus = .paused ∧ r.isFinished (release m) time then
      (release m).setStatus .finished else release m)
    split
    · next hover =>
      have hwinner := winner_of_paused hrelease hover.1 hover.2
      exact statusSound_of_finished (hrelease.congr rfl rfl) rfl rfl hwinner
    · next hopen =>
      cases hstatus : m.getStatus with
      | notStarted => exact absurd (h.fresh hstatus).1 hsome
      | finished => exact absurd (h.finished.1 hstatus).2.1 hsome
      | unpaused => exact statusSound_of_unpaused hrelease hstatus
      | paused =>
        have hstopped : (release m).getStatus ≠ .unpaused :=
          hstatus ▸ (by decide : MatchStatus.paused ≠ .unpaused)
        rw [isFinished_of_stopped hrelease hstopped] at hopen
        exact statusSound_of_paused hrelease hstatus fun hover => hopen ⟨hstatus, hover⟩
  | note events osaekomiWazari => exact ⟨hm', h.fresh, h.finished⟩

theorem StatusSound.winnerSound (h : r.StatusSound m) : r.WinnerSound m :=
  ⟨h.contested, fun hfinished => (h.finished.1 hfinished).2.2⟩

/-- A touch keeps the winner of a finished match. -/
theorem WinnerSound.touch (h : r.WinnerSound m) (ht : Touch r time m m') : r.WinnerSound m' := by
  have hm' : m'.Contested := contested_touch h.contested ht
  cases ht with
  | score i s =>
    have hscore : (m.setScore i s).Contested := h.contested.congr rfl rfl
    exact (StatusSound.updateStatus hscore).winnerSound
  | pause ht => exact (StatusSound.pause h.contested ht).winnerSound
  | resume ht =>
    obtain ⟨-, -, rfl⟩ := resume_ok.1 ht
    exact ⟨hm', fun hfinished => (nomatch hfinished)⟩
  | hold i _ => exact ⟨hm', h.winner⟩
  | holdResumed i _ _ => exact ⟨hm', fun hfinished => (nomatch hfinished)⟩
  | stopOsaekomi hosaekomi =>
    have hrelease : (release m).Contested := h.contested.congr rfl rfl
    show r.WinnerSound (if (release m).getStatus = .paused ∧ r.isFinished (release m) time then
      (release m).setStatus .finished else release m)
    split
    · next hover =>
      have hwinner := winner_of_paused hrelease hover.1 hover.2
      exact ⟨hrelease.congr rfl rfl, fun _ => hwinner⟩
    · exact ⟨hrelease, h.winner⟩
  | note events osaekomiWazari => exact ⟨hm', h.winner⟩

theorem StatusSound.touches (h : r.StatusSound m) (ht : Touches r time m m') : r.StatusSound m' := by
  induction ht with
  | refl => exact h
  | tail _ ht ih => exact ih.touch ht

theorem WinnerSound.touches (h : r.WinnerSound m) (ht : Touches r time m m') : r.WinnerSound m' := by
  induction ht with
  | refl => exact h
  | tail _ ht ih => exact ih.touch ht

/-- Only an event without a master time can make a bye, and it cannot take back what a match never was. -/
theorem next_cases {k : MatchEventKind} (hm : m.Contested) (hbye : k ≠ .setMatchBye true)
    (hnext : k.next r m = some m') : m' = m ∨ (∃ time, Touches r time m m') ∨
      ∃ i time, k = .startOsaekomi i time ∧ canStartOsaekomi m i = true ∧ Overdue r m ∧ m' = hold m i time := by
  obtain rfl | ⟨hguard, heffect⟩ := MatchEventKind.next_eq_some hnext
  · exact .inl rfl
  cases htime : k.masterTime with
  | some time =>
    obtain ht | ⟨i, rfl, hoverdue, rfl⟩ := touches_effect htime hguard heffect
    · exact .inr (.inl ⟨time, ht⟩)
    · exact .inr (.inr ⟨i, time, rfl, hguard, hoverdue, rfl⟩)
  | none =>
    cases k with
    | setMatchBye bye =>
      cases bye with
      | true => exact absurd rfl hbye
      | false =>
        simp only [MatchEventKind.rules, EventRules.setMatchBye, hm.bye] at hguard
        cases hguard
    | _ => cases htime

/-- An osaekomi may begin although the match is over and the clock does not start again. -/
def Held (r : RulesetIdentifier) (m : MatchStore) (k : MatchEventKind) : Prop :=
  ∃ i time, k = .startOsaekomi i time ∧ canStartOsaekomi m i = true ∧ Overdue r m

theorem WinnerSound.next {k : MatchEventKind} (h : r.WinnerSound m) (hbye : k ≠ .setMatchBye true)
    (hnext : k.next r m = some m') : r.WinnerSound m' := by
  obtain rfl | ⟨time, ht⟩ | ⟨i, time, -, -, -, rfl⟩ := next_cases h.contested hbye hnext
  · exact h
  · exact h.touches ht
  · exact ⟨h.contested.congr rfl rfl, h.winner⟩

theorem StatusSound.next {k : MatchEventKind} (h : r.StatusSound m) (hbye : k ≠ .setMatchBye true)
    (hheld : ¬Held r m k) (hnext : k.next r m = some m') : r.StatusSound m' := by
  obtain rfl | ⟨time, ht⟩ | ⟨i, time, hk, hcan, hoverdue, -⟩ := next_cases h.contested hbye hnext
  · exact h
  · exact h.touches ht
  · exact absurd ⟨i, time, hk, hcan, hoverdue⟩ hheld

/-- The status is finished if and only if the clock is stopped and the rules say that the match is over. -/
def StatusAgrees (r : RulesetIdentifier) (m : MatchStore) : Prop :=
  ∀ time, m.getStatus = .finished ↔ m.getStatus ≠ .unpaused ∧ r.isFinished m time = true

theorem StatusSound.agrees (h : r.StatusSound m) : r.StatusAgrees m := by
  intro time
  rw [h.finished]
  exact and_congr_right fun hstopped => (isFinished_of_stopped h.contested hstopped).symm

/-- An osaekomi that is held on a match that is overdue breaks the agreement. -/
theorem exists_disagrees {k : MatchEventKind} (h : r.StatusSound m) (hheld : Held r m k) :
    ∃ m', k.next r m = some m' ∧ ¬r.StatusAgrees m' := by
  obtain ⟨i, time, rfl, hcan, hfinished, hover, hgolden⟩ := hheld
  refine ⟨hold m i time, ?_, fun hagrees => ?_⟩
  · have heffect : (MatchEventKind.startOsaekomi i time).rules.effect r m = .ok (hold m i time) := by
      refine except_bind_ok.2 ⟨hold m i time, except_bind_ok.2 ⟨(), check_ok.2 hcan, rfl⟩, ?_⟩
      have hstay : ¬(m.state.duration < r.getNormalTime ∨ m.state.goldenScore = true) := by
        rw [hgolden, not_or, not_lt]
        exact ⟨hover, by decide⟩
      exact if_neg fun hresume => hstay hresume.2
    exact MatchEventKind.next_of_effect hcan heffect
  · have hcontested : (hold m i time).Contested := h.contested.congr rfl rfl
    obtain ⟨hstopped, hends⟩ := (hagrees time).1 hfinished
    have hosaekomi := ((isFinished_of_stopped hcontested hstopped).1 hends).1
    cases hosaekomi

theorem contested_init (id : CombinedId) (type : MatchType) (title : String) (white blue : PlayerId) :
    (MatchStore.init id type title false (some white) (some blue)).Contested :=
  ⟨rfl, fun i => by cases i <;> rfl⟩

theorem statusSound_init (id : CombinedId) (type : MatchType) (title : String) (white blue : PlayerId) :
    r.StatusSound (.init id type title false (some white) (some blue)) := by
  have hnormal : 0 < r.getNormalTime := by cases r <;> decide
  have hwinner : r.stoppedWinner (.init id type title false (some white) (some blue)) = none := if_neg hnormal.not_ge
  refine ⟨contested_init id type title white blue, fun _ => ⟨rfl, hnormal⟩,
    fun hfinished => (nomatch hfinished), ?_⟩
  rintro ⟨-, -, hsome⟩
  rw [hwinner] at hsome
  cases hsome

/-- In every state of a run of events on a fresh match with two players that is never made a bye, the status
agrees with the rules if and only if no osaekomi ever begins on a finished match whose normal time is over
and that is not in golden score. -/
theorem statusAgrees_iff (r : RulesetIdentifier) {id : CombinedId} {type : MatchType} {title : String}
    {white blue : PlayerId} {es : List MatchEventKind} (hbye : .setMatchBye true ∉ es) :
    Runs.Guarded (MatchEventKind.next r) (fun m k => ¬Held r m k) es
        (.init id type title false (some white) (some blue)) ↔
      ∀ es₁ m, es₁ <+: es →
        Runs.run (MatchEventKind.next r) es₁ (.init id type title false (some white) (some blue)) =
        some m → r.StatusAgrees m := by
  refine Runs.guarded_iff_forall_prefix (fun m (h : r.StatusSound m) => h.agrees) ?_ ?_
    (statusSound_init id type title white blue)
  · intro k hk m m' h hheld
    have hne : k ≠ .setMatchBye true := fun hk' => hbye (by rwa [hk'] at hk)
    exact h.next hne hheld
  · exact fun k _ m h hheld => exists_disagrees h (not_not.1 hheld)

/-- A match that white wins by a wazari at the end of normal time, and an osaekomi that then begins. -/
def overdueEvents : List MatchEventKind :=
  [.resumeMatch 0, .awardWazari .white 1000 false, .pauseMatch 300000, .startOsaekomi .blue 301000]

theorem statusAgrees_iff_overdue :
    Runs.Guarded (MatchEventKind.next .twentyEighteen) (fun m k => ¬Held .twentyEighteen m k) overdueEvents
        (.init ⟨⟨1⟩, ⟨0⟩⟩ .elimination "" false (some ⟨1⟩) (some ⟨2⟩)) ↔
      ∀ es₁ m, es₁ <+: overdueEvents → Runs.run (MatchEventKind.next .twentyEighteen) es₁
        (.init ⟨⟨1⟩, ⟨0⟩⟩ .elimination "" false (some ⟨1⟩) (some ⟨2⟩)) = some m →
          StatusAgrees .twentyEighteen m :=
  statusAgrees_iff .twentyEighteen (by decide)

/-- The match stays finished with an osaekomi running, although the rules do not say so. -/
theorem not_statusAgrees_overdue :
    .setMatchBye true ∉ overdueEvents ∧ (overdueEvents.filterMap MatchEventKind.masterTime).Pairwise (· ≤ ·) ∧
      ∃ m, Runs.run (MatchEventKind.next .twentyEighteen) overdueEvents
        (.init ⟨⟨1⟩, ⟨0⟩⟩ .elimination "" false (some ⟨1⟩) (some ⟨2⟩)) = some m ∧
        m.getStatus = .finished ∧ isFinished .twentyEighteen m 301000 = false ∧
          ¬StatusAgrees .twentyEighteen m := by
  have hrun : (Runs.run (MatchEventKind.next .twentyEighteen) overdueEvents
      (.init ⟨⟨1⟩, ⟨0⟩⟩ .elimination "" false (some ⟨1⟩) (some ⟨2⟩))).map
        (fun m => (m.getStatus, isFinished .twentyEighteen m 301000)) = some (.finished, false) := by decide
  obtain ⟨m, hm, hends⟩ := Option.map_eq_some_iff.1 hrun
  obtain ⟨hfinished, hopen⟩ := Prod.mk.inj hends
  refine ⟨by decide, by decide, m, hm, hfinished, hopen, fun hagrees => ?_⟩
  have hover := ((hagrees 301000).1 hfinished).2
  rw [hopen] at hover
  cases hover

/-- The two functions `getWinner` agree on every finished match. -/
theorem getWinner_run (r : RulesetIdentifier) {id : CombinedId} {type : MatchType} {title : String}
    {white blue : PlayerId} {es : List MatchEventKind} (hbye : .setMatchBye true ∉ es)
    (hrun : Runs.run (MatchEventKind.next r) es (.init id type title false (some white) (some blue)) = some m)
    (hfinished : m.getStatus = .finished) :
    ∃ i, getWinner m = .ok (some i) ∧ ∀ time, r.getWinnerAt m time = some i := by
  have hinv : r.WinnerSound m := by
    refine Runs.run_inv (fun m k m' (h : r.WinnerSound m) (hk : k ≠ .setMatchBye true) => h.next hk)
      (statusSound_init id type title white blue).winnerSound ?_ hrun
    have hne : ∀ k ∈ es, k ≠ .setMatchBye true := fun k hk hk' => hbye (by rwa [hk'] at hk)
    exact Runs.guarded_of_forall (fun k hk _ => hne k hk) _
  have hsome := hinv.winner hfinished
  obtain ⟨i, hi⟩ := Option.isSome_iff_exists.1 hsome
  refine ⟨i, ?_, fun time => ?_⟩
  · rw [getWinner_of_finished hinv.contested hfinished hsome, hi]
  · rw [getWinnerAt_of_stopped hinv.contested (by rw [hfinished]; decide), hi]

theorem getWinner_run_wazari :
    ∃ m, Runs.run (MatchEventKind.next .twentyEighteen) overdueEvents
        (.init ⟨⟨1⟩, ⟨0⟩⟩ .elimination "" false (some ⟨1⟩) (some ⟨2⟩)) = some m ∧
      ∃ i, getWinner m = .ok (some i) ∧ ∀ time, getWinnerAt .twentyEighteen m time = some i := by
  have hrun : (Runs.run (MatchEventKind.next .twentyEighteen) overdueEvents
      (.init ⟨⟨1⟩, ⟨0⟩⟩ .elimination "" false (some ⟨1⟩) (some ⟨2⟩))).map
        (·.getStatus) = some .finished := by decide
  obtain ⟨m, hm, hfinished⟩ := Option.map_eq_some_iff.1 hrun
  exact ⟨m, hm, getWinner_run .twentyEighteen (by decide) hm hfinished⟩

end RulesetIdentifier

/-! ### Events in the tournament -/

/-- The action of an event writes what the event does to the match, then tells the category. -/
theorem MatchEventAction.redoImpl_next {a a' : MatchEventAction} {t t' : TournamentStore} {c : CategoryStore}
    {m : MatchStore} (hc : t.categories a.combinedId.categoryId = some c)
    (hm : c.getMatch a.combinedId.matchId = .ok m) (hcontains : c.containsMatch a.combinedId.matchId = true)
    (h : a.redoImpl t = .ok a' t') :
    ∃ m', a.kind.next c.ruleset m = some m' ∧ (m' = m ∧ t' = t ∨ ∃ stack,
      notify (DrawAction.redo maxDrawDepth) a.combinedId m.getStatus a.drawActions
        (t.setCategory a.combinedId.categoryId (c.setMatch a.combinedId.matchId m')) = .ok stack t') := by
  have hfind : t.findMatch a.combinedId = some c := by
    rw [TournamentStore.findMatch, hc]
    exact if_pos hcontains
  simp only [redoImpl, redoWith, bind_ok, get_ok] at h
  obtain ⟨⟨saved, stack⟩, t₁, ⟨_, _, ⟨rfl, rfl⟩, h⟩, h'⟩ := h
  obtain ⟨-, rfl⟩ := pure_ok.1 h'
  rw [hfind] at h
  obtain ⟨m₀, t₂, hget, h⟩ := bind_ok.1 h
  obtain ⟨hm₀, rfl⟩ := lift_ok.1 hget
  rw [hm] at hm₀
  cases hm₀
  unfold MatchEventKind.next
  split at h
  · next hguard =>
    simp only [bind_ok, pure_ok] at h
    obtain ⟨_, t₃, hedit, stack₁, _, hnotify, -, rfl⟩ := h
    obtain ⟨c₀, c', hc₀, hwrite, rfl⟩ := Exec.editCategory_ok.1 hedit
    rw [hc] at hc₀
    cases hc₀
    simp only [hm, except_bind_ok, except_pure_ok] at hwrite
    obtain ⟨m₁, heq, m', heffect, rfl⟩ := hwrite
    cases heq
    rw [if_pos hguard, heffect]
    exact ⟨m', rfl, .inr ⟨stack₁, hnotify⟩⟩
  · next hguard =>
    rw [if_neg hguard]
    exact ⟨m, rfl, .inl ⟨rfl, (pure_ok.1 h).2.symm⟩⟩

end JudoAssistant
