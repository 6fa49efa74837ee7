import JudoAssistant.Lib.Avoids
import JudoAssistant.Tournament.Clock
import JudoAssistant.Tournament.Scores

/-!
# Match events that fail

A match event checks its first ruleset operation before it is run.  Some events go on with a second operation,
which asserts its own condition.  The only one that can fail is the `resume` at the end of `StartOsaekomiAction`:
it is not done for a bye.
-/

namespace JudoAssistant

open Effect Exec RulesetIdentifier

variable {r : RulesetIdentifier} {m : MatchStore} {i : PlayerIndex} {time : ℤ}

/-! ### Events that return -/

namespace EventRules

theorem exists_pause (h : r.shouldPause m time = true) : ∃ m', r.pause m time = .ok m' := by
  have hunpaused : m.getStatus = .unpaused := by
    by_contra hstopped
    rw [shouldPause, if_pos hstopped] at h
    cases h
  exact ⟨_, pause_ok.2 ⟨hunpaused, rfl⟩⟩

theorem exists_record (r : RulesetIdentifier) (type : MatchEventType) (i : PlayerIndex) (time : ℤ) (m : MatchStore) :
    ∃ m', record r type i time m = .ok m' := by
  unfold record
  simp only
  split
  · next hpause => exact exists_pause hpause
  · exact ⟨_, rfl⟩

theorem exists_score {can : MatchStore → PlayerIndex → Bool} {type : MatchEventType}
    {change : RulesetIdentifier → MatchStore → PlayerIndex → ℤ → Except Failure MatchStore}
    (h : ∃ m₁, change r m i time = .ok m₁) : ∃ m', (score can change type i time).effect r m = .ok m' := by
  obtain ⟨m₁, h₁⟩ := h
  obtain ⟨m', h'⟩ := exists_record r type i time m₁
  exact ⟨m', except_bind_ok.2 ⟨m₁, h₁, h'⟩⟩

/-- After the wazari of the osaekomi has been taken back an ippon is still possible. -/
theorem exists_awardIppon {osaekomi : Bool} (hcan : canAwardIppon m i = true) :
    ∃ m', (awardIppon i time osaekomi).effect r m = .ok m' := by
  obtain ⟨m₁, h₁, hcan₁⟩ : ∃ m₁, cancelOsaekomiWazari r m i time = .ok m₁ ∧
      canAwardIppon m₁ i = true := by
    unfold cancelOsaekomiWazari
    split
    · next hback =>
      have hcancel : r.cancelWazari m i time = .ok _ :=
        except_bind_ok.2 ⟨(), check_ok.2 (Bool.and_eq_true_iff.1 hback).2, rfl⟩
      exact ⟨_, hcancel, canAwardIppon_cancelWazari hcan hcancel⟩
    · exact ⟨m, rfl, hcan⟩
  have hippon : r.awardIppon m₁ i time = .ok _ := except_bind_ok.2 ⟨(), check_ok.2 hcan₁, rfl⟩
  obtain ⟨m', h'⟩ := exists_record r (if osaekomi then .ipponOsaekomi else .ippon) i time _
  exact ⟨m', except_bind_ok.2 ⟨m₁, h₁, except_bind_ok.2 ⟨_, hippon, h'⟩⟩⟩

theorem exists_awardWazari {osaekomi : Bool} (hcan : canAwardWazari m i = true) :
    ∃ m', (awardWazari i time osaekomi).effect r m = .ok m' := by
  have hcall : r.awardWazari m i time = .ok _ := except_bind_ok.2 ⟨(), check_ok.2 hcan, rfl⟩
  obtain ⟨m', h'⟩ := exists_record r (if osaekomi then .wazariOsaekomi else .wazari) i time _
  exact ⟨m', except_bind_ok.2 ⟨_, hcall, h'⟩⟩

theorem exists_stopOsaekomi : ∃ m', (stopOsaekomi time).effect r m = .ok m' := by
  unfold stopOsaekomi
  simp only
  split
  · next hpause => exact exists_pause hpause
  · exact ⟨_, rfl⟩

end EventRules

/-! ### The event that fails -/

/-- An assertion of another component. -/
theorem check_ne {component : Component} {b : Bool} (hne : component ≠ .ruleset) :
    check component b ≠ .error (.assertion .ruleset) := by
  intro h
  cases b with
  | true => cases h
  | false =>
    cases h
    exact hne rfl

/-- The event starts an osaekomi on a bye whose clock stands, and whose time is not over. -/
def MatchEventKind.resumesBye (r : RulesetIdentifier) (m : MatchStore) : MatchEventKind → Bool
  | startOsaekomi _ _ => m.bye &&
    decide (m.getStatus ≠ .unpaused ∧ (m.state.duration < r.getNormalTime ∨ m.state.goldenScore))
  | _ => false

/-- With an osaekomi only a bye counts as finished. -/
theorem RulesetIdentifier.isFinished_of_osaekomi (h : m.state.osaekomi.isSome = true) :
    r.isFinished m time = m.bye := by
  unfold isFinished
  cases m.bye with
  | true => rfl
  | false =>
    rw [if_neg Bool.false_ne_true, if_pos h]
    split
    · rfl
    · split
      · rfl
      · split <;> rfl

theorem EventRules.startOsaekomi_effect (hcan : canStartOsaekomi m i = true) :
    (startOsaekomi i time).effect r m =
      if m.getStatus ≠ .unpaused ∧ (m.state.duration < r.getNormalTime ∨ m.state.goldenScore) then
        r.resume ((m.setOsaekomi (some (i, time))).setOsaekomiWazari false) time
      else .ok ((m.setOsaekomi (some (i, time))).setOsaekomiWazari false) := by
  have hstart : RulesetIdentifier.startOsaekomi m i time =
      .ok ((m.setOsaekomi (some (i, time))).setOsaekomiWazari false) := by
    unfold RulesetIdentifier.startOsaekomi
    rw [hcan]
    rfl
  show (RulesetIdentifier.startOsaekomi m i time >>= _) = _
  rw [hstart]
  rfl

theorem EventRules.startOsaekomi_eq_error (hcan : canStartOsaekomi m i = true) :
    (startOsaekomi i time).effect r m = .error (.assertion .ruleset) ↔
      (MatchEventKind.startOsaekomi i time).resumesBye r m = true := by
  rw [startOsaekomi_effect hcan]
  unfold MatchEventKind.resumesBye
  split
  · next hresume =>
    have hosaekomi : r.isFinished ((m.setOsaekomi (some (i, time))).setOsaekomiWazari false) time = m.bye :=
      isFinished_of_osaekomi rfl
    have hstatus : ((m.setOsaekomi (some (i, time))).setOsaekomiWazari false).getStatus = m.getStatus := rfl
    unfold resume canResume
    rw [hosaekomi, hstatus, decide_eq_true hresume]
    cases m.bye with
    | true => simp [check]
    | false => simp [check, hresume.1]
  · next hstay =>
    rw [decide_eq_false hstay]
    simp

/-- An event whose check succeeds fails by an assertion of the ruleset only if it resumes a bye. -/
theorem MatchEventKind.effect_eq_error {kind : MatchEventKind} (hguard : kind.rules.guard r m = true) :
    kind.rules.effect r m = .error (.assertion .ruleset) ↔ kind.resumesBye r m = true := by
  have hreturns (h : ∃ m', kind.rules.effect r m = .ok m') :
      kind.rules.effect r m ≠ .error (.assertion .ruleset) := by
    obtain ⟨m', hm'⟩ := h
    rw [hm']
    exact fun herror => nomatch herror
  have hchecked {change : MatchStore} {can : Bool} (hcan : can = true) :
      (do check .ruleset can; return change : Except Failure MatchStore) = .ok change :=
    except_bind_ok.2 ⟨(), check_ok.2 hcan, rfl⟩
  cases kind with
  | awardIppon i time osaekomi => exact iff_of_false (hreturns (EventRules.exists_awardIppon hguard)) Bool.false_ne_true
  | awardWazari i time osaekomi =>
    have hcan : canAwardWazari m i = true := (Bool.and_eq_true_iff.1 hguard).2
    exact iff_of_false (hreturns (EventRules.exists_awardWazari hcan)) Bool.false_ne_true
  | awardShido i time =>
    exact iff_of_false (hreturns (EventRules.exists_score ⟨_, hchecked hguard⟩)) Bool.false_ne_true
  | awardHansokuMake i time =>
    exact iff_of_false (hreturns (EventRules.exists_score ⟨_, hchecked hguard⟩)) Bool.false_ne_true
  | cancelIppon i time =>
    exact iff_of_false (hreturns (EventRules.exists_score ⟨_, hchecked hguard⟩)) Bool.false_ne_true
  | cancelWazari i time =>
    exact iff_of_false (hreturns (EventRules.exists_score ⟨_, hchecked hguard⟩)) Bool.false_ne_true
  | cancelShido i time =>
    exact iff_of_false (hreturns (EventRules.exists_score ⟨_, hchecked hguard⟩)) Bool.false_ne_true
  | cancelHansokuMake i time =>
    exact iff_of_false (hreturns (EventRules.exists_score ⟨_, hchecked hguard⟩)) Bool.false_ne_true
  | pauseMatch time =>
    have hpause : r.pause m time = .ok _ := pause_ok.2 ⟨of_decide_eq_true hguard, rfl⟩
    exact iff_of_false (hreturns ⟨_, hpause⟩) Bool.false_ne_true
  | resumeMatch time =>
    exact iff_of_false (hreturns ⟨_, hchecked hguard⟩) Bool.false_ne_true
  | startOsaekomi i time => exact EventRules.startOsaekomi_eq_error hguard
  | stopOsaekomi time => exact iff_of_false (hreturns EventRules.exists_stopOsaekomi) Bool.false_ne_true
  | setMatchBye bye =>
    refine iff_of_false ?_ Bool.false_ne_true
    exact except_bind_ne (check_ne (by decide)) fun _ _ h => nomatch h

end JudoAssistant
