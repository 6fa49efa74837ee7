import JudoAssistant.Lib.Run
import JudoAssistant.Tournament.Specs

/-!
# The scores of a match

A direct ippon or hansoku-make and one that comes of two wazaris or three shidos share a flag of the
score.  The operations of the ruleset, each done only where its predicate allows it, keep the two
apart.
-/

namespace JudoAssistant

open Effect

/-- The score of one player agrees with itself. -/
structure Score.Sound (s : Score) : Prop where
  wazari : s.wazari ≤ 1
  shido : s.shido ≤ 3
  directIppon : s.directIppon = true → s.ippon = true
  twoWazaris : s.ippon = true → s.directIppon = false → s.wazari = 0
  hansokuMake : s.hansokuMake = true ↔ s.directHansokuMake = true ∨ s.shido = 3

/-- Both scores are sound, and at most one player has won or is disqualified. -/
structure MatchStore.ScoresSound (m : MatchStore) : Prop where
  score : ∀ i, (m.getScore i).Sound
  ippon : ∀ i, (m.getScore i).ippon = true → (m.getScore i.other).ippon = false
  hansokuMake : ∀ i, (m.getScore i).hansokuMake = true → (m.getScore i.other).hansokuMake = false

theorem PlayerIndex.other_other (i : PlayerIndex) : i.other.other = i := by
  cases i <;> rfl

theorem PlayerIndex.eq_or_eq_other (i j : PlayerIndex) : j = i ∨ j = i.other := by
  cases i <;> cases j <;> decide

namespace MatchStore

variable {m m' : MatchStore} {i : PlayerIndex} {s : Score}

theorem getScore_setScore_self (m : MatchStore) (i : PlayerIndex) (s : Score) :
    (m.setScore i s).getScore i = s := by
  cases i <;> rfl

theorem getScore_setScore_other (m : MatchStore) (i : PlayerIndex) (s : Score) :
    (m.setScore i s).getScore i.other = m.getScore i.other := by
  cases i <;> rfl

theorem ScoresSound.of_scores (h : m.ScoresSound) (hscores : m'.state.scores = m.state.scores) :
    m'.ScoresSound := by
  have hget : m'.getScore = m.getScore := funext fun i => congrArg (ByPlayer.get · i) hscores
  exact ⟨by rw [hget]; exact h.score, by rw [hget]; exact h.ippon, by rw [hget]; exact h.hansokuMake⟩

/-- A flag that is written where the other player does not have it. -/
theorem exclusive_setScore {flag : Score → Bool}
    (hs : flag s = true → flag (m.getScore i.other) = false) (j : PlayerIndex)
    (hj : flag ((m.setScore i s).getScore j) = true) : flag ((m.setScore i s).getScore j.other) = false := by
  obtain rfl | rfl := i.eq_or_eq_other j
  · rw [getScore_setScore_self] at hj
    rw [getScore_setScore_other]
    exact hs hj
  · rw [getScore_setScore_other] at hj
    rw [PlayerIndex.other_other, getScore_setScore_self]
    by_contra hne
    rw [hs (by simpa using hne)] at hj
    cases hj

/-- Writing the score of one player. -/
theorem ScoresSound.setScore (h : m.ScoresSound) (hs : s.Sound)
    (hippon : s.ippon = true → (m.getScore i.other).ippon = false)
    (hhansokuMake : s.hansokuMake = true → (m.getScore i.other).hansokuMake = false) :
    (m.setScore i s).ScoresSound := by
  refine ⟨fun j => ?_, exclusive_setScore hippon, exclusive_setScore hhansokuMake⟩
  obtain rfl | rfl := i.eq_or_eq_other j
  · rwa [getScore_setScore_self]
  · rw [getScore_setScore_other]
    exact h.score i.other

theorem scoresSound_init (id : CombinedId) (type : MatchType) (title : String) (bye : Bool)
    (white blue : Option PlayerId) : (init id type title bye white blue).ScoresSound := by
  have hfresh : ∀ i, (init id type title bye white blue).getScore i = {} := fun i => by cases i <;> rfl
  refine ⟨fun i => ?_, fun i hi => ?_, fun i hi => ?_⟩
  · rw [hfresh]
    exact ⟨by decide, by decide, by decide, by decide, by decide⟩
  · rw [hfresh] at hi
    cases hi
  · rw [hfresh] at hi
    cases hi

end MatchStore

/-! ### What the operations leave -/

namespace RulesetIdentifier

variable {r : RulesetIdentifier} {m m' : MatchStore} {time : ℤ}

@[simp] theorem scores_updateStatus (r : RulesetIdentifier) (m : MatchStore) (time : ℤ) :
    (r.updateStatus m time).state.scores = m.state.scores := by
  unfold updateStatus
  split
  · rfl
  · split <;> simp only <;> split <;> rfl

theorem getScore_updateStatus (r : RulesetIdentifier) (m : MatchStore) (time : ℤ) :
    (r.updateStatus m time).getScore = m.getScore :=
  funext fun i => congrArg (ByPlayer.get · i) (scores_updateStatus r m time)

theorem scores_pause (h : r.pause m time = .ok m') : m'.state.scores = m.state.scores := by
  simp only [pause, except_bind_ok] at h
  obtain ⟨_, _, h⟩ := h
  repeat' split at h
  all_goals
    cases h
    rfl

theorem scores_resume (h : r.resume m time = .ok m') : m'.state.scores = m.state.scores := by
  simp only [resume, except_bind_ok, except_pure_ok] at h
  obtain ⟨_, _, rfl⟩ := h
  rfl

theorem scores_startOsaekomi {i : PlayerIndex} (h : startOsaekomi m i time = .ok m') :
    m'.state.scores = m.state.scores := by
  simp only [startOsaekomi, except_bind_ok, except_pure_ok] at h
  obtain ⟨_, _, rfl⟩ := h
  rfl

theorem scores_stopOsaekomi (r : RulesetIdentifier) (m : MatchStore) (time : ℤ) :
    (r.stopOsaekomi m time).state.scores = m.state.scores := by
  unfold stopOsaekomi
  simp only
  split <;> rfl

end RulesetIdentifier

/-! ### Ippon and wazari -/

/-- The score after a wazari. -/
def Score.withWazari (s : Score) : Score :=
  if s.wazari + 1 = 2 then { s with ippon := true, wazari := 0 } else { s with wazari := s.wazari + 1 }

/-- The score after an ippon. -/
def Score.withIppon (s : Score) : Score := { s with ippon := true, directIppon := true }

/-- The score after one wazari is taken back. -/
def Score.withoutWazari (s : Score) : Score :=
  if s.wazari = 1 then { s with wazari := 0 } else if s.ippon then { s with wazari := 1, ippon := false } else s

/-- A cancellation leaves an ippon possible. -/
theorem RulesetIdentifier.canAwardIppon_cancelWazari {r : RulesetIdentifier} {m m₁ : MatchStore} {i : PlayerIndex}
    {time : ℤ} (hcan : canAwardIppon m i = true) (h : r.cancelWazari m i time = .ok m₁) :
    canAwardIppon m₁ i = true := by
  obtain ⟨_, _, h⟩ := except_bind_ok.1 h
  obtain rfl := except_pure_ok.1 h
  rw [canAwardIppon, getScore_updateStatus, MatchStore.getScore_setScore_self, MatchStore.getScore_setScore_other]
  rw [canAwardIppon, Bool.and_eq_true, Bool.not_eq_true', Bool.not_eq_true'] at hcan
  have hippon : (m.getScore i).withoutWazari.ippon = false := by
    unfold Score.withoutWazari
    split
    · exact hcan.2
    · rw [if_neg (Bool.eq_false_iff.1 hcan.2)]
      exact hcan.2
  have hscore : (!(m.getScore i).withoutWazari.ippon) = true := by rw [hippon]; rfl
  rw [hcan.1]
  exact hscore

/-! ### Sequences of operations -/

/-- The operations of a ruleset on a match. -/
inductive RulesetOperation where
  | awardIppon (i : PlayerIndex)
  | cancelIppon (i : PlayerIndex)
  | awardWazari (i : PlayerIndex)
  | cancelWazari (i : PlayerIndex)
  | awardShido (i : PlayerIndex)
  | cancelShido (i : PlayerIndex)
  | awardHansokuMake (i : PlayerIndex)
  | cancelHansokuMake (i : PlayerIndex)
  | pause
  | resume
  | startOsaekomi (i : PlayerIndex)
  | stopOsaekomi
  deriving DecidableEq, Repr

namespace RulesetOperation

/-- The predicate of an award or a cancellation.  The clock and the osaekomi run freely. -/
def can (m : MatchStore) : RulesetOperation → Bool
  | awardIppon i => RulesetIdentifier.canAwardIppon m i
  | cancelIppon i => RulesetIdentifier.canCancelIppon m i
  | awardWazari i => RulesetIdentifier.canAwardWazari m i
  | cancelWazari i => RulesetIdentifier.canCancelWazari m i
  | awardShido i => RulesetIdentifier.canAwardShido m i
  | cancelShido i => RulesetIdentifier.canCancelShido m i
  | awardHansokuMake i => RulesetIdentifier.canAwardHansokuMake m i
  | cancelHansokuMake i => RulesetIdentifier.canCancelHansokuMake m i
  | pause | resume | startOsaekomi _ | stopOsaekomi => true

/-- What the operation does. -/
def run (r : RulesetIdentifier) (m : MatchStore) (time : ℤ) : RulesetOperation → Except Failure MatchStore
  | awardIppon i => r.awardIppon m i time
  | cancelIppon i => r.cancelIppon m i time
  | awardWazari i => r.awardWazari m i time
  | cancelWazari i => r.cancelWazari m i time
  | awardShido i => r.awardShido m i time
  | cancelShido i => r.cancelShido m i time
  | awardHansokuMake i => r.awardHansokuMake m i time
  | cancelHansokuMake i => r.cancelHansokuMake m i time
  | pause => r.pause m time
  | resume => r.resume m time
  | startOsaekomi i => RulesetIdentifier.startOsaekomi m i time
  | stopOsaekomi => .ok (r.stopOsaekomi m time)

/-- An operation at some time, if it may be done. -/
def next (r : RulesetIdentifier) (m : MatchStore) (op : RulesetOperation × ℤ) : Option MatchStore :=
  if op.1.can m then (op.1.run r m op.2).toOption else none

theorem next_eq_some {r : RulesetIdentifier} {m m' : MatchStore} {op : RulesetOperation × ℤ}
    (h : next r m op = some m') : op.1.can m = true ∧ op.1.run r m op.2 = .ok m' := by
  unfold next at h
  split at h
  · next hcan =>
    refine ⟨hcan, ?_⟩
    cases hrun : op.1.run r m op.2 with
    | error e =>
      rw [hrun] at h
      cases h
    | ok m₁ =>
      rw [hrun] at h
      cases h
      rfl
  · cases h

variable {r : RulesetIdentifier} {m m' : MatchStore} {i : PlayerIndex} {time : ℤ}

/-- A score is written and the status updated. -/
theorem scoresSound_write (hm : m.ScoresSound) {b : Bool} {s : Score} (hs : s.Sound)
    (hippon : s.ippon = true → (m.getScore i.other).ippon = false)
    (hhansokuMake : s.hansokuMake = true → (m.getScore i.other).hansokuMake = false)
    (h : (do
      check .ruleset b
      return r.updateStatus (m.setScore i s) time : Except Failure MatchStore) = .ok m') :
    m'.ScoresSound := by
  simp only [except_bind_ok, except_pure_ok] at h
  obtain ⟨_, _, rfl⟩ := h
  exact (hm.setScore hs hippon hhansokuMake).of_scores (RulesetIdentifier.scores_updateStatus r _ time)

/-- One operation keeps the scores sound. -/
theorem scoresSound_run {op : RulesetOperation} (hm : m.ScoresSound) (hcan : op.can m = true)
    (h : op.run r m time = .ok m') : m'.ScoresSound := by
  cases op with
  | awardIppon i =>
    have hs := hm.score i
    simp only [can, RulesetIdentifier.canAwardIppon, Bool.and_eq_true, Bool.not_eq_true'] at hcan
    refine scoresSound_write (s := { m.getScore i with ippon := true, directIppon := true }) hm ?_
      (fun _ => hcan.1) (hm.hansokuMake i) h
    exact ⟨hs.wazari, hs.shido, fun _ => rfl, fun _ hdirect => (nomatch hdirect), hs.hansokuMake⟩
  | cancelIppon i =>
    have hs := hm.score i
    refine scoresSound_write (s := { m.getScore i with directIppon := false, ippon := false }) hm ?_
      (fun hippon => nomatch hippon) (hm.hansokuMake i) h
    exact ⟨hs.wazari, hs.shido, fun hdirect => (nomatch hdirect), fun hippon => (nomatch hippon), hs.hansokuMake⟩
  | awardWazari i =>
    have hs := hm.score i
    simp only [can, RulesetIdentifier.canAwardWazari, Bool.and_eq_true, Bool.not_eq_true'] at hcan
    have hdirect : (m.getScore i).directIppon = false := by
      by_contra hne
      exact absurd (hs.directIppon (by simpa using hne)) (by simp [hcan.2])
    refine scoresSound_write hm ?_ (fun _ => hcan.1) ?_ h
    · have hle := hs.wazari
      split
      · exact ⟨by simp, hs.shido, fun _ => rfl, fun _ _ => rfl, hs.hansokuMake⟩
      · next hne =>
        have hne : (m.getScore i).wazari + 1 ≠ 2 := hne
        exact ⟨by simp only; omega, hs.shido, hs.directIppon, by simp [hcan.2], hs.hansokuMake⟩
    · split <;> exact hm.hansokuMake i
  | cancelWazari i =>
    have hs := hm.score i
    refine scoresSound_write hm ?_ ?_ ?_ h
    · split
      · exact ⟨by simp, hs.shido, hs.directIppon, fun _ _ => rfl, hs.hansokuMake⟩
      · split
        · next hne hippon =>
          simp only [can, RulesetIdentifier.canCancelWazari, Bool.or_eq_true, Bool.and_eq_true,
            decide_eq_true_eq, Bool.not_eq_true'] at hcan
          have hle := hs.wazari
          obtain hpos | ⟨-, hdirect⟩ := hcan
          · omega
          · exact ⟨le_rfl, hs.shido, by simp [hdirect], by simp, hs.hansokuMake⟩
        · exact hs
    · split
      · exact hm.ippon i
      · split
        · exact fun h => by cases h
        · exact hm.ippon i
    · split
      · exact hm.hansokuMake i
      · split <;> exact hm.hansokuMake i
  | awardShido i =>
    have hs := hm.score i
    simp only [can, RulesetIdentifier.canAwardShido, Bool.and_eq_true, Bool.not_eq_true'] at hcan
    have hnot : (m.getScore i).directHansokuMake = false ∧ (m.getScore i).shido ≠ 3 := by
      have hiff := hs.hansokuMake
      rw [hcan.1] at hiff
      simpa using hiff
    refine scoresSound_write hm ?_ ?_ (fun _ => hcan.2) h
    · have hle := hs.shido
      split
      · next h3 =>
        simp only at h3
        exact ⟨hs.wazari, by simp only; omega, hs.directIppon, hs.twoWazaris, by simp [h3]⟩
      · next h3 =>
        simp only at h3
        exact ⟨hs.wazari, by simp only; omega, hs.directIppon, hs.twoWazaris, by simp [h3, hcan.1, hnot.1]⟩
    · split <;> exact hm.ippon i
  | cancelShido i =>
    have hs := hm.score i
    simp only [can, RulesetIdentifier.canCancelShido, decide_eq_true_eq] at hcan
    have hle := hs.shido
    have hiff := hs.hansokuMake
    refine scoresSound_write hm ?_ ?_ ?_ h
    · simp only
      split
      · next hindirect =>
        simp only [Bool.and_eq_true, Bool.not_eq_true'] at hindirect
        refine ⟨hs.wazari, by simp only; omega, hs.directIppon, hs.twoWazaris, ?_⟩
        simp only [hindirect.2, Bool.false_eq_true, false_or, false_iff]
        omega
      · next hdirect =>
        refine ⟨hs.wazari, by simp only; omega, hs.directIppon, hs.twoWazaris, ?_⟩
        have hne : (m.getScore i).shido - 1 ≠ 3 := by omega
        cases hh : (m.getScore i).hansokuMake <;> cases hd : (m.getScore i).directHansokuMake <;>
          simp_all
    · split <;> exact hm.ippon i
    · split
      · exact fun h => by cases h
      · exact hm.hansokuMake i
  | awardHansokuMake i =>
    have hs := hm.score i
    simp only [can, RulesetIdentifier.canAwardHansokuMake, Bool.and_eq_true, Bool.not_eq_true'] at hcan
    refine scoresSound_write (s := { m.getScore i with hansokuMake := true, directHansokuMake := true })
      hm ?_ (hm.ippon i) (fun _ => hcan.2) h
    exact ⟨hs.wazari, hs.shido, hs.directIppon, hs.twoWazaris, by simp⟩
  | cancelHansokuMake i =>
    have hs := hm.score i
    simp only [can, RulesetIdentifier.canCancelHansokuMake] at hcan
    have hmake : (m.getScore i).hansokuMake = true := hs.hansokuMake.2 (.inl hcan)
    have hle := hs.shido
    refine scoresSound_write hm ?_ ?_ ?_ h
    · simp only
      split
      · next hless =>
        have hne : (m.getScore i).shido ≠ 3 := by omega
        exact ⟨hs.wazari, hs.shido, hs.directIppon, hs.twoWazaris, by simp [hne]⟩
      · next hless =>
        have h3 : (m.getScore i).shido = 3 := by omega
        exact ⟨hs.wazari, hs.shido, hs.directIppon, hs.twoWazaris, by simp [h3, hmake]⟩
    · split <;> exact hm.ippon i
    · split
      · exact fun h => by cases h
      · exact hm.hansokuMake i
  | pause => exact hm.of_scores (RulesetIdentifier.scores_pause h)
  | resume => exact hm.of_scores (RulesetIdentifier.scores_resume h)
  | startOsaekomi i => exact hm.of_scores (RulesetIdentifier.scores_startOsaekomi h)
  | stopOsaekomi =>
    cases h
    exact hm.of_scores (RulesetIdentifier.scores_stopOsaekomi r m time)

/-- The scores are sound after every sequence of operations that starts with a fresh match. -/
theorem run_scoresSound {id : CombinedId} {type : MatchType} {title : String} {bye : Bool}
    {white blue : Option PlayerId} (ops : List (RulesetOperation × ℤ)) {m : MatchStore}
    (hrun : Runs.run (next r) ops (.init id type title bye white blue) = some m) : m.ScoresSound := by
  refine Runs.run_inv (fun m op m' (hm : m.ScoresSound) (_ : True) h => ?_)
    (MatchStore.scoresSound_init id type title bye white blue) (Runs.guarded_of_forall (fun _ _ _ => trivial) _) hrun
  obtain ⟨hcan, h⟩ := next_eq_some h
  exact scoresSound_run hm hcan h

/-- Two wazaris and their cancellation, three shidos with a direct hansoku-make, and the cancellation of
each. -/
def penalties : List (RulesetOperation × ℤ) :=
  [(.resume, 0), (.awardWazari .white, 1000), (.awardWazari .white, 2000), (.cancelWazari .white, 2000),
    (.awardShido .blue, 3000), (.awardShido .blue, 4000), (.pause, 5000), (.awardShido .blue, 6000),
    (.cancelShido .blue, 8000), (.awardHansokuMake .blue, 8000), (.cancelShido .blue, 9000),
    (.cancelHansokuMake .blue, 9000), (.startOsaekomi .white, 9500)]

theorem run_scoresSound_penalties :
    ∃ m, Runs.run (next .twentyEighteen) penalties
      (.init ⟨⟨1⟩, ⟨0⟩⟩ .elimination "" false (some ⟨1⟩) (some ⟨2⟩)) =
      some m ∧ m.ScoresSound := by
  obtain ⟨m, hm⟩ := Option.isSome_iff_exists.1
    (show (Runs.run (next .twentyEighteen) penalties
      (.init ⟨⟨1⟩, ⟨0⟩⟩ .elimination "" false (some ⟨1⟩) (some ⟨2⟩))).isSome = true by decide)
  exact ⟨m, hm, run_scoresSound _ hm⟩

end RulesetOperation

/-! ### Events -/

namespace MatchEventKind

open RulesetIdentifier

variable {r : RulesetIdentifier} {m m' : MatchStore} {i : PlayerIndex} {time : ℤ}

theorem scoresSound_record (hm : m.ScoresSound) {type : MatchEventType}
    (h : EventRules.record r type i time m = .ok m') : m'.ScoresSound := by
  have hpushed : (m.pushEvent ⟨type, i, m.currentDuration time⟩).ScoresSound := hm.of_scores rfl
  unfold EventRules.record at h
  generalize m.pushEvent ⟨type, i, m.currentDuration time⟩ = m₁ at h hpushed
  simp only at h
  split at h
  · exact hpushed.of_scores (scores_pause h)
  · cases h
    exact hpushed

/-- An event that is one award or cancellation. -/
theorem scoresSound_score (op : RulesetOperation) {can : MatchStore → PlayerIndex → Bool}
    {change : RulesetIdentifier → MatchStore → PlayerIndex → ℤ → Except Failure MatchStore}
    {type : MatchEventType}
    (hm : m.ScoresSound) (hcan : op.can m = true) (hrun : op.run r m time = change r m i time)
    (h : (EventRules.score can change type i time).effect r m = .ok m') : m'.ScoresSound := by
  simp only [EventRules.score, except_bind_ok] at h
  obtain ⟨m₁, h₁, h⟩ := h
  exact scoresSound_record (RulesetOperation.scoresSound_run hm hcan (hrun.trans h₁)) h

/-- An event whose guard holds keeps the scores sound. -/
theorem scoresSound_effect {k : MatchEventKind} (hm : m.ScoresSound) (hguard : k.rules.guard r m = true)
    (h : k.rules.effect r m = .ok m') : m'.ScoresSound := by
  cases k with
  | awardIppon i time osaekomi =>
    simp only [rules, EventRules.awardIppon, except_bind_ok] at h
    obtain ⟨m₁, h₁, m₂, h₂, h⟩ := h
    have hm₁ : m₁.ScoresSound := by
      unfold EventRules.cancelOsaekomiWazari at h₁
      split at h₁
      · next hcan =>
        rw [Bool.and_eq_true] at hcan
        exact @RulesetOperation.scoresSound_run r m m₁ time (.cancelWazari i) hm hcan.2 h₁
      · cases h₁
        exact hm
    have hcan : canAwardIppon m₁ i = true := by
      obtain ⟨_, hcheck, -⟩ := except_bind_ok.1 h₂
      exact Exec.check_ok.1 hcheck
    exact scoresSound_record (@RulesetOperation.scoresSound_run r m₁ m₂ time (.awardIppon i) hm₁ hcan h₂) h
  | awardWazari i time osaekomi =>
    simp only [rules, EventRules.awardWazari, except_bind_ok] at h hguard
    rw [Bool.and_eq_true] at hguard
    obtain ⟨m₁, h₁, h⟩ := h
    have hm₁ := @RulesetOperation.scoresSound_run r m m₁ time (.awardWazari i) hm hguard.2 h₁
    split at h
    · have hmarked : (m₁.setOsaekomiWazari true).ScoresSound := hm₁.of_scores rfl
      exact scoresSound_record hmarked h
    · exact scoresSound_record hm₁ h
  | awardShido i time => exact scoresSound_score (.awardShido i) hm hguard rfl h
  | awardHansokuMake i time => exact scoresSound_score (.awardHansokuMake i) hm hguard rfl h
  | cancelIppon i time => exact scoresSound_score (.cancelIppon i) hm hguard rfl h
  | cancelWazari i time => exact scoresSound_score (.cancelWazari i) hm hguard rfl h
  | cancelShido i time => exact scoresSound_score (.cancelShido i) hm hguard rfl h
  | cancelHansokuMake i time => exact scoresSound_score (.cancelHansokuMake i) hm hguard rfl h
  | pauseMatch time =>
    have h : r.pause m time = .ok m' := h
    exact hm.of_scores (scores_pause h)
  | resumeMatch time =>
    have h : r.resume m time = .ok m' := h
    exact hm.of_scores (scores_resume h)
  | startOsaekomi i time =>
    simp only [rules, EventRules.startOsaekomi, except_bind_ok] at h
    obtain ⟨m₁, h₁, h⟩ := h
    have hm₁ := hm.of_scores (scores_startOsaekomi h₁)
    split at h
    · exact hm₁.of_scores (scores_resume h)
    · cases h
      exact hm₁
  | stopOsaekomi time =>
    have hm₁ := hm.of_scores (scores_stopOsaekomi r m time)
    simp only [rules, EventRules.stopOsaekomi] at h
    split at h
    · exact hm₁.of_scores (scores_pause h)
    · cases h
      exact hm₁
  | setMatchBye bye =>
    simp only [rules, EventRules.setMatchBye, MatchStore.setBye, except_bind_ok, except_pure_ok] at h
    obtain ⟨_, _, rfl⟩ := h
    exact hm.of_scores rfl

end MatchEventKind

end JudoAssistant
