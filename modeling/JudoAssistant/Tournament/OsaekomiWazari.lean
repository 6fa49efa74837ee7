import JudoAssistant.Tournament.EventEffects

/-!
# The wazari of an osaekomi

An ippon takes the wazari of the same osaekomi back.  The match keeps one flag for it, and not whose
wazari it is.  A ledger beside the match records where the wazaris of the two players come from, and
the file says which events make an ippon take a wazari that is not the one of the osaekomi.
-/

namespace JudoAssistant

open Effect
open Exec (check_ok)
open RulesetIdentifier

/-! ### What the events write -/

/-- The match has another score of one player and another flag. -/
structure MatchStore.Writes (m m' : MatchStore) (i : PlayerIndex) (s : Score) (b : Bool) : Prop where
  own : m'.getScore i = s
  other : m'.getScore i.other = m.getScore i.other
  flag : m'.state.osaekomiWazari = b

/-- The match has the same scores and the same flag. -/
structure MatchStore.Kept (m m' : MatchStore) : Prop where
  score : m'.getScore = m.getScore
  flag : m'.state.osaekomiWazari = m.state.osaekomiWazari

namespace MatchStore

variable {r : RulesetIdentifier} {m m' m'' : MatchStore} {i : PlayerIndex} {s : Score} {time : ℤ}

theorem Kept.trans (h : m.Kept m') (h' : m'.Kept m'') : m.Kept m'' :=
  ⟨h'.score.trans h.score, h'.flag.trans h.flag⟩

theorem Kept.writes (h : (m.setScore i s).Kept m') : m.Writes m' i s m.state.osaekomiWazari := by
  refine ⟨?_, ?_, h.flag⟩
  · rw [h.score, getScore_setScore_self]
  · rw [h.score, getScore_setScore_other]

theorem Writes.trans_kept {b : Bool} (h : m.Writes m' i s b) (h' : m'.Kept m'') : m.Writes m'' i s b := by
  refine ⟨?_, ?_, h'.flag.trans h.flag⟩
  · rw [h'.score, h.own]
  · rw [h'.score, h.other]

theorem kept_of_state (hscores : m'.state.scores = m.state.scores)
    (hflag : m'.state.osaekomiWazari = m.state.osaekomiWazari) : m.Kept m' :=
  ⟨funext fun i => congrArg (ByPlayer.get · i) hscores, hflag⟩

theorem kept_updateStatus (m : MatchStore) (time : ℤ) : m.Kept (r.updateStatus m time) := by
  refine kept_of_state (scores_updateStatus r m time) ?_
  unfold updateStatus
  split
  · rfl
  · split <;> simp only <;> split <;> rfl

theorem kept_pause (h : r.pause m time = .ok m') : m.Kept m' := by
  refine kept_of_state (scores_pause h) ?_
  obtain ⟨-, rfl⟩ := pause_ok.1 h
  split
  · rfl
  · split <;> rfl

theorem kept_resume (h : r.resume m time = .ok m') : m.Kept m' := by
  obtain ⟨-, -, rfl⟩ := resume_ok.1 h
  exact ⟨rfl, rfl⟩

theorem kept_record {type : MatchEventType} (h : EventRules.record r type i time m = .ok m') : m.Kept m' := by
  have hpushed : m.Kept (m.pushEvent ⟨type, i, m.currentDuration time⟩) := ⟨rfl, rfl⟩
  unfold EventRules.record at h
  generalize m.pushEvent ⟨type, i, m.currentDuration time⟩ = m₁ at h hpushed
  simp only at h
  split at h
  · exact hpushed.trans (kept_pause h)
  · cases h
    exact hpushed

/-- A score that is written after a check. -/
theorem writes_of_write {b : Bool} (h : (do
      check .ruleset b
      return r.updateStatus (m.setScore i s) time : Except Failure MatchStore) = .ok m') :
    m.Writes m' i s m.state.osaekomiWazari := by
  simp only [except_bind_ok, except_pure_ok] at h
  obtain ⟨_, _, rfl⟩ := h
  exact (kept_updateStatus (m.setScore i s) time).writes

theorem writes_score {can : MatchStore → PlayerIndex → Bool} {type : MatchEventType} {b : Bool}
    {change : RulesetIdentifier → MatchStore → PlayerIndex → ℤ → Except Failure MatchStore}
    (hchange : ∀ m₁, change r m i time = .ok m₁ → m.Writes m₁ i s b)
    (h : (EventRules.score can change type i time).effect r m = .ok m') : m.Writes m' i s b := by
  simp only [EventRules.score, except_bind_ok] at h
  obtain ⟨m₁, h₁, h⟩ := h
  exact (hchange m₁ h₁).trans_kept (kept_record h)

/-- Whether an ippon takes a wazari back. -/
def takesBack (m : MatchStore) (i : PlayerIndex) : Bool := m.state.osaekomiWazari && canCancelWazari m i

theorem writes_awardIppon {osaekomi : Bool} (h : (EventRules.awardIppon i time osaekomi).effect r m = .ok m') :
    m.Writes m' i (if m.takesBack i then (m.getScore i).withoutWazari else m.getScore i).withIppon
      m.state.osaekomiWazari := by
  simp only [EventRules.awardIppon, except_bind_ok] at h
  obtain ⟨m₁, h₁, m₂, h₂, h⟩ := h
  have hfirst : m.Writes m₁ i (if m.takesBack i then (m.getScore i).withoutWazari else m.getScore i)
      m.state.osaekomiWazari := by
    unfold EventRules.cancelOsaekomiWazari at h₁
    unfold takesBack
    split at h₁
    · next hback =>
      rw [if_pos hback]
      exact writes_of_write h₁
    · next hback =>
      cases h₁
      rw [if_neg hback]
      exact ⟨rfl, rfl, rfl⟩
  have hsecond : m₁.Writes m₂ i (m₁.getScore i).withIppon m₁.state.osaekomiWazari := writes_of_write h₂
  rw [hfirst.own, hfirst.flag] at hsecond
  have hall : m.Writes m₂ i (if m.takesBack i then (m.getScore i).withoutWazari else m.getScore i).withIppon
      m.state.osaekomiWazari := ⟨hsecond.own, hsecond.other.trans hfirst.other, hsecond.flag⟩
  exact hall.trans_kept (kept_record h)

theorem writes_awardWazari {osaekomi : Bool} (h : (EventRules.awardWazari i time osaekomi).effect r m = .ok m') :
    m.Writes m' i (m.getScore i).withWazari (osaekomi || m.state.osaekomiWazari) := by
  simp only [EventRules.awardWazari, except_bind_ok] at h
  obtain ⟨m₁, h₁, h⟩ := h
  have hfirst : m.Writes m₁ i (m.getScore i).withWazari m.state.osaekomiWazari := writes_of_write h₁
  cases osaekomi with
  | false => exact hfirst.trans_kept (kept_record h)
  | true =>
    have hmarked : m.Writes (m₁.setOsaekomiWazari true) i (m.getScore i).withWazari true :=
      ⟨hfirst.own, hfirst.other, rfl⟩
    exact hmarked.trans_kept (kept_record h)

theorem writes_cancelWazari (h : (EventRules.cancelWazari i time).effect r m = .ok m') :
    m.Writes m' i (m.getScore i).withoutWazari m.state.osaekomiWazari :=
  writes_score (fun _ => writes_of_write) h

theorem writes_cancelIppon (h : (EventRules.cancelIppon i time).effect r m = .ok m') :
    m.Writes m' i { m.getScore i with directIppon := false, ippon := false } m.state.osaekomiWazari :=
  writes_score (fun _ => writes_of_write) h

/-- Ippons and wazaris are as they were. -/
structure SamePoints (m m' : MatchStore) : Prop where
  wazari : ∀ i, (m'.getScore i).wazari = (m.getScore i).wazari
  ippon : ∀ i, (m'.getScore i).ippon = (m.getScore i).ippon
  directIppon : ∀ i, (m'.getScore i).directIppon = (m.getScore i).directIppon

theorem Kept.samePoints (h : m.Kept m') : m.SamePoints m' := by
  refine ⟨fun i => ?_, fun i => ?_, fun i => ?_⟩ <;> rw [h.score]

theorem Writes.samePoints {b : Bool} (h : m.Writes m' i s b) (hwazari : s.wazari = (m.getScore i).wazari)
    (hippon : s.ippon = (m.getScore i).ippon) (hdirect : s.directIppon = (m.getScore i).directIppon) :
    m.SamePoints m' := by
  refine ⟨fun j => ?_, fun j => ?_, fun j => ?_⟩
  · obtain rfl | rfl := i.eq_or_eq_other j
    · rw [h.own, hwazari]
    · rw [h.other]
  · obtain rfl | rfl := i.eq_or_eq_other j
    · rw [h.own, hippon]
    · rw [h.other]
  · obtain rfl | rfl := i.eq_or_eq_other j
    · rw [h.own, hdirect]
    · rw [h.other]

/-- A penalty or its cancellation. -/
def isPenalty : MatchEventKind → Bool
  | .awardShido .. | .awardHansokuMake .. | .cancelShido .. | .cancelHansokuMake .. => true
  | _ => false

theorem samePoints_penalty {k : MatchEventKind} (hk : isPenalty k = true) (h : k.rules.effect r m = .ok m') :
    m.SamePoints m' ∧ m'.state.osaekomiWazari = m.state.osaekomiWazari := by
  cases k with
  | awardShido i time =>
    have hwrites := writes_score (fun _ => writes_of_write) h
    refine ⟨hwrites.samePoints ?_ ?_ ?_, hwrites.flag⟩ <;> split <;> rfl
  | awardHansokuMake i time =>
    have hwrites := writes_score (fun _ => writes_of_write) h
    exact ⟨hwrites.samePoints rfl rfl rfl, hwrites.flag⟩
  | cancelShido i time =>
    have hwrites := writes_score (fun _ => writes_of_write) h
    refine ⟨hwrites.samePoints ?_ ?_ ?_, hwrites.flag⟩ <;> split <;> rfl
  | cancelHansokuMake i time =>
    have hwrites := writes_score (fun _ => writes_of_write) h
    refine ⟨hwrites.samePoints ?_ ?_ ?_, hwrites.flag⟩ <;> split <;> rfl
  | _ => cases hk

/-- The beginning and the end of an osaekomi clear the flag. -/
theorem samePoints_startOsaekomi (h : (EventRules.startOsaekomi i time).effect r m = .ok m') :
    m.SamePoints m' ∧ m'.state.osaekomiWazari = false := by
  simp only [EventRules.startOsaekomi, except_bind_ok] at h
  obtain ⟨m₁, h₁, h⟩ := h
  simp only [startOsaekomi, except_bind_ok, except_pure_ok] at h₁
  obtain ⟨_, _, rfl⟩ := h₁
  have hhold : m.SamePoints ((m.setOsaekomi (some (i, time))).setOsaekomiWazari false) :=
    ⟨fun _ => rfl, fun _ => rfl, fun _ => rfl⟩
  split at h
  · have hkept := kept_resume h
    refine ⟨⟨fun j => ?_, fun j => ?_, fun j => ?_⟩, hkept.flag⟩ <;> rw [hkept.score] <;> rfl
  · cases h
    exact ⟨hhold, rfl⟩

theorem samePoints_stopOsaekomi (h : (EventRules.stopOsaekomi time).effect r m = .ok m') :
    m.SamePoints m' ∧ m'.state.osaekomiWazari = false := by
  have hrelease : (r.stopOsaekomi m time).state.osaekomiWazari = false := by
    unfold stopOsaekomi
    simp only
    split <;> rfl
  have hscores : m.SamePoints (r.stopOsaekomi m time) := by
    have hget : (r.stopOsaekomi m time).getScore = m.getScore :=
      funext fun i => congrArg (ByPlayer.get · i) (scores_stopOsaekomi r m time)
    refine ⟨fun i => ?_, fun i => ?_, fun i => ?_⟩ <;> rw [hget]
  simp only [EventRules.stopOsaekomi] at h
  split at h
  · have hkept := kept_pause h
    refine ⟨⟨fun j => ?_, fun j => ?_, fun j => ?_⟩, hkept.flag.trans hrelease⟩
    · rw [hkept.score, hscores.wazari]
    · rw [hkept.score, hscores.ippon]
    · rw [hkept.score, hscores.directIppon]
  · cases h
    exact ⟨hscores, hrelease⟩

end MatchStore

/-! ### The ledger -/

/-- Where the wazaris of the two players come from, the latest first: whether the osaekomi that is recorded on
the match has given the wazari to the player who holds it. -/
abbrev Ledger := PlayerIndex → List Bool

/-- Whether the osaekomi that is recorded is one of the player. -/
def MatchStore.holds (m : MatchStore) (i : PlayerIndex) : Bool := m.state.osaekomi.any (·.1 = i)

/-- A match with its ledger. -/
abbrev BookedMatch := MatchStore × Ledger

namespace Ledger

variable (pick : List Bool → ℕ)

/-- One wazari is taken back.  Which one of two it is, is left open. -/
def takeBack (l : List Bool) : List Bool := l.eraseIdx (pick l % l.length)

/-- What an event that takes effect does to the ledger. -/
def after (m : MatchStore) (g : Ledger) : MatchEventKind → Ledger
  | .awardWazari i _ osaekomi => Function.update g i ((osaekomi && m.holds i) :: g i)
  | .cancelWazari i _ => Function.update g i (takeBack pick (g i))
  | .awardIppon i _ _ => if m.takesBack i then Function.update g i (takeBack pick (g i)) else g
  | .startOsaekomi _ _ | .stopOsaekomi _ => fun i => (g i).map fun _ => false
  | _ => g

/-- An event on a match with its ledger. -/
def next (r : RulesetIdentifier) (s : BookedMatch) (k : MatchEventKind) : Option BookedMatch :=
  if k.rules.guard r s.1 then (k.rules.effect r s.1).toOption.map fun m => (m, after pick s.1 s.2 k) else some s

/-- An ippon leaves the score of the opponent alone, and takes a wazari of the player back only if the osaekomi that
is recorded has given him one that he still has. -/
def TakesOwn (r : RulesetIdentifier) (m : MatchStore) (g : Ledger) : Prop :=
  ∀ i time osaekomi m', (MatchEventKind.awardIppon i time osaekomi).rules.guard r m = true →
    (MatchEventKind.awardIppon i time osaekomi).next r m = some m' →
    m'.getScore i.other = m.getScore i.other ∧
      ((m'.getScore i).wazari < (m.getScore i).wazari → true ∈ g i)

/-- The event leaves the flag beside a wazari that the osaekomi has not given: it gives the wazari of the osaekomi
to a player who does not hold it or whose opponent has a wazari, it gives another wazari to a player who has none
while the flag is set, or it takes one of two wazaris back and leaves such a one. -/
def Misattributes (m : MatchStore) (g : Ledger) : MatchEventKind → Prop
  | .awardWazari i _ osaekomi => (m.getScore i).wazari = 0 ∧
      if osaekomi then m.holds i = false ∨ 0 < (m.getScore i.other).wazari else m.state.osaekomiWazari = true
  | .cancelWazari i _ => m.state.osaekomiWazari = true ∧ (m.getScore i).ippon = true ∧
      (m.getScore i).directIppon = false ∧
        (true ∉ takeBack pick (g i) ∨ 0 < (m.getScore i.other).wazari ∧ true ∉ g i.other)
  | _ => False

/-- The ledger agrees with the match, and every wazari that an ippon may take back is one that the osaekomi
has given. -/
structure Booked (m : MatchStore) (g : Ledger) : Prop where
  scores : m.ScoresSound
  length : ∀ i, (g i).length = (m.getScore i).wazari +
    if (m.getScore i).ippon && !(m.getScore i).directIppon then 2 else 0
  flag : ∀ i, true ∈ g i → m.state.osaekomiWazari = true
  own : m.state.osaekomiWazari = true → (∀ i, (m.getScore i).ippon = true → (m.getScore i).directIppon = true) →
    ∀ i, 0 < (m.getScore i).wazari → true ∈ g i

variable {pick : List Bool → ℕ} {r : RulesetIdentifier} {m m' : MatchStore} {g : Ledger}
    {i : PlayerIndex} {time : ℤ}

/-! ### An ippon -/

theorem Booked.takesOwn (h : Booked m g) : TakesOwn r m g := by
  intro i time osaekomi m' hguard hnext
  have hcan : canAwardIppon m i = true := hguard
  rw [canAwardIppon, Bool.and_eq_true, Bool.not_eq_true', Bool.not_eq_true'] at hcan
  have heffect := MatchEventKind.effect_of_next hguard hnext
  have hwrites := MatchStore.writes_awardIppon heffect
  refine ⟨hwrites.other, fun hless => ?_⟩
  rw [hwrites.own] at hless
  split at hless
  · next hback =>
    obtain ⟨hflag, hcancel⟩ := Bool.and_eq_true_iff.1 hback
    have hpos : 0 < (m.getScore i).wazari := by
      rw [canCancelWazari, hcan.2] at hcancel
      simpa using hcancel
    refine h.own hflag (fun j hj => ?_) i hpos
    obtain rfl | rfl := i.eq_or_eq_other j
    · rw [hcan.2] at hj
      cases hj
    · rw [hcan.1] at hj
      cases hj
  · exact absurd hless (lt_irrefl _)

/-- Where the flag stands beside a wazari that the osaekomi has not given, an ippon takes it back. -/
theorem not_takesOwn (hscores : m.ScoresSound) (hippon : ∀ j, (m.getScore j).ippon = false)
    (hflag : m.state.osaekomiWazari = true) (hpos : 0 < (m.getScore i).wazari) (hnot : true ∉ g i) :
    ¬TakesOwn r m g := by
  intro htakes
  have hcan : canAwardIppon m i = true := by
    rw [canAwardIppon, hippon, hippon]
    rfl
  obtain ⟨m', heffect⟩ : ∃ m', (EventRules.awardIppon i 0 false).effect r m = .ok m' :=
    EventRules.exists_awardIppon hcan
  have hback : m.takesBack i = true := by
    rw [MatchStore.takesBack, hflag, canCancelWazari]
    simp [hpos]
  have hone : (m.getScore i).wazari = 1 := by
    have hle := (hscores.score i).wazari
    omega
  have hown := (MatchStore.writes_awardIppon heffect).own
  rw [if_pos hback, Score.withoutWazari, if_pos hone] at hown
  have hless : (m'.getScore i).wazari < (m.getScore i).wazari := by
    rw [hown, hone]
    exact Nat.zero_lt_one
  exact hnot ((htakes i 0 false m' hcan (MatchEventKind.next_of_effect hcan heffect)).2 hless)

/-! ### The events -/

theorem length_takeBack {l : List Bool} (h : 0 < l.length) : (takeBack pick l).length = l.length - 1 :=
  List.length_eraseIdx_of_lt (Nat.mod_lt _ h)

theorem mem_of_mem_takeBack {b : Bool} {l : List Bool} (h : b ∈ takeBack pick l) : b ∈ l :=
  List.mem_of_mem_eraseIdx h

theorem Booked.of_samePoints (h : Booked m g) (hscores : m'.ScoresSound) (hpoints : m.SamePoints m')
    (hflag : m'.state.osaekomiWazari = m.state.osaekomiWazari) : Booked m' g := by
  refine ⟨hscores, fun i => ?_, fun i htrue => hflag.trans (h.flag i htrue), fun hset hdirect i hpos => ?_⟩
  · simp only [hpoints.wazari, hpoints.ippon, hpoints.directIppon]
    exact h.length i
  · simp only [hpoints.wazari, hpoints.ippon, hpoints.directIppon] at hdirect hpos
    exact h.own (hflag.symm.trans hset) hdirect i hpos

/-- Another osaekomi, or none, has given no wazari yet. -/
theorem Booked.forget (h : Booked m g) (hscores : m'.ScoresSound) (hpoints : m.SamePoints m')
    (hflag : m'.state.osaekomiWazari = false) : Booked m' (fun i => (g i).map fun _ => false) := by
  refine ⟨hscores, fun i => ?_, fun i htrue => ?_, fun hset => ?_⟩
  · simp only [hpoints.wazari, hpoints.ippon, hpoints.directIppon, List.length_map]
    exact h.length i
  · simp at htrue
  · rw [hflag] at hset
    cases hset

/-- The score and the ledger of one player are written. -/
theorem Booked.write (h : Booked m g) (hscores : m'.ScoresSound) {s : Score} {b : Bool} {l : List Bool}
    (hwrites : m.Writes m' i s b) (hlength : l.length = s.wazari + if s.ippon && !s.directIppon then 2 else 0)
    (hflag : m.state.osaekomiWazari = true ∨ true ∈ l → b = true)
    (hown : b = true → (s.ippon = true → s.directIppon = true) →
      ((m.getScore i.other).ippon = true → (m.getScore i.other).directIppon = true) →
      (0 < s.wazari → true ∈ l) ∧ (0 < (m.getScore i.other).wazari → true ∈ g i.other)) :
    Booked m' (Function.update g i l) := by
  have hne : i.other ≠ i := by cases i <;> decide
  have hself : Function.update g i l i = l := Function.update_self i l g
  have hother : Function.update g i l i.other = g i.other := Function.update_of_ne hne l g
  refine ⟨hscores, fun j => ?_, fun j htrue => ?_, fun hset hdirect j hpos => ?_⟩
  · obtain rfl | rfl := i.eq_or_eq_other j
    · rw [hself, hwrites.own, hlength]
    · rw [hother, hwrites.other]
      exact h.length i.other
  · rw [hwrites.flag]
    obtain rfl | rfl := i.eq_or_eq_other j
    · rw [hself] at htrue
      exact hflag (.inr htrue)
    · rw [hother] at htrue
      exact hflag (.inl (h.flag i.other htrue))
  · have hi := hdirect i
    have hj := hdirect i.other
    simp only [hwrites.own, hwrites.other] at hi hj
    obtain ⟨hmine, hopponent⟩ := hown (hwrites.flag.symm.trans hset) hi hj
    obtain rfl | rfl := i.eq_or_eq_other j
    · simp only [hwrites.own] at hpos
      rw [hself]
      exact hmine hpos
    · simp only [hwrites.other] at hpos
      rw [hother]
      exact hopponent hpos

theorem Booked.own_other (h : Booked m g) (hflag : m.state.osaekomiWazari = true)
    (hi : (m.getScore i).ippon = true → (m.getScore i).directIppon = true)
    (hj : (m.getScore i.other).ippon = true → (m.getScore i.other).directIppon = true)
    (hpos : 0 < (m.getScore i.other).wazari) : true ∈ g i.other := by
  refine h.own hflag (fun j => ?_) i.other hpos
  obtain rfl | rfl := i.eq_or_eq_other j
  · exact hi
  · exact hj

theorem Booked.awardIppon {osaekomi : Bool} (h : Booked m g) (hcan : canAwardIppon m i = true)
    (hscores : m'.ScoresSound) (heffect : (EventRules.awardIppon i time osaekomi).effect r m = .ok m') :
    Booked m' (after pick m g (.awardIppon i time osaekomi)) := by
  have hwrites := MatchStore.writes_awardIppon heffect
  rw [canAwardIppon, Bool.and_eq_true, Bool.not_eq_true', Bool.not_eq_true'] at hcan
  obtain ⟨hother, hippon⟩ := hcan
  have hnot : ∀ {p : Prop}, (m.getScore i).ippon = true → p := fun hset => by
    rw [hippon] at hset
    cases hset
  have hlength := h.length i
  have hle := (h.scores.score i).wazari
  simp only [hippon, Bool.false_and, Bool.false_eq_true, if_false, Nat.add_zero] at hlength
  show Booked m' (if m.takesBack i then Function.update g i (takeBack pick (g i)) else g)
  by_cases hback : m.takesBack i = true
  · rw [if_pos hback] at hwrites ⊢
    obtain ⟨-, hcancel⟩ := Bool.and_eq_true_iff.1 hback
    have hone : (m.getScore i).wazari = 1 := by
      rw [canCancelWazari, hippon] at hcancel
      simp only [Bool.false_and, Bool.or_false, decide_eq_true_eq] at hcancel
      omega
    rw [Score.withoutWazari, if_pos hone] at hwrites
    rw [hone] at hlength
    refine h.write hscores hwrites ?_ ?_ fun hflag _ hj => ⟨fun hpos => absurd hpos (lt_irrefl 0), ?_⟩
    · rw [length_takeBack (hlength ▸ Nat.zero_lt_one), hlength]
      rfl
    · rintro (hflag | htrue)
      · exact hflag
      · exact h.flag i (mem_of_mem_takeBack htrue)
    · exact h.own_other hflag hnot hj
  · rw [if_neg hback] at hwrites ⊢
    rw [← Function.update_eq_self i g]
    refine h.write hscores hwrites hlength ?_ fun hflag _ hj => ⟨fun hpos => ?_, h.own_other hflag hnot hj⟩
    · rintro (hflag | htrue)
      · exact hflag
      · exact h.flag i htrue
    · have hpos : 0 < (m.getScore i).wazari := hpos
      refine absurd (Bool.and_eq_true_iff.2 ⟨hflag, ?_⟩) hback
      rw [canCancelWazari, hippon]
      simpa using hpos

theorem Booked.awardWazari {osaekomi : Bool} (h : Booked m g)
    (hguard : (!(osaekomi && m.state.osaekomiWazari) && canAwardWazari m i) = true)
    (hok : ¬Misattributes pick m g (.awardWazari i time osaekomi)) (hscores : m'.ScoresSound)
    (heffect : (EventRules.awardWazari i time osaekomi).effect r m = .ok m') :
    Booked m' (after pick m g (.awardWazari i time osaekomi)) := by
  have hwrites := MatchStore.writes_awardWazari heffect
  have hcan := (Bool.and_eq_true_iff.1 hguard).2
  rw [canAwardWazari, Bool.and_eq_true, Bool.not_eq_true', Bool.not_eq_true'] at hcan
  obtain ⟨hother, hippon⟩ := hcan
  have hdirect : (m.getScore i).directIppon = false := by
    by_contra hne
    have hset := (h.scores.score i).directIppon (eq_true_of_ne_false hne)
    rw [hippon] at hset
    cases hset
  have hlength := h.length i
  have hle := (h.scores.score i).wazari
  simp only [hippon, Bool.false_and, Bool.false_eq_true, if_false, Nat.add_zero] at hlength
  have hflag : m.state.osaekomiWazari = true ∨ true ∈ (osaekomi && m.holds i) :: g i →
      (osaekomi || m.state.osaekomiWazari) = true := by
    rintro (hflag | htrue)
    · rw [hflag, Bool.or_true]
    · obtain heq | htrue := List.mem_cons.1 htrue
      · rw [(Bool.and_eq_true_iff.1 heq.symm).1, Bool.true_or]
      · rw [h.flag i htrue, Bool.or_true]
  refine h.write hscores hwrites ?_ hflag fun hset hippon' _ => ?_
  · unfold Score.withWazari
    split
    · next htwo =>
      simp only [hdirect, List.length_cons, hlength]
      exact htwo
    · simp only [hippon, List.length_cons, hlength]
      rfl
  · -- Two wazaris are an ippon that is not direct.
    have hzero : (m.getScore i).wazari = 0 := by
      by_contra hne
      have htwo : (m.getScore i).wazari + 1 = 2 := by omega
      rw [Score.withWazari, if_pos htwo] at hippon'
      rw [hippon' rfl] at hdirect
      cases hdirect
    have hok := fun hwrong => hok ⟨hzero, hwrong⟩
    cases osaekomi with
    | true =>
      obtain ⟨hholds, hopponent⟩ := not_or.1 hok
      rw [eq_true_of_ne_false hholds]
      exact ⟨fun _ => List.mem_cons_self, fun hpos => absurd hpos hopponent⟩
    | false => exact absurd hset hok

theorem Booked.cancelWazari (h : Booked m g) (hcan : canCancelWazari m i = true)
    (hok : ¬Misattributes pick m g (.cancelWazari i time)) (hscores : m'.ScoresSound)
    (heffect : (EventRules.cancelWazari i time).effect r m = .ok m') :
    Booked m' (after pick m g (.cancelWazari i time)) := by
  have hwrites := MatchStore.writes_cancelWazari heffect
  have hlength := h.length i
  have hsound := h.scores.score i
  have hflag : m.state.osaekomiWazari = true ∨ true ∈ takeBack pick (g i) → m.state.osaekomiWazari = true := by
    rintro (hflag | htrue)
    · exact hflag
    · exact h.flag i (mem_of_mem_takeBack htrue)
  by_cases hone : (m.getScore i).wazari = 1
  · have hdirect : ((m.getScore i).ippon && !(m.getScore i).directIppon) = false := by
      by_contra htwo
      obtain ⟨hippon, hnot⟩ := Bool.and_eq_true_iff.1 (eq_true_of_ne_false htwo)
      have hzero := hsound.twoWazaris hippon (Bool.not_eq_true' _ ▸ hnot)
      omega
    rw [Score.withoutWazari, if_pos hone] at hwrites
    simp only [hone, hdirect, Bool.false_eq_true, if_false, Nat.add_zero] at hlength
    refine h.write hscores hwrites ?_ hflag fun hset hi hj =>
      ⟨fun hpos => absurd hpos (lt_irrefl 0), h.own_other hset hi hj⟩
    rw [length_takeBack (hlength ▸ Nat.zero_lt_one), hlength]
    simp [hdirect]
  · obtain ⟨hippon, hdirect⟩ : (m.getScore i).ippon = true ∧ (m.getScore i).directIppon = false := by
      have hle := hsound.wazari
      rw [canCancelWazari, Bool.or_eq_true, decide_eq_true_eq, Bool.and_eq_true, Bool.not_eq_true'] at hcan
      exact hcan.resolve_left (by omega)
    rw [Score.withoutWazari, if_neg hone, if_pos hippon] at hwrites
    simp only [hsound.twoWazaris hippon hdirect, hippon, hdirect] at hlength
    have hlength : (g i).length = 2 := hlength
    refine h.write hscores hwrites ?_ hflag fun hset _ _ => ?_
    · rw [length_takeBack (hlength ▸ Nat.two_pos), hlength]
      rfl
    · have hok := not_or.1 fun hwrong => hok ⟨hset, hippon, hdirect, hwrong⟩
      exact ⟨fun _ => not_not.1 hok.1, fun hpos => not_not.1 (not_and.1 hok.2 hpos)⟩

theorem Booked.cancelIppon (h : Booked m g) (hcan : (m.getScore i).directIppon = true)
    (hscores : m'.ScoresSound) (heffect : (EventRules.cancelIppon i time).effect r m = .ok m') : Booked m' g := by
  have hwrites := MatchStore.writes_cancelIppon heffect
  have hlength := h.length i
  rw [hcan] at hlength
  simp only [Bool.not_true, Bool.and_false, Bool.false_eq_true, if_false, Nat.add_zero] at hlength
  rw [← Function.update_eq_self i g]
  refine h.write hscores hwrites hlength ?_ fun hset _ hj => ⟨fun hpos => ?_, h.own_other hset (fun _ => hcan) hj⟩
  · rintro (hflag | htrue)
    · exact hflag
    · exact h.flag i htrue
  · refine h.own hset (fun j => ?_) i hpos
    obtain rfl | rfl := i.eq_or_eq_other j
    · exact fun _ => hcan
    · exact hj

/-- An event that misattributes no wazari. -/
theorem Booked.effect {k : MatchEventKind} (h : Booked m g) (hguard : k.rules.guard r m = true)
    (hok : ¬Misattributes pick m g k) (heffect : k.rules.effect r m = .ok m') : Booked m' (after pick m g k) := by
  have hscores := MatchEventKind.scoresSound_effect h.scores hguard heffect
  by_cases hpenalty : MatchStore.isPenalty k = true
  · obtain ⟨hpoints, hflag⟩ := MatchStore.samePoints_penalty hpenalty heffect
    cases k with
    | awardShido i time => exact h.of_samePoints hscores hpoints hflag
    | awardHansokuMake i time => exact h.of_samePoints hscores hpoints hflag
    | cancelShido i time => exact h.of_samePoints hscores hpoints hflag
    | cancelHansokuMake i time => exact h.of_samePoints hscores hpoints hflag
    | _ => cases hpenalty
  cases k with
  | awardIppon i time osaekomi => exact h.awardIppon hguard hscores heffect
  | awardWazari i time osaekomi => exact h.awardWazari hguard hok hscores heffect
  | cancelIppon i time => exact h.cancelIppon hguard hscores heffect
  | cancelWazari i time => exact h.cancelWazari hguard hok hscores heffect
  | pauseMatch time =>
    have hkept := MatchStore.kept_pause (show r.pause m time = .ok m' from heffect)
    exact h.of_samePoints hscores hkept.samePoints hkept.flag
  | resumeMatch time =>
    have hkept := MatchStore.kept_resume (show r.resume m time = .ok m' from heffect)
    exact h.of_samePoints hscores hkept.samePoints hkept.flag
  | startOsaekomi i time =>
    obtain ⟨hpoints, hflag⟩ := MatchStore.samePoints_startOsaekomi heffect
    exact h.forget hscores hpoints hflag
  | stopOsaekomi time =>
    obtain ⟨hpoints, hflag⟩ := MatchStore.samePoints_stopOsaekomi heffect
    exact h.forget hscores hpoints hflag
  | setMatchBye bye =>
    simp only [MatchEventKind.rules, EventRules.setMatchBye, MatchStore.setBye, except_bind_ok,
      except_pure_ok] at heffect
    obtain ⟨_, _, rfl⟩ := heffect
    exact h.of_samePoints hscores ⟨fun _ => rfl, fun _ => rfl, fun _ => rfl⟩ rfl
  | _ => exact absurd rfl hpenalty

theorem exists_not_takesOwn_awardWazari {osaekomi : Bool} (h : Booked m g)
    (hguard : (!(osaekomi && m.state.osaekomiWazari) && canAwardWazari m i) = true)
    (hwrong : Misattributes pick m g (.awardWazari i time osaekomi)) :
    ∃ m', (EventRules.awardWazari i time osaekomi).effect r m = .ok m' ∧
      ¬TakesOwn r m' (after pick m g (.awardWazari i time osaekomi)) := by
  obtain ⟨hzero, hwrong⟩ := hwrong
  obtain ⟨hunmarked, hcan⟩ := Bool.and_eq_true_iff.1 hguard
  obtain ⟨m', heffect⟩ : ∃ m', (EventRules.awardWazari i time osaekomi).effect r m = .ok m' :=
    EventRules.exists_awardWazari hcan
  have hscores := MatchEventKind.scoresSound_effect (k := .awardWazari i time osaekomi) h.scores hguard heffect
  have hwrites := MatchStore.writes_awardWazari heffect
  rw [canAwardWazari, Bool.and_eq_true, Bool.not_eq_true', Bool.not_eq_true'] at hcan
  obtain ⟨hother, hippon⟩ := hcan
  have hone : (m.getScore i).withWazari = { m.getScore i with wazari := 1 } := by
    rw [Score.withWazari, hzero]
    rfl
  rw [hone] at hwrites
  have hnone : ∀ j, (m'.getScore j).ippon = false := fun j => by
    obtain rfl | rfl := i.eq_or_eq_other j
    · rw [hwrites.own]
      exact hippon
    · rw [hwrites.other]
      exact hother
  have hempty : g i = [] := by
    have hlength := h.length i
    rw [hzero, hippon] at hlength
    exact List.length_eq_zero_iff.1 hlength
  have hpos : 0 < (m'.getScore i).wazari := by
    rw [hwrites.own]
    exact Nat.zero_lt_one
  have hne : i.other ≠ i := by cases i <;> decide
  refine ⟨m', heffect, ?_⟩
  cases osaekomi with
  | false =>
    refine not_takesOwn hscores hnone (hwrites.flag.trans hwrong) hpos ?_
    simp [after, hempty]
  | true =>
    have hset : m'.state.osaekomiWazari = true := hwrites.flag
    obtain hholds | hopponent := hwrong
    · refine not_takesOwn hscores hnone hset hpos ?_
      simp [after, hempty, hholds]
    · -- The flag was clear before, so the opponent has no wazari of an osaekomi.
      have hclear : m.state.osaekomiWazari = false := by simpa using hunmarked
      have hpos' : 0 < (m'.getScore i.other).wazari := by rwa [hwrites.other]
      refine not_takesOwn hscores hnone hset hpos' fun htrue => ?_
      simp only [after, Function.update_of_ne hne] at htrue
      rw [h.flag i.other htrue] at hclear
      cases hclear

theorem exists_not_takesOwn_cancelWazari (h : Booked m g) (hcan : canCancelWazari m i = true)
    (hwrong : Misattributes pick m g (.cancelWazari i time)) :
    ∃ m', (EventRules.cancelWazari i time).effect r m = .ok m' ∧
      ¬TakesOwn r m' (after pick m g (.cancelWazari i time)) := by
  obtain ⟨hflag, hippon, hdirect, hleft⟩ := hwrong
  have hcall : r.cancelWazari m i time = .ok _ := except_bind_ok.2 ⟨(), check_ok.2 hcan, rfl⟩
  obtain ⟨m', heffect⟩ : ∃ m', (EventRules.cancelWazari i time).effect r m = .ok m' :=
    EventRules.exists_score ⟨_, hcall⟩
  have hscores := MatchEventKind.scoresSound_effect (k := .cancelWazari i time) h.scores hcan heffect
  have hwrites := MatchStore.writes_cancelWazari heffect
  have hzero := (h.scores.score i).twoWazaris hippon hdirect
  have hback : (m.getScore i).withoutWazari = { m.getScore i with wazari := 1, ippon := false } := by
    rw [Score.withoutWazari, hzero, if_neg Nat.zero_ne_one, if_pos hippon]
  rw [hback] at hwrites
  have hother := h.scores.ippon i hippon
  have hnone : ∀ j, (m'.getScore j).ippon = false := fun j => by
    obtain rfl | rfl := i.eq_or_eq_other j
    · rw [hwrites.own]
    · rw [hwrites.other]
      exact hother
  have hne : i.other ≠ i := by cases i <;> decide
  have hset : m'.state.osaekomiWazari = true := hwrites.flag.trans hflag
  refine ⟨m', heffect, ?_⟩
  obtain hown | ⟨hpos, hopponent⟩ := hleft
  · have hpos : 0 < (m'.getScore i).wazari := by
      rw [hwrites.own]
      exact Nat.zero_lt_one
    refine not_takesOwn hscores hnone hset hpos ?_
    simpa only [after, Function.update_self] using hown
  · have hpos' : 0 < (m'.getScore i.other).wazari := by rwa [hwrites.other]
    refine not_takesOwn hscores hnone hset hpos' ?_
    simpa only [after, Function.update_of_ne hne] using hopponent

/-- An event that misattributes a wazari leaves a match in which an ippon takes a wazari that is not its own. -/
theorem Booked.exists_not_takesOwn {k : MatchEventKind} (h : Booked m g) (hguard : k.rules.guard r m = true)
    (hwrong : Misattributes pick m g k) :
    ∃ m', k.rules.effect r m = .ok m' ∧ ¬TakesOwn r m' (after pick m g k) := by
  cases k with
  | awardWazari i time osaekomi => exact exists_not_takesOwn_awardWazari h hguard hwrong
  | cancelWazari i time => exact exists_not_takesOwn_cancelWazari h hguard hwrong
  | _ => cases hwrong

/-! ### Runs -/

theorem next_eq_some {s s' : BookedMatch} {k : MatchEventKind} (h : next pick r s k = some s') :
    k.rules.guard r s.1 = false ∧ s' = s ∨
      k.rules.guard r s.1 = true ∧ k.rules.effect r s.1 = .ok s'.1 ∧ s'.2 = after pick s.1 s.2 k := by
  unfold next at h
  split at h
  · next hguard =>
    cases heffect : k.rules.effect r s.1 with
    | error e =>
      rw [heffect] at h
      cases h
    | ok m =>
      rw [heffect] at h
      cases h
      exact .inr ⟨hguard, rfl, rfl⟩
  · next hguard =>
    cases h
    exact .inl ⟨Bool.eq_false_iff.2 hguard, rfl⟩

/-- The ledger changes nothing for the match. -/
theorem fst_next (s : BookedMatch) (k : MatchEventKind) : (next pick r s k).map Prod.fst = k.next r s.1 := by
  unfold next MatchEventKind.next
  split
  · cases k.rules.effect r s.1 <;> rfl
  · rfl

theorem fst_run (es : List MatchEventKind) (s : BookedMatch) :
    (Runs.run (next pick r) es s).map Prod.fst = Runs.run (MatchEventKind.next r) es s.1 := by
  induction es generalizing s with
  | nil => rfl
  | cons k es ih =>
    rw [Runs.run, Runs.run, ← fst_next, Option.map_bind, Option.bind_map]
    exact congrArg _ (funext ih)

theorem booked_init (id : CombinedId) (type : MatchType) (title : String) (bye : Bool) (white blue : Option PlayerId) :
    Booked (.init id type title bye white blue) fun _ => [] := by
  have hscore : ∀ i, (MatchStore.init id type title bye white blue).getScore i = {} := fun i => by cases i <;> rfl
  refine ⟨MatchStore.scoresSound_init id type title bye white blue, fun i => ?_, fun i htrue => (nomatch htrue),
    fun _ _ i hpos => ?_⟩
  · rw [hscore]
    rfl
  · rw [hscore] at hpos
    cases hpos

/-- In every state of a run of events on a fresh match an ippon leaves the score of the opponent alone, and takes a
wazari back only if the osaekomi that is recorded has given the player one that he still has, if and only if no event
of the run misattributes a wazari. -/
theorem takesOwn_iff (pick : List Bool → ℕ) (r : RulesetIdentifier) {id : CombinedId} {type : MatchType}
    {title : String} {bye : Bool} {white blue : Option PlayerId} (es : List MatchEventKind) :
    Runs.Guarded (next pick r) (fun (s : BookedMatch) k =>
        ¬(k.rules.guard r s.1 = true ∧ Misattributes pick s.1 s.2 k)) es
        (.init id type title bye white blue, fun _ => []) ↔
      ∀ es₁ s, es₁ <+: es →
        Runs.run (next pick r) es₁ (.init id type title bye white blue, fun _ => []) = some s →
        TakesOwn r s.1 s.2 := by
  refine Runs.guarded_iff_forall_prefix (fun (s : BookedMatch) (h : Booked s.1 s.2) => h.takesOwn) ?_ ?_
    (booked_init id type title bye white blue)
  · intro k _ s s' h hok hnext
    obtain ⟨-, rfl⟩ | ⟨hguard, heffect, hledger⟩ := next_eq_some hnext
    · exact h
    · rw [hledger]
      exact h.effect hguard (fun hwrong => hok ⟨hguard, hwrong⟩) heffect
  · intro k _ s h hok
    obtain ⟨hguard, hwrong⟩ := not_not.1 hok
    obtain ⟨m', heffect, hnot⟩ := h.exists_not_takesOwn hguard hwrong
    refine ⟨(m', after pick s.1 s.2 k), ?_, hnot⟩
    rw [next, if_pos hguard, heffect]
    rfl

/-- Blue has a wazari when the osaekomi of white gives white one. -/
def crossedEvents : List MatchEventKind :=
  [.resumeMatch 0, .awardWazari .blue 1000 false, .startOsaekomi .white 2000, .awardWazari .white 13000 true]

/-- The ippon of blue takes the wazari of blue, which is no wazari of the osaekomi. -/
theorem not_takesOwn_crossed :
    ∃ s, Runs.run (next (fun _ => 0) .twentyEighteen) crossedEvents
        (.init ⟨⟨1⟩, ⟨0⟩⟩ .elimination "" false (some ⟨1⟩) (some ⟨2⟩), fun _ => []) = some s ∧
      s.2 .blue = [false] ∧ (s.1.getScore .blue).wazari = 1 ∧
      ((MatchEventKind.awardIppon .blue 14000 false).next .twentyEighteen s.1).map
        (fun m => (m.getScore .blue).wazari) =
        some 0 ∧
      ¬TakesOwn .twentyEighteen s.1 s.2 := by
  have hrun : (Runs.run (next (fun _ => 0) .twentyEighteen) crossedEvents
      (.init ⟨⟨1⟩, ⟨0⟩⟩ .elimination "" false (some ⟨1⟩) (some ⟨2⟩), fun _ => [])).map
        (fun s => (s.2 .blue, s.1.getScore .blue, canAwardIppon s.1 .blue,
          ((MatchEventKind.awardIppon .blue 14000 false).next .twentyEighteen s.1).map
            fun m => (m.getScore .blue).wazari)) = some ([false], { wazari := 1 }, true, some 0) := rfl
  obtain ⟨s, hs, hends⟩ := Option.map_eq_some_iff.1 hrun
  obtain ⟨hledger, hscore, hcan, hnext⟩ : s.2 .blue = [false] ∧ s.1.getScore .blue = { wazari := 1 } ∧
      canAwardIppon s.1 .blue = true ∧ _ = some 0 := by
    simpa only [Prod.mk.injEq] using hends
  obtain ⟨m', hm', hzero⟩ := Option.map_eq_some_iff.1 hnext
  have hone : (s.1.getScore .blue).wazari = 1 := by rw [hscore]
  refine ⟨s, hs, hledger, hone, hnext, fun htakes => ?_⟩
  have hless : (m'.getScore .blue).wazari < (s.1.getScore .blue).wazari := by
    rw [hzero, hone]
    exact Nat.zero_lt_one
  have htrue := (htakes .blue 14000 false m' hcan hm').2 hless
  rw [hledger] at htrue
  simp at htrue

end Ledger

end JudoAssistant
